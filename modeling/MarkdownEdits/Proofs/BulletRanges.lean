import MarkdownEdits.BulletMerging

/-!
# Ranges of merged bullets

Merging works on spans in ascending order of their starts. Each span ends up in a range of its own
preset, and no range reaches into the next one exactly if no span starts inside an earlier one that
it does not carry on.
-/
namespace MarkdownEdits
namespace StableSort

variable {α : Type} {le : α → α → Bool}

theorem pairwise_insert (total : ∀ x y, le x y = true ∨ le y x = true)
    (trans : ∀ x y z, le x y = true → le y z = true → le x z = true) (x : α) {xs : List α}
    (h : xs.Pairwise fun a b => le a b = true) :
    (insert le x xs).Pairwise fun a b => le a b = true := by
  induction xs with
  | nil => exact List.pairwise_singleton _ _
  | cons y rest ih =>
    obtain ⟨hy, hrest⟩ := List.pairwise_cons.mp h
    rw [insert]
    split
    · rename_i hxy
      refine List.pairwise_cons.mpr ⟨?_, h⟩
      intro z hz
      rcases List.mem_cons.mp hz with rfl | hz
      · exact hxy
      · exact trans x y z hxy (hy z hz)
    · rename_i hxy
      refine List.pairwise_cons.mpr ⟨?_, ih hrest⟩
      intro z hz
      rcases List.mem_cons.mp ((insert_perm le x rest).mem_iff.mp hz) with rfl | hz
      · exact (total z y).resolve_left hxy
      · exact hy z hz

theorem pairwise_sort (total : ∀ x y, le x y = true ∨ le y x = true)
    (trans : ∀ x y z, le x y = true → le y z = true → le x z = true) (xs : List α) :
    (sort le xs).Pairwise fun a b => le a b = true := by
  induction xs with
  | nil => exact .nil
  | cons x rest ih => exact pairwise_insert total trans x ih

theorem sort_of_pairwise {xs : List α} (h : xs.Pairwise fun a b => le a b = true) :
    sort le xs = xs := by
  induction xs with
  | nil => rfl
  | cons x rest ih =>
    obtain ⟨hx, hrest⟩ := List.pairwise_cons.mp h
    have hsort : sort le (x :: rest) = insert le x rest := congrArg (insert le x) (ih hrest)
    rw [hsort]
    cases rest with
    | nil => rfl
    | cons y rest => simp [insert, hx y List.mem_cons_self]

end StableSort

namespace BulletSpan

/-! ## Order -/

def StartsInOrder (spans : List BulletSpan) : Prop :=
  spans.Pairwise fun a b => a.span.start ≤ b.span.start

theorem StartsInOrder.ascending_eq {spans : List BulletSpan} (h : StartsInOrder spans) :
    ascending spans = spans :=
  StableSort.sort_of_pairwise (by simpa [StartsInOrder] using h)

theorem pairwise_descending (spans : List BulletSpan) :
    (descending spans).Pairwise fun a b => b.span.start ≤ a.span.start := by
  have hsort : (descending spans).Pairwise fun a b =>
      decide (b.span.start ≤ a.span.start) = true := by
    apply StableSort.pairwise_sort
    · intro a b
      simp only [decide_eq_true_eq]
      omega
    · intro a b c
      simp only [decide_eq_true_eq]
      omega
  simpa using hsort

theorem descending_perm (spans : List BulletSpan) : (descending spans).Perm spans :=
  StableSort.sort_perm _ _

/-! ## Merging -/

@[simp] theorem merge_singleton (current : BulletSpan) : merge [current] = [current] := rfl

theorem merge_cons_cons (current next : BulletSpan) (rest : List BulletSpan) :
    merge (current :: next :: rest) =
      if current.joins next then merge (current.absorb next :: rest)
      else current :: merge (next :: rest) := rfl

theorem joins_iff {current next : BulletSpan} :
    current.joins next = true ↔ next.preset ≠ .checkbox ∧ current.preset = next.preset ∧
      next.span.start ≤ current.span.stop + 1 := by
  simp [joins, and_assoc]

/-- What holds of all spans and outlasts joining holds of all ranges. -/
theorem forall_mem_merge {P : BulletSpan → Prop}
    (hjoin : ∀ r x, P r → P x → r.joins x = true → P (r.absorb x)) {spans : List BulletSpan}
    (hspans : ∀ x ∈ spans, P x) : ∀ r ∈ merge spans, P r := by
  cases spans with
  | nil => simp [merge]
  | cons current xs =>
    induction xs generalizing current with
    | nil => simpa using hspans
    | cons next rest ih =>
      obtain ⟨hcurrent, hrest⟩ := List.forall_mem_cons.mp hspans
      obtain ⟨hnext, hrest'⟩ := List.forall_mem_cons.mp hrest
      rw [merge_cons_cons]
      split
      · rename_i hjoins
        exact ih _ (List.forall_mem_cons.mpr ⟨hjoin current next hcurrent hnext hjoins, hrest'⟩)
      · exact List.forall_mem_cons.mpr ⟨hcurrent, ih next hrest⟩

theorem exists_stop_eq_of_mem_merge {spans : List BulletSpan} {r : BulletSpan}
    (h : r ∈ merge spans) : ∃ x ∈ spans, x.span.stop = r.span.stop := by
  refine forall_mem_merge (P := fun r => ∃ x ∈ spans, x.span.stop = r.span.stop) ?_ ?_ r h
  · rintro r x ⟨y, hy, hstop⟩ ⟨z, hz, hstop'⟩ -
    rcases Int.le_total r.span.stop x.span.stop with hle | hle
    · exact ⟨z, hz, by simp [absorb, Int.max_eq_right hle, hstop']⟩
    · exact ⟨y, hy, by simp [absorb, Int.max_eq_left hle, hstop]⟩
  · exact fun x hx => ⟨x, hx, rfl⟩

/-- One more span either goes into the last range or makes one of its own. -/
theorem merge_concat (current : BulletSpan) (xs : List BulletSpan) (next : BulletSpan) :
    ∃ done last, merge (current :: xs) = done ++ [last] ∧ merge (current :: xs ++ [next]) =
      if last.joins next then done ++ [last.absorb next] else done ++ [last, next] := by
  induction xs generalizing current with
  | nil => exact ⟨[], current, rfl, rfl⟩
  | cons x xs ih =>
    simp only [List.cons_append, merge_cons_cons]
    split
    · exact ih (current.absorb x)
    · obtain ⟨done, last, hxs, hnext⟩ := ih x
      rw [List.cons_append] at hnext
      refine ⟨current :: done, last, by rw [hxs]; rfl, ?_⟩
      rw [hnext]
      split <;> rfl

/-- Merging the spans joins this one to the range that it finds last. -/
def JoinedIn (spans : List BulletSpan) (range next : BulletSpan) : Prop :=
  ∃ before after done, spans = before ++ next :: after ∧ merge before = done ++ [range] ∧
    merge (before ++ [next]) = done ++ [range.absorb next]

theorem JoinedIn.joins {spans : List BulletSpan} {range next : BulletSpan}
    (h : JoinedIn spans range next) : range.joins next = true := by
  obtain ⟨before, after, done, -, hrange, hnext⟩ := h
  cases before with
  | nil => simp [merge] at hrange
  | cons first rest =>
    obtain ⟨done', last, hlast, hconcat⟩ := merge_concat first rest next
    rw [hlast] at hrange
    obtain ⟨rfl, hlast'⟩ := List.append_inj' hrange rfl
    cases hlast'
    rw [hconcat] at hnext
    split at hnext
    · assumption
    · exact absurd (congrArg List.length hnext) (by simp)

theorem JoinedIn.mem {spans : List BulletSpan} {range next : BulletSpan}
    (h : JoinedIn spans range next) : next ∈ spans := by
  obtain ⟨before, after, -, rfl, -⟩ := h
  simp

theorem JoinedIn.exists_stop_eq {spans : List BulletSpan} {range next : BulletSpan}
    (h : JoinedIn spans range next) : ∃ x ∈ spans, x.span.stop = range.span.stop := by
  obtain ⟨before, after, done, rfl, hrange, -⟩ := h
  have hmem : range ∈ merge before := by simp [hrange]
  obtain ⟨x, hx, hstop⟩ := exists_stop_eq_of_mem_merge hmem
  exact ⟨x, List.mem_append_left _ hx, hstop⟩

/-! ## Ranges that keep clear of each other -/

/-- If the second span starts inside the first one, it carries it on. -/
def Clear (a b : BulletSpan) : Prop :=
  b.span.start < a.span.stop → a.preset = b.preset ∧ b.preset ≠ .checkbox

instance (a b : BulletSpan) : Decidable (Clear a b) := inferInstanceAs (Decidable (_ → _))

theorem clear_absorb_iff {a b c : BulletSpan} (h : a.joins b = true) :
    Clear (a.absorb b) c ↔ Clear a c ∧ Clear b c := by
  obtain ⟨-, hpreset, -⟩ := joins_iff.mp h
  have hlt : c.span.start < max a.span.stop b.span.stop ↔
      c.span.start < a.span.stop ∨ c.span.start < b.span.stop := by
    omega
  simp only [Clear, absorb, hpreset, hlt, or_imp]

theorem clear_of_joins {a b : BulletSpan} (h : a.joins b = true) : Clear a b := by
  obtain ⟨hcheckbox, hpreset, -⟩ := joins_iff.mp h
  exact fun _ => ⟨hpreset, hcheckbox⟩

theorem Clear.stop_le {a b : BulletSpan} (h : Clear a b) (hjoins : ¬a.joins b = true) :
    a.span.stop ≤ b.span.start := by
  apply Int.not_lt.mp
  intro hlt
  obtain ⟨hpreset, hcheckbox⟩ := h hlt
  exact hjoins (joins_iff.mpr ⟨hcheckbox, hpreset, by omega⟩)

/-- The first range stops in front of the second one. -/
def Before (a b : BulletSpan) : Prop := a.span.stop ≤ b.span.start

theorem start_le_of_mem_merge {current : BulletSpan} {xs : List BulletSpan}
    (h : StartsInOrder (current :: xs)) :
    ∀ r ∈ merge (current :: xs), current.span.start ≤ r.span.start :=
  forall_mem_merge (fun _ _ hr _ _ => hr)
    (List.forall_mem_cons.mpr ⟨Int.le_refl _, (List.pairwise_cons.mp h).1⟩)

private theorem startsInOrder_absorb {current next : BulletSpan} {rest : List BulletSpan}
    (h : StartsInOrder (current :: next :: rest)) :
    StartsInOrder (current.absorb next :: rest) := by
  obtain ⟨hcurrent, hnext⟩ := List.pairwise_cons.mp h
  refine List.pairwise_cons.mpr ⟨fun x hx => ?_, hnext.of_cons⟩
  exact hcurrent x (List.mem_cons_of_mem _ hx)

theorem startsInOrder_merge {spans : List BulletSpan} (h : StartsInOrder spans) :
    StartsInOrder (merge spans) := by
  cases spans with
  | nil => exact .nil
  | cons current xs =>
    induction xs generalizing current with
    | nil => exact List.pairwise_singleton _ _
    | cons next rest ih =>
      rw [merge_cons_cons]
      split
      · exact ih (current.absorb next) (startsInOrder_absorb h)
      · obtain ⟨hcurrent, hnext⟩ := List.pairwise_cons.mp h
        refine List.pairwise_cons.mpr ⟨fun r hr => ?_, ih next hnext⟩
        exact Int.le_trans (hcurrent next List.mem_cons_self) (start_le_of_mem_merge hnext r hr)

private theorem exists_start_eq_merge (current : BulletSpan) (xs : List BulletSpan) :
    ∃ r ∈ merge (current :: xs), r.span.start = current.span.start := by
  induction xs generalizing current with
  | nil => exact ⟨current, by simp, rfl⟩
  | cons next rest ih =>
    rw [merge_cons_cons]
    split
    · exact ih (current.absorb next)
    · exact ⟨current, List.mem_cons_self, rfl⟩

private theorem pairwise_clear_cons_absorb {current next : BulletSpan} {rest : List BulletSpan}
    (hjoins : current.joins next = true) :
    (current :: next :: rest).Pairwise Clear ↔ (current.absorb next :: rest).Pairwise Clear := by
  have hclear := clear_of_joins hjoins
  simp only [List.pairwise_cons, List.forall_mem_cons, clear_absorb_iff hjoins, hclear, true_and,
    forall_and, and_assoc]

/-- The ranges stand one behind the other exactly if every span that starts inside an earlier one
carries it on. -/
theorem pairwise_before_merge_iff {spans : List BulletSpan} (h : StartsInOrder spans) :
    (merge spans).Pairwise Before ↔ spans.Pairwise Clear := by
  cases spans with
  | nil => simp [merge]
  | cons current xs =>
    induction xs generalizing current with
    | nil => simp
    | cons next rest ih =>
      rw [merge_cons_cons]
      split
      · rename_i hjoins
        rw [ih _ (startsInOrder_absorb h), pairwise_clear_cons_absorb hjoins]
      · rename_i hjoins
        obtain ⟨hcurrent, hnext⟩ := List.pairwise_cons.mp h
        rw [List.pairwise_cons, List.pairwise_cons, ih next hnext]
        refine and_congr_left fun _ => ?_
        constructor
        · intro hbefore x hx hlt
          -- The next range starts where the next span does, so no span starts inside.
          obtain ⟨r, hr, hstart⟩ := exists_start_eq_merge next rest
          have hstop : current.span.stop ≤ r.span.start := hbefore r hr
          have hle : next.span.start ≤ x.span.start := by
            rcases List.mem_cons.mp hx with rfl | hx
            · exact Int.le_refl _
            · exact (List.pairwise_cons.mp hnext).1 x hx
          omega
        · intro hclear r hr
          have hstop := (hclear next List.mem_cons_self).stop_le hjoins
          exact Int.le_trans hstop (start_le_of_mem_merge hnext r hr)

/-- The range has the span in it and its preset. -/
structure Covers (r a : BulletSpan) : Prop where
  start_le : r.span.start ≤ a.span.start
  stop_le : a.span.stop ≤ r.span.stop
  preset : r.preset = a.preset

theorem exists_covers_merge {spans : List BulletSpan} (h : StartsInOrder spans) :
    ∀ a ∈ spans, ∃ r ∈ merge spans, r.Covers a := by
  cases spans with
  | nil => simp
  | cons current xs =>
    induction xs generalizing current with
    | nil =>
      intro a ha
      rw [List.mem_singleton.mp ha]
      exact ⟨current, by simp, Int.le_refl _, Int.le_refl _, rfl⟩
    | cons next rest ih =>
      intro a ha
      rw [merge_cons_cons]
      split
      · rename_i hjoins
        have ih := ih (current.absorb next) (startsInOrder_absorb h)
        have habsorbed : (current.absorb next).Covers current ∧
            (current.absorb next).Covers next := by
          obtain ⟨-, hpreset, -⟩ := joins_iff.mp hjoins
          have hstart := (List.pairwise_cons.mp h).1 next List.mem_cons_self
          exact ⟨⟨Int.le_refl _, Int.le_max_left _ _, rfl⟩, ⟨hstart, Int.le_max_right _ _, hpreset⟩⟩
        have hfirst : (current.absorb next).Covers a ∨ a ∈ rest := by
          rcases List.mem_cons.mp ha with rfl | ha
          · exact .inl habsorbed.1
          · rcases List.mem_cons.mp ha with rfl | ha
            · exact .inl habsorbed.2
            · exact .inr ha
        rcases hfirst with hcovers | ha
        · obtain ⟨r, hr, hrange⟩ := ih _ List.mem_cons_self
          exact ⟨r, hr, Int.le_trans hrange.start_le hcovers.start_le,
            Int.le_trans hcovers.stop_le hrange.stop_le, hrange.preset.trans hcovers.preset⟩
        · exact ih a (List.mem_cons_of_mem _ ha)
      · rcases List.mem_cons.mp ha with rfl | ha
        · exact ⟨a, List.mem_cons_self, Int.le_refl _, Int.le_refl _, rfl⟩
        · obtain ⟨r, hr, hrange⟩ := ih next (List.pairwise_cons.mp h).2 a ha
          exact ⟨r, List.mem_cons_of_mem _ hr, hrange⟩

/-! ## Ranges that do not overlap -/

def IsProper (a : BulletSpan) : Prop := a.span.start < a.span.stop

theorem isProper_of_mem_merge {spans : List BulletSpan} (h : ∀ a ∈ spans, a.IsProper) :
    ∀ r ∈ merge spans, r.IsProper := by
  refine forall_mem_merge (fun r x hr _ _ => ?_) h
  exact Int.lt_of_lt_of_le hr (Int.le_max_left _ _)

/-- Neither range reaches into the other one. -/
def Apart (a b : BulletSpan) : Prop := Before a b ∨ Before b a

theorem Apart.symm {a b : BulletSpan} (h : Apart a b) : Apart b a := Or.symm h

instance : Std.Symm Apart := ⟨fun _ _ => Apart.symm⟩

theorem Apart.before {a b : BulletSpan} (h : Apart a b) (hle : a.span.start ≤ b.span.start)
    (hb : b.IsProper) : Before a b := by
  simp only [Apart, Before] at *
  rw [IsProper] at hb
  omega

theorem StartsInOrder.pairwise_before_iff {spans : List BulletSpan} (h : StartsInOrder spans)
    (hproper : ∀ a ∈ spans, a.IsProper) : spans.Pairwise Before ↔ spans.Pairwise Apart := by
  constructor
  · exact fun hbefore => hbefore.imp Or.inl
  · intro hapart
    refine (List.Pairwise.and h hapart).imp_of_mem fun _ hb hab => ?_
    exact hab.2.before hab.1 (hproper _ hb)

/-- From the end to the start, ranges that do not overlap stop in front of the ones before. -/
theorem pairwise_descending_iff {spans : List BulletSpan} (hproper : ∀ a ∈ spans, a.IsProper) :
    (descending spans).Pairwise (fun earlier later => Before later earlier) ↔
      spans.Pairwise Apart := by
  rw [← (descending_perm spans).pairwise_iff Apart.symm]
  constructor
  · exact fun hbefore => hbefore.imp Or.inr
  · intro hapart
    refine ((pairwise_descending spans).and hapart).imp_of_mem fun ha _ hab => ?_
    exact hab.2.symm.before hab.1 (hproper _ ((descending_perm spans).mem_iff.mp ha))

end BulletSpan
end MarkdownEdits
