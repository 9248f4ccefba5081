import Mathlib.Data.List.Forall2
import Mathlib.Data.List.Nodup
import MarkdownEdits.Proofs.ItemEnds

/-!
# Groups of bulleted items

Merging splits the items that have a span, in the order of their starts, into groups that follow
each other, one for each range. A range is what its group covers, up to the line ends in between,
and two ranges that follow each other do not carry each other on.
-/
namespace MarkdownEdits
namespace StableSort

variable {α : Type}

/-- The entries in the order of their keys. -/
def sortBy (key : α → Int) : List α → List α := sort fun a b => decide (key a ≤ key b)

/-- A list is another one in the order of the keys, and entries of one key stand as they stood. -/
structure SortsBy (key : α → Int) (xs sorted : List α) : Prop where
  inOrder : sorted.Pairwise fun a b => key a ≤ key b
  stable : ∀ k, sorted.filter (key · = k) = xs.filter (key · = k)

theorem pairwise_sortBy (key : α → Int) (xs : List α) :
    (sortBy key xs).Pairwise fun a b => key a ≤ key b := by
  have hsorted : (sortBy key xs).Pairwise fun a b => decide (key a ≤ key b) = true := by
    apply pairwise_sort
    · intro a b
      simp only [decide_eq_true_eq]
      omega
    · intro a b c
      simp only [decide_eq_true_eq]
      omega
  simpa using hsorted

/-- An entry is inserted before those of its own key. -/
theorem filter_insert (key : α → Int) (k : Int) (x : α) (xs : List α) :
    (insert (fun a b => decide (key a ≤ key b)) x xs).filter (key · = k) =
      (x :: xs).filter (key · = k) := by
  induction xs with
  | nil => rfl
  | cons y rest ih =>
    rw [insert]
    split
    · rfl
    · rename_i hxy
      have hxy : ¬key x ≤ key y := by simpa using hxy
      rw [List.filter_cons, ih]
      by_cases hx : key x = k
      · have hy : key y ≠ k := by omega
        simp [hx, hy]
      · simp [hx, List.filter_cons]

theorem sortsBy_sortBy (key : α → Int) (xs : List α) : SortsBy key xs (sortBy key xs) where
  inOrder := pairwise_sortBy key xs
  stable k := by
    induction xs with
    | nil => rfl
    | cons x rest ih =>
      have hinsert : sortBy key (x :: rest) =
          insert (fun a b => decide (key a ≤ key b)) x (sortBy key rest) := rfl
      rw [hinsert, filter_insert, List.filter_cons, ih, List.filter_cons]

/-- Where all keys are different only one list has the entries in the order of their keys. -/
theorem sortBy_eq_of_perm {key : α → Int} {xs ys : List α} (hperm : xs.Perm ys)
    (hkeys : (xs.map key).Nodup) : sortBy key xs = sortBy key ys := by
  have hxs : (sortBy key xs).Perm xs := sort_perm _ xs
  have hys : (sortBy key ys).Perm ys := sort_perm _ ys
  refine (hxs.trans (hperm.trans hys.symm)).eq_of_pairwise ?_ (pairwise_sortBy key xs)
    (pairwise_sortBy key ys)
  intro a b ha hb hab hba
  exact List.inj_on_of_nodup_map hkeys (hxs.mem_iff.mp ha)
    (hperm.mem_iff.mpr (hys.mem_iff.mp hb)) (Int.le_antisymm hab hba)

/-- Entries may be sorted before or after they are mapped, where all of them have an image. -/
theorem insert_filterMap {β : Type} {f : α → Option β} {le : α → α → Bool} {le' : β → β → Bool}
    (h : ∀ x y a b, f x = some a → f y = some b → le' a b = le x y) {x : α} {a : β}
    (hx : f x = some a) {xs : List α} (hxs : ∀ y ∈ xs, (f y).isSome) :
    (insert le x xs).filterMap f = insert le' a (xs.filterMap f) := by
  induction xs with
  | nil => simp [insert, hx]
  | cons y rest ih =>
    obtain ⟨hy, hrest⟩ := List.forall_mem_cons.mp hxs
    obtain ⟨b, hb⟩ := Option.isSome_iff_exists.mp hy
    rw [List.filterMap_cons_some hb, insert, insert, h x y a b hx hb]
    split
    · rw [List.filterMap_cons_some hx, List.filterMap_cons_some hb]
    · rw [List.filterMap_cons_some hb, ih hrest]

theorem sort_filterMap {β : Type} {f : α → Option β} {le : α → α → Bool} {le' : β → β → Bool}
    (h : ∀ x y a b, f x = some a → f y = some b → le' a b = le x y) {xs : List α}
    (hxs : ∀ y ∈ xs, (f y).isSome) :
    sort le' (xs.filterMap f) = (sort le xs).filterMap f := by
  induction xs with
  | nil => rfl
  | cons x rest ih =>
    obtain ⟨hx, hrest⟩ := List.forall_mem_cons.mp hxs
    obtain ⟨a, ha⟩ := Option.isSome_iff_exists.mp hx
    have hsorted : ∀ y ∈ sort le rest, (f y).isSome := fun y hy =>
      hrest y ((sort_perm le rest).mem_iff.mp hy)
    calc sort le' ((x :: rest).filterMap f) = insert le' a (sort le' (rest.filterMap f)) := by
          rw [List.filterMap_cons_some ha]
          rfl
      _ = insert le' a ((sort le rest).filterMap f) := by rw [ih hrest]
      _ = (sort le (x :: rest)).filterMap f := (insert_filterMap h ha hsorted).symm

end StableSort

/-- The greatest end of some items. -/
def greatestStop? (items : List ListItem) : Option Int := (items.filterMap (·.stop)).max?

theorem greatestStop?_concat {items : List ListItem} {item : ListItem} {last stop : Int}
    (hitems : greatestStop? items = some last) (hitem : item.stop = some stop) :
    greatestStop? (items ++ [item]) = some (max last stop) := by
  obtain ⟨hmem, hle⟩ := List.max?_eq_some_iff.mp hitems
  rw [greatestStop?, List.filterMap_append, List.filterMap_cons_some hitem, List.filterMap_nil,
    List.max?_eq_some_iff]
  constructor
  · rcases Int.le_total last stop with h | h
    · simp [Int.max_eq_right h]
    · simp [Int.max_eq_left h, hmem]
  · intro other hother
    rcases List.mem_append.mp hother with h | h
    · exact Int.le_trans (hle other h) (Int.le_max_left _ _)
    · rw [List.mem_singleton.mp h]
      exact Int.le_max_right _ _

namespace BulletSpan

theorem isSome_ofItem? (item : ListItem) : (ofItem? item).isSome = item.isValid := by
  simp [ofItem?, ListItem.isValid]

/-! ## Groups -/

/-- A range is the range of a group of items. -/
structure Gathers (range : BulletSpan) (group : List ListItem) : Prop where
  start : group.head?.map (·.start) = some range.span.start
  stop : greatestStop? group = some range.span.stop
  preset : ∀ item ∈ group, item.preset = range.preset
  /-- Each further item starts at most one index after the greatest end of those before it. -/
  linked : ∀ before item after, group = before ++ item :: after →
    ∀ last, greatestStop? before = some last → item.start ≤ last + 1
  /-- Each index of the range is in an item of the group or at its end. -/
  within : ∀ i, range.span.start ≤ i → i ≤ range.span.stop →
    ∃ item ∈ group, ∃ span, item.span? = some span ∧ span.start ≤ i ∧ i ≤ span.stop
  /-- A task has the range to itself. -/
  alone : ∀ item ∈ group, item.preset = .checkbox →
    group = [item] ∧ item.span? = some range.span

theorem gathers_singleton {item : ListItem} {range : BulletSpan} (h : ofItem? item = some range) :
    range.Gathers [item] := by
  obtain ⟨heq, hstop, -⟩ := ofItem?_eq_some h
  obtain ⟨span, hspan, hrange⟩ := Option.map_eq_some_iff.mp h
  constructor
  case start => rw [heq]; rfl
  case stop => simp [greatestStop?, hstop]
  case preset => rw [heq]; simp
  case linked =>
    intro before other after hsplit last hlast
    cases before with
    | nil => cases hlast
    | cons first rest => simp at hsplit
  case within =>
    intro i hstart hle
    rw [← hrange] at hstart hle
    exact ⟨item, List.mem_singleton_self item, span, hspan, hstart, hle⟩
  case alone =>
    intro other hother _
    rw [List.mem_singleton.mp hother, ← hrange]
    exact ⟨rfl, hspan⟩

/-- A group grows by an item that carries its range on. -/
theorem Gathers.absorb {range next : BulletSpan} {group : List ListItem} {item : ListItem}
    (h : range.Gathers group) (hitem : ofItem? item = some next)
    (hjoins : range.joins next = true) : (range.absorb next).Gathers (group ++ [item]) := by
  obtain ⟨hcheckbox, hpreset, hstart⟩ := joins_iff.mp hjoins
  obtain ⟨heq, hstop, -⟩ := ofItem?_eq_some hitem
  obtain ⟨span, hspan, hnext⟩ := Option.map_eq_some_iff.mp hitem
  rw [heq] at hcheckbox hpreset hstart
  have hpresets : ∀ other ∈ group ++ [item], other.preset = range.preset := by
    intro other hother
    rcases List.mem_append.mp hother with hother | hother
    · exact h.preset other hother
    · rw [List.mem_singleton.mp hother]
      exact hpreset.symm
  constructor
  case start =>
    have hhead := h.start
    cases group with
    | nil => cases hhead
    | cons first rest => exact hhead
  case stop => exact greatestStop?_concat h.stop hstop
  case preset => exact hpresets
  case linked =>
    intro before other after hsplit last hlast
    rcases List.eq_nil_or_concat after with rfl | ⟨init, final, rfl⟩
    · obtain ⟨rfl, hother⟩ := List.append_inj' hsplit rfl
      obtain rfl : last = range.span.stop := Option.some.inj (hlast.symm.trans h.stop)
      rw [← List.singleton_inj.mp hother]
      exact hstart
    · rw [List.concat_eq_append, ← List.cons_append, ← List.append_assoc] at hsplit
      obtain ⟨hgroup, -⟩ := List.append_inj' hsplit rfl
      exact h.linked before other init hgroup last hlast
  case within =>
    intro i hfirst hle
    by_cases hi : i ≤ range.span.stop
    · obtain ⟨other, hother, hin⟩ := h.within i hfirst hi
      exact ⟨other, List.mem_append_left _ hother, hin⟩
    · -- Behind the range the item must have it, since it starts at most one index behind.
      have hfrom : span.start = item.start :=
        congrArg Span.start (ListItem.span?_eq_some hspan).1
      have hcarries : item.start ≤ range.span.stop + 1 := hstart
      have hmax : i ≤ max range.span.stop span.stop := by rwa [← hnext] at hle
      exact ⟨item, List.mem_append_right _ (List.mem_singleton_self item), span, hspan, by omega,
        by omega⟩
  case alone =>
    intro other hother htask
    exact absurd ((hpresets other hother).symm.trans htask) (hpreset ▸ hcheckbox)

theorem exists_groups_mergeFrom {range : BulletSpan} {group : List ListItem}
    (h : range.Gathers group) {items : List ListItem} (hitems : ∀ item ∈ items, item.isValid) :
    ∃ groups, groups.flatten = group ++ items ∧
      List.Forall₂ Gathers (mergeFrom range (items.filterMap ofItem?)) groups := by
  induction items generalizing range group with
  | nil => exact ⟨[group], by simp, .cons h .nil⟩
  | cons item rest ih =>
    obtain ⟨hitem, hrest⟩ := List.forall_mem_cons.mp hitems
    obtain ⟨next, hnext⟩ := Option.isSome_iff_exists.mp ((isSome_ofItem? item).trans hitem)
    rw [List.filterMap_cons_some hnext, mergeFrom]
    split
    · rename_i hjoins
      obtain ⟨groups, hflatten, hgroups⟩ := ih (h.absorb hnext hjoins) hrest
      exact ⟨groups, by simpa using hflatten, hgroups⟩
    · obtain ⟨groups, hflatten, hgroups⟩ := ih (gathers_singleton hnext) hrest
      exact ⟨group :: groups, by simp [hflatten], .cons h hgroups⟩

theorem exists_groups_merge {items : List ListItem} (hitems : ∀ item ∈ items, item.isValid) :
    ∃ groups, groups.flatten = items ∧
      List.Forall₂ Gathers (merge (items.filterMap ofItem?)) groups := by
  cases items with
  | nil => exact ⟨[], rfl, .nil⟩
  | cons item rest =>
    obtain ⟨hitem, hrest⟩ := List.forall_mem_cons.mp hitems
    obtain ⟨first, hfirst⟩ := Option.isSome_iff_exists.mp ((isSome_ofItem? item).trans hitem)
    rw [List.filterMap_cons_some hfirst]
    exact exists_groups_mergeFrom (gathers_singleton hfirst) hrest

/-! ## Neighbours -/

/-- No range carries on the one before it. -/
def Unjoined (ranges : List BulletSpan) : Prop :=
  ranges.IsChain fun range next => range.joins next = false

theorem joins_congr {range a b : BulletSpan} (hstart : a.span.start = b.span.start)
    (hpreset : a.preset = b.preset) : range.joins a = range.joins b := by
  rw [joins, joins, hstart, hpreset]

/-- The first range has the start and the preset of the first span. -/
theorem exists_mergeFrom_eq_cons (current : BulletSpan) (rest : List BulletSpan) :
    ∃ first others, mergeFrom current rest = first :: others ∧
      first.span.start = current.span.start ∧ first.preset = current.preset := by
  induction rest generalizing current with
  | nil => exact ⟨current, [], rfl, rfl, rfl⟩
  | cons next rest ih =>
    rw [mergeFrom]
    split
    · exact ih (current.absorb next)
    · exact ⟨current, mergeFrom next rest, rfl, rfl, rfl⟩

theorem unjoined_mergeFrom (current : BulletSpan) (rest : List BulletSpan) :
    Unjoined (mergeFrom current rest) := by
  induction rest generalizing current with
  | nil => exact .singleton current
  | cons next rest ih =>
    rw [mergeFrom]
    split
    · exact ih (current.absorb next)
    · rename_i hjoins
      obtain ⟨first, others, heq, hstart, hpreset⟩ := exists_mergeFrom_eq_cons next rest
      have hrest := ih next
      rw [heq] at hrest ⊢
      refine .cons_cons ?_ hrest
      rw [joins_congr hstart hpreset]
      exact Bool.eq_false_iff.mpr hjoins

theorem unjoined_merge (spans : List BulletSpan) : Unjoined (merge spans) := by
  cases spans with
  | nil => exact .nil
  | cons first rest => exact unjoined_mergeFrom first rest

/-! ## Items -/

theorem filterMap_ofItem?_filter (items : List ListItem) :
    (items.filter ListItem.isValid).filterMap ofItem? = items.filterMap ofItem? := by
  rw [List.filterMap_filter]
  congr 1
  funext item
  split
  · rfl
  · rename_i hvalid
    rw [← isSome_ofItem?, Bool.not_eq_true, Option.isSome_eq_false_iff,
      Option.isNone_iff_eq_none] at hvalid
    exact hvalid.symm

/-- The items that are bulleted, in the order of their starts. -/
def bulletedItems (items : List ListItem) : List ListItem :=
  StableSort.sortBy ListItem.start (items.filter ListItem.isValid)

theorem isValid_of_mem_bulletedItems (items : List ListItem) :
    ∀ item ∈ bulletedItems items, item.isValid := fun _ hitem =>
  List.of_mem_filter ((StableSort.sort_perm _ _).mem_iff.mp hitem)

theorem ascending_filterMap (items : List ListItem) :
    ascending (items.filterMap ofItem?) = (bulletedItems items).filterMap ofItem? := by
  rw [← filterMap_ofItem?_filter]
  refine StableSort.sort_filterMap (fun x y a b hx hy => ?_) fun item hitem => ?_
  · rw [(ofItem?_eq_some hx).1, (ofItem?_eq_some hy).1]
  · rw [isSome_ofItem?]
    exact List.of_mem_filter hitem

theorem ofItems_eq_merge (items : List ListItem) :
    ofItems items = merge ((bulletedItems items).filterMap ofItem?) := by
  rw [ofItems, ascending_filterMap]

theorem ofItems_filter (items : List ListItem) :
    ofItems (items.filter ListItem.isValid) = ofItems items := by
  rw [ofItems, filterMap_ofItem?_filter, ofItems]

theorem startsInOrder_ascending (spans : List BulletSpan) : StartsInOrder (ascending spans) :=
  StableSort.pairwise_sortBy (fun a : BulletSpan => a.span.start) spans

theorem isProper_of_mem_ascending {items : List ListItem} :
    ∀ a ∈ ascending (items.filterMap ofItem?), a.IsProper := by
  intro a ha
  obtain ⟨item, -, hitem⟩ := List.mem_filterMap.mp ((StableSort.sort_perm _ _).mem_iff.mp ha)
  obtain ⟨heq, -, hlt⟩ := ofItem?_eq_some hitem
  rw [IsProper, heq]
  exact hlt

instance (a b : BulletSpan) : Decidable (Apart a b) :=
  inferInstanceAs (Decidable (a.span.stop ≤ b.span.start ∨ b.span.stop ≤ a.span.start))

theorem pairwise_apart_ofItems {items : List ListItem}
    (h : (items.filterMap ofItem?).Pairwise Apart) : (ofItems items).Pairwise Apart := by
  have hstarts := startsInOrder_ascending (items.filterMap ofItem?)
  have hapart : (ascending (items.filterMap ofItem?)).Pairwise Apart :=
    ((StableSort.sort_perm _ _).pairwise_iff Apart.symm).mpr h
  have hclear : (ascending (items.filterMap ofItem?)).Pairwise Clear :=
    ((hstarts.pairwise_before_iff isProper_of_mem_ascending).mpr hapart).imp fun hbefore hlt =>
      absurd hlt (Int.not_lt.mpr hbefore)
  exact ((pairwise_before_merge_iff hstarts).mpr hclear).imp Or.inl

/-! ## Grouping -/

/-- The ranges of a list of items, with the group of each. -/
structure Grouping (items : List ListItem) (ranges : List BulletSpan)
    (groups : List (List ListItem)) : Prop where
  /-- The groups one behind the other are the valid items in the stable order of their starts. -/
  sorts : StableSort.SortsBy ListItem.start (items.filter ListItem.isValid) groups.flatten
  gathers : List.Forall₂ Gathers ranges groups
  /-- Two ranges of one preset that follow each other have more than a line end between them. -/
  separate : ranges.IsChain fun range next => range.preset = next.preset →
    next.preset ≠ .checkbox → range.span.stop + 1 < next.span.start

theorem exists_grouping_ofItems (items : List ListItem) :
    ∃ groups, Grouping items (ofItems items) groups := by
  obtain ⟨groups, hflatten, hgroups⟩ := exists_groups_merge (isValid_of_mem_bulletedItems items)
  rw [← ofItems_eq_merge] at hgroups
  refine ⟨groups, ⟨?_, hgroups, ?_⟩⟩
  · rw [hflatten]
    exact StableSort.sortsBy_sortBy ListItem.start (items.filter ListItem.isValid)
  · refine (unjoined_merge _).imp fun range next hjoins hpreset hcheckbox => ?_
    by_contra hle
    have hjoined := joins_iff.mpr ⟨hcheckbox, hpreset, Int.not_lt.mp hle⟩
    exact Bool.false_ne_true (hjoins.symm.trans hjoined)

/-- Items are bulleted in the maximal groups of neighbours. So each item with a span is in a range
of its preset, items without one leave no trace, ranges come in the order of their starts, and they
keep apart where the items do. -/
theorem ofItems_groups (items : List ListItem) :
    (∃ groups, Grouping items (ofItems items) groups) ∧
      (∀ item ∈ items, ∀ span, item.span? = some span →
        ∃ range ∈ ofItems items, range.Covers ⟨span, item.preset⟩) ∧
      ofItems (items.filter ListItem.isValid) = ofItems items ∧
      StartsInOrder (ofItems items) ∧
      ((items.filterMap ofItem?).Pairwise Apart → (ofItems items).Pairwise Apart) := by
  have hstarts := startsInOrder_ascending (items.filterMap ofItem?)
  refine ⟨exists_grouping_ofItems items, ?_, ofItems_filter items, startsInOrder_merge hstarts,
    pairwise_apart_ofItems⟩
  intro item hitem span hspan
  have hmem : ⟨span, item.preset⟩ ∈ items.filterMap ofItem? :=
    List.mem_filterMap.mpr ⟨item, hitem, by rw [ofItem?, hspan, Option.map_some]⟩
  exact exists_covers_merge hstarts _ ((StableSort.sort_perm _ _).mem_iff.mpr hmem)

-- The greatest end of a group need not be that of its last item.
example : ofItems [⟨2, 1, .unordered, some 3, false⟩, ⟨11, 0, .unordered, some 12, false⟩,
    ⟨1, 0, .unordered, some 10, false⟩] = [⟨⟨1, 12⟩, .unordered⟩] := by decide

/-- Items out of order that keep apart, among them tasks and items without a span. -/
def itemsInDisorder : List ListItem :=
  [⟨20, 0, .ordered, some 25, false⟩, ⟨1, 0, .unordered, some 5, true⟩,
    ⟨6, 1, .unordered, none, false⟩, ⟨12, 0, .checkbox, some 15, true⟩,
    ⟨6, 0, .unordered, some 9, true⟩, ⟨16, 0, .checkbox, some 18, true⟩,
    ⟨30, 0, .ordered, some 30, false⟩, ⟨26, 1, .ordered, some 28, true⟩]

theorem ofItems_groups_itemsInDisorder :
    ofItems itemsInDisorder = [⟨⟨1, 9⟩, .unordered⟩, ⟨⟨12, 15⟩, .checkbox⟩,
        ⟨⟨16, 18⟩, .checkbox⟩, ⟨⟨20, 28⟩, .ordered⟩] ∧
      (∃ groups, Grouping itemsInDisorder (ofItems itemsInDisorder) groups) ∧
      (itemsInDisorder.filterMap ofItem?).Pairwise Apart ∧
      (ofItems itemsInDisorder).Pairwise Apart := by
  have hapart : (itemsInDisorder.filterMap ofItem?).Pairwise Apart := by decide
  obtain ⟨hgroups, -, -, -, hranges⟩ := ofItems_groups itemsInDisorder
  exact ⟨by decide, hgroups, hapart, hranges hapart⟩

/-! ## Ranges taken as items, and items in another order -/

theorem merge_eq_self {spans : List BulletSpan} (h : Unjoined spans) : merge spans = spans := by
  cases spans with
  | nil => rfl
  | cons current rest =>
    induction rest generalizing current with
    | nil => rfl
    | cons next rest ih =>
      obtain ⟨hjoins, hrest⟩ := List.isChain_cons_cons.mp h
      rw [merge_cons_cons, if_neg (Bool.eq_false_iff.mp hjoins), ih next hrest]

/-- The item has the span and the preset of the range. -/
structure Repeats (item : ListItem) (range : BulletSpan) : Prop where
  start : item.start = range.span.start
  stop : item.stop = some range.span.stop
  preset : item.preset = range.preset

theorem Repeats.ofItem?_eq {item : ListItem} {range : BulletSpan} (h : Repeats item range)
    (hproper : range.IsProper) : ofItem? item = some range := by
  have hlt : range.span.start < range.span.stop := hproper
  simp only [ofItem?, ListItem.span?, h.start, h.stop, h.preset, if_pos hlt, Option.map_some]

theorem filterMap_of_repeats {items : List ListItem} {ranges : List BulletSpan}
    (h : List.Forall₂ Repeats items ranges) (hproper : ∀ r ∈ ranges, r.IsProper) :
    items.filterMap ofItem? = ranges := by
  induction h with
  | nil => rfl
  | cons hrepeats _ ih =>
    obtain ⟨hrange, hrest⟩ := List.forall_mem_cons.mp hproper
    rw [List.filterMap_cons_some (hrepeats.ofItem?_eq hrange), ih hrest]

/-- Ranges taken as items give the same ranges again, and in which order the items come does not
matter where no two of those with a span start together. -/
theorem ofItems_settles (items : List ListItem) :
    (∀ again, List.Forall₂ Repeats again (ofItems items) → ofItems again = ofItems items) ∧
      ∀ others, (items.filter ListItem.isValid).Perm (others.filter ListItem.isValid) →
        ((items.filter ListItem.isValid).map ListItem.start).Nodup →
          ofItems others = ofItems items := by
  constructor
  · intro again hagain
    have hstarts : StartsInOrder (ofItems items) :=
      startsInOrder_merge (startsInOrder_ascending _)
    have hproper : ∀ r ∈ ofItems items, r.IsProper :=
      isProper_of_mem_merge isProper_of_mem_ascending
    have hunjoined : Unjoined (ofItems items) := unjoined_merge _
    calc ofItems again = merge (ascending (ofItems items)) := by
          rw [ofItems, filterMap_of_repeats hagain hproper]
      _ = merge (ofItems items) := by rw [hstarts.ascending_eq]
      _ = ofItems items := merge_eq_self hunjoined
  · intro others hperm hkeys
    have hsorted : bulletedItems others = bulletedItems items :=
      (StableSort.sortBy_eq_of_perm hperm hkeys).symm
    rw [ofItems_eq_merge, hsorted, ofItems_eq_merge]

/-- The ranges of `itemsInDisorder` as items. -/
def rangesAsItems : List ListItem :=
  [⟨1, 0, .unordered, some 9, false⟩, ⟨12, 3, .checkbox, some 15, true⟩,
    ⟨16, 0, .checkbox, some 18, false⟩, ⟨20, 1, .ordered, some 28, false⟩]

/-- The items of `itemsInDisorder` in the order of their starts, with other ones without a span. -/
def itemsInOrder : List ListItem :=
  [⟨1, 0, .unordered, some 5, true⟩, ⟨6, 0, .unordered, some 9, true⟩,
    ⟨10, 0, .checkbox, some 4, false⟩, ⟨12, 0, .checkbox, some 15, true⟩,
    ⟨16, 0, .checkbox, some 18, true⟩, ⟨20, 0, .ordered, some 25, false⟩,
    ⟨26, 1, .ordered, some 28, true⟩]

theorem ofItems_settles_itemsInDisorder :
    List.Forall₂ Repeats rangesAsItems (ofItems itemsInDisorder) ∧
      ofItems rangesAsItems = ofItems itemsInDisorder ∧
      (itemsInDisorder.filter ListItem.isValid).Perm (itemsInOrder.filter ListItem.isValid) ∧
      ((itemsInDisorder.filter ListItem.isValid).map ListItem.start).Nodup ∧
      ofItems itemsInOrder = ofItems itemsInDisorder := by
  have hranges : ofItems itemsInDisorder = [⟨⟨1, 9⟩, .unordered⟩, ⟨⟨12, 15⟩, .checkbox⟩,
      ⟨⟨16, 18⟩, .checkbox⟩, ⟨⟨20, 28⟩, .ordered⟩] := by decide
  have hrepeats : List.Forall₂ Repeats rangesAsItems (ofItems itemsInDisorder) := by
    rw [hranges]
    exact .cons ⟨rfl, rfl, rfl⟩ (.cons ⟨rfl, rfl, rfl⟩ (.cons ⟨rfl, rfl, rfl⟩
      (.cons ⟨rfl, rfl, rfl⟩ .nil)))
  have hperm : (itemsInDisorder.filter ListItem.isValid).Perm
      (itemsInOrder.filter ListItem.isValid) := by decide
  have hkeys : ((itemsInDisorder.filter ListItem.isValid).map ListItem.start).Nodup := by decide
  obtain ⟨hagain, hothers⟩ := ofItems_settles itemsInDisorder
  exact ⟨hrepeats, hagain _ hrepeats, hperm, hkeys, hothers _ hperm hkeys⟩

end BulletSpan
end MarkdownEdits
