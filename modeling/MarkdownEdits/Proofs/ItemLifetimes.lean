import MarkdownEdits.Proofs.OutlineRuns

/-!
# Lifetimes of items

An item changes only while it is open. Once it is closed it keeps its bounds, and the items opened
after some point of a run start behind what was inserted up to there.
-/
namespace MarkdownEdits
namespace Outline

/-- The next outline has the items of the first one. Those that are not open are as they were, and
new ones start behind the first outline's document. -/
structure Extends (o next : Outline) : Prop where
  stop_le : o.document.stop ≤ next.document.stop
  length_le : o.items.length ≤ next.items.length
  openItems : ∀ index ∈ next.openItems, index ∈ o.openItems ∨ (o.items.length : Int) ≤ index
  start : ∀ (i : Nat) (a : Bounds), o.items[i]? = some a →
    ∃ b, next.items[i]? = some b ∧ b.start = a.start
  closed : ∀ (i : Nat) (a : Bounds), o.items[i]? = some a → (i : Int) ∉ o.openItems →
    next.items[i]? = some a
  later : ∀ (i : Nat) (b : Bounds), next.items[i]? = some b → o.items.length ≤ i →
    o.document.stop ≤ b.start

theorem Extends.refl (o : Outline) : o.Extends o where
  stop_le := Int.le_refl _
  length_le := Nat.le_refl _
  openItems := fun _ h => .inl h
  start := fun _ a h => ⟨a, h, rfl⟩
  closed := fun _ _ h _ => h
  later := by
    intro i b h hle
    rw [List.getElem?_eq_none hle] at h
    cases h

/-- A closed item stays closed. -/
theorem Extends.stays {o next : Outline} (h : o.Extends next) {i : Nat} {a : Bounds}
    (hi : o.items[i]? = some a) (hclosed : (i : Int) ∉ o.openItems) :
    next.items[i]? = some a ∧ (i : Int) ∉ next.openItems := by
  refine ⟨h.closed i a hi hclosed, fun hopen => ?_⟩
  rcases h.openItems i hopen with hopen | hle
  · exact hclosed hopen
  · have hlt := (List.getElem?_eq_some_iff.mp hi).1
    omega

/-- Where no item is open, the items are those in front of what comes later. -/
theorem Extends.items_initial {o next : Outline} (h : o.Extends next) (hclosed : o.openItems = []) :
    o.items <+: next.items := by
  refine List.prefix_iff_getElem?.mpr fun i hi => ?_
  exact (h.stays (List.getElem?_eq_getElem hi) (by simp [hclosed])).1

theorem Extends.trans {o p q : Outline} (h : o.Extends p) (h' : p.Extends q) : o.Extends q where
  stop_le := Int.le_trans h.stop_le h'.stop_le
  length_le := Nat.le_trans h.length_le h'.length_le
  openItems := by
    intro index hindex
    have hlength := h.length_le
    rcases h'.openItems index hindex with hindex | hle
    · exact h.openItems index hindex
    · exact .inr (by omega)
  start := by
    intro i a hi
    obtain ⟨b, hb, hstart⟩ := h.start i a hi
    obtain ⟨c, hc, hstart'⟩ := h'.start i b hb
    exact ⟨c, hc, hstart'.trans hstart⟩
  closed := by
    intro i a hi hclosed
    obtain ⟨hp, hclosed⟩ := h.stays hi hclosed
    exact h'.closed i a hp hclosed
  later := by
    intro i c hi hle
    by_cases hlt : i < p.items.length
    · obtain ⟨b, hb, hstart⟩ := h'.start i p.items[i] (List.getElem?_eq_getElem hlt)
      rw [hi] at hb
      cases hb
      rw [hstart]
      exact h.later i _ (List.getElem?_eq_getElem hlt) hle
    · exact Int.le_trans h.stop_le (h'.later i c hi (by omega))

theorem Extends.of_step {o next : Outline} (h : o.InOrder) (hs : Step o next) : o.Extends next := by
  cases hs with
  | grow units =>
    have hrefl := Extends.refl o
    refine ⟨?_, hrefl.length_le, hrefl.openItems, hrefl.start, hrefl.closed, hrefl.later⟩
    rw [Document.stop_append]
    omega
  | openItem =>
    refine ⟨Int.le_refl _, by simp, ?_, ?_, ?_, ?_⟩
    · intro index hindex
      rcases List.mem_cons.mp hindex with rfl | hindex
      · exact .inr (Int.le_refl _)
      · exact .inl hindex
    · intro i a hi
      have hlt := (List.getElem?_eq_some_iff.mp hi).1
      exact ⟨a, by rw [List.getElem?_append_left hlt, hi], rfl⟩
    · intro i a hi _
      have hlt := (List.getElem?_eq_some_iff.mp hi).1
      rw [List.getElem?_append_left hlt, hi]
    · intro i b hi hle
      rw [List.getElem?_append_right hle] at hi
      have hb := List.mem_singleton.mp (List.mem_of_getElem? hi)
      exact Int.le_of_eq (congrArg Bounds.start hb).symm
  | @endItem index rest n item hopen hplace hitem hstart hline =>
    obtain ⟨hnonneg, hlt⟩ := h.openItems_lt index (by simp [hopen])
    obtain ⟨m, rfl⟩ := Int.eq_ofNat_of_zero_le hnonneg
    rw [placeOf?_natCast, if_pos (by omega)] at hplace
    cases hplace
    refine ⟨Int.le_refl _, by simp, fun _ hindex => .inl hindex, ?_, ?_, ?_⟩
    · intro i a hi
      by_cases hin : n = i
      · subst hin
        rw [hitem] at hi
        cases hi
        obtain ⟨hlt', -⟩ := List.getElem?_eq_some_iff.mp hitem
        exact ⟨_, List.getElem?_set_self hlt', rfl⟩
      · exact ⟨a, by rw [List.getElem?_set_ne hin, hi], rfl⟩
    · intro i a hi hclosed
      have hin : n ≠ i := by
        rintro rfl
        exact hclosed (by simp [hopen])
      rw [List.getElem?_set_ne hin, hi]
    · intro i b hi hle
      rw [List.getElem?_eq_none (by simpa using hle)] at hi
      cases hi
  | @closeItem index rest hopen =>
    have hrefl := Extends.refl o
    refine ⟨hrefl.stop_le, hrefl.length_le, fun i hi => ?_, hrefl.start, hrefl.closed, hrefl.later⟩
    rw [hopen]
    exact .inl (List.mem_cons_of_mem _ hi)

theorem Extends.of_steps {o final : Outline} (h : o.InOrder)
    (hs : Relation.ReflTransGen Step o final) : o.Extends final := by
  induction hs with
  | refl => exact .refl o
  | tail hs hstep ih => exact ih.trans (.of_step (h.steps hs) hstep)

end Outline

namespace Draft

theorem Yields.follows_steps {d final : Draft} {document : Document} {tokens : List Token}
    (h : d.Yields document) (hs : d.steps tokens = .ok final) : d.Follows document final := by
  refine invariant_steps (P := d.Follows document) ?_ (h.follows_refl rfl rfl rfl rfl) hs
  intro e t next ht hfollows hstep
  exact hfollows.trans fun _ hy => hy.follows_atom ht hstep

/-- A run from a draft with items in order lets the document grow and extends the outline. -/
structure GrowsTo (d : Draft) (document : Document) (final : Draft) (grown : Document) : Prop where
  units : ∃ units, grown = document.append units
  yields : final.Yields grown
  inOrder : (final.outline grown).InOrder
  outline : (d.outline document).Extends (final.outline grown)

theorem GrowsTo.first_eq {d final : Draft} {document grown : Document}
    (h : d.GrowsTo document final grown) : grown.first = document.first := by
  obtain ⟨units, rfl⟩ := h.units
  rfl

theorem GrowsTo.refl {d : Draft} {document : Document} (h : d.Yields document)
    (ho : (d.outline document).InOrder) : d.GrowsTo document d document where
  units := ⟨[], by simp [Document.append]⟩
  yields := h
  inOrder := ho
  outline := .refl _

theorem GrowsTo.trans {d e f : Draft} {document middle grown : Document}
    (h : d.GrowsTo document e middle) (h' : e.GrowsTo middle f grown) :
    d.GrowsTo document f grown where
  units := by
    obtain ⟨units, rfl⟩ := h.units
    obtain ⟨more, rfl⟩ := h'.units
    exact ⟨units ++ more, by simp [Document.append]⟩
  yields := h'.yields
  inOrder := h'.inOrder
  outline := h.outline.trans h'.outline

/-- What a part of a run emits is what its document grows by. -/
theorem GrowsTo.eq_append {d e : Draft} {document middle : Document} {pieces : List Piece}
    (h : d.GrowsTo document e middle) (hd : d.Yields document) (he : d.Emits pieces e) :
    middle = document.append (Piece.unitsOf pieces) :=
  h.yields.unique (hd.emits he) h.first_eq

theorem Yields.growsTo_steps {d final : Draft} {document : Document} {tokens : List Token}
    (h : d.Yields document) (ho : (d.outline document).InOrder)
    (hs : d.steps tokens = .ok final) : ∃ grown, d.GrowsTo document final grown := by
  obtain ⟨units, hy, hsteps⟩ := h.follows_steps hs
  exact ⟨_, ⟨units, rfl⟩, hy, ho.steps hsteps, .of_steps ho hsteps⟩

/-- From a start without items, all items start behind it. -/
theorem growsTo_start {first : Int} {tab : Option String} {headingAsTitle : Bool}
    {tokens : List Token} {d : Draft}
    (h : (Draft.start first tab headingAsTitle).steps tokens = .ok d) :
    ∃ document, (Draft.start first tab headingAsTitle).GrowsTo (.empty first) d document ∧
      ∀ a ∈ d.bounds, first ≤ a.start := by
  obtain ⟨document, hgrows⟩ := (yields_start first tab headingAsTitle).growsTo_steps
    (Outline.inOrder_empty first) h
  refine ⟨document, hgrows, fun a ha => ?_⟩
  obtain ⟨i, hi⟩ := List.mem_iff_getElem?.mp ha
  have hle := hgrows.outline.later i a hi (Nat.zero_le _)
  simpa [outline] using hle

/-- A run from a draft, with the document that its insertions give. -/
structure Reaches (first : Draft) (tokens : List Token) (final : Draft) (document : Document) :
    Prop where
  run : first.steps tokens = .ok final
  replay : (Document.empty first.cursor).replay? final.insertions.toList = some document

/-- A part of a run lets the document of what is in front of it grow. -/
theorem growsTo_of_steps {first : Int} {tab : Option String} {headingAsTitle : Bool}
    {before between : List Token} {d e : Draft}
    (hd : (Draft.start first tab headingAsTitle).steps before = .ok d)
    (hs : d.steps between = .ok e) :
    ∃ document middle, (Draft.start first tab headingAsTitle).GrowsTo (.empty first) d document ∧
      d.GrowsTo document e middle := by
  obtain ⟨document, hdocument, -⟩ := growsTo_start hd
  obtain ⟨middle, hmiddle⟩ := hdocument.yields.growsTo_steps hdocument.inOrder hs
  exact ⟨document, middle, hdocument, hmiddle⟩

/-- A run in three parts, with the documents where they meet. -/
theorem growsTo_parts {first : Int} {tab : Option String} {headingAsTitle : Bool}
    {before between after : List Token} {final : Draft}
    (h : (Draft.start first tab headingAsTitle).steps (before ++ between ++ after) = .ok final) :
    ∃ d e document middle last,
      (Draft.start first tab headingAsTitle).steps before = .ok d ∧ d.steps between = .ok e ∧
        e.steps after = .ok final ∧
          (Draft.start first tab headingAsTitle).GrowsTo (.empty first) d document ∧
            d.GrowsTo document e middle ∧ e.GrowsTo middle final last := by
  obtain ⟨e, he, hfinal⟩ := steps_append_eq_ok.mp h
  obtain ⟨d, hd, hbetween⟩ := steps_append_eq_ok.mp he
  obtain ⟨document, middle, hdocument, hmiddle⟩ := growsTo_of_steps hd hbetween
  obtain ⟨last, hlast⟩ := hmiddle.yields.growsTo_steps hmiddle.inOrder hfinal
  exact ⟨d, e, document, middle, last, hd, hbetween, hfinal, hdocument, hmiddle, hlast⟩

theorem GrowsTo.reaches {first : Int} {tab : Option String} {headingAsTitle : Bool}
    {tokens : List Token} {final : Draft} {document : Document}
    (h : (Draft.start first tab headingAsTitle).GrowsTo (.empty first) final document)
    (hrun : (Draft.start first tab headingAsTitle).steps tokens = .ok final) :
    (Draft.start first tab headingAsTitle).Reaches tokens final document where
  run := hrun
  replay := by
    have hreplay := h.yields.replay
    rwa [h.first_eq] at hreplay

/-- The last of the three parts of a run ends with the document of the run. -/
theorem Reaches.parts {first : Int} {tab : Option String} {headingAsTitle : Bool}
    {before between after : List Token} {final : Draft} {document : Document}
    (h : (Draft.start first tab headingAsTitle).Reaches (before ++ between ++ after) final
      document) :
    ∃ d e shown middle,
      (Draft.start first tab headingAsTitle).steps before = .ok d ∧ d.steps between = .ok e ∧
        e.steps after = .ok final ∧
          (Draft.start first tab headingAsTitle).GrowsTo (.empty first) d shown ∧
            d.GrowsTo shown e middle ∧ e.GrowsTo middle final document := by
  obtain ⟨d, e, shown, middle, last, hd, hbetween, hafter, hshown, hmiddle, hlast⟩ :=
    growsTo_parts h.run
  have hgrows := (hshown.trans hmiddle).trans hlast
  have hsame : last = document :=
    Option.some.inj ((hgrows.reaches h.run).replay.symm.trans h.replay)
  exact ⟨d, e, shown, middle, hd, hbetween, hafter, hshown, hmiddle, hsame ▸ hlast⟩

/-- The run over the atoms of a stream, in three parts. -/
theorem growsTo_split {first : Int} {tab : Option String} {headingAsTitle : Bool}
    {tokens before between after : List Token} {final : Draft}
    (h : (Draft.start first tab headingAsTitle).steps tokens = .ok final)
    (hsplit : Token.atomsOf tokens = before ++ between ++ after) :
    ∃ d e document middle last,
      (Draft.start first tab headingAsTitle).steps before = .ok d ∧ d.steps between = .ok e ∧
        e.steps after = .ok final ∧
          (Draft.start first tab headingAsTitle).GrowsTo (.empty first) d document ∧
            d.GrowsTo document e middle ∧ e.GrowsTo middle final last := by
  rw [← steps_atomsOf, hsplit] at h
  exact growsTo_parts h

end Draft

/-! ## Conversions -/

/-- A part of a run inserts units behind a document, and the rest of the run inserts more behind
them. -/
structure Conversion.Inserts (c : Conversion) (d next : Draft) (document : Document)
    (units behind : List DocumentUnit) : Prop where
  before : (Document.empty document.first).replay? d.insertions.toList = some document
  after : (Document.empty document.first).replay? next.insertions.toList =
    some (document.append units)
  replay : (Document.empty document.first).replay? c.insertions =
    some ((document.append units).append behind)

theorem Draft.GrowsTo.inserts {d e final : Draft} {document middle last : Document}
    (hd : d.Yields document) (he : d.GrowsTo document e middle)
    (hf : e.GrowsTo middle final last) (config : Config) : ∃ units behind,
      middle = document.append units ∧ last = middle.append behind ∧
        (Conversion.ofDraft config final).Inserts d e document units behind := by
  obtain ⟨units, rfl⟩ := he.units
  obtain ⟨behind, rfl⟩ := hf.units
  exact ⟨units, behind, rfl, rfl, hd.replay, he.yields.replay, hf.yields.replay⟩

end MarkdownEdits
