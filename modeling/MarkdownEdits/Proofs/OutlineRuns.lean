import MarkdownEdits.Proofs.ItemOutline

/-!
# Outlines of runs

A run over tokens takes the outline of its first draft by steps of outlines to the outline of its
last one. What the steps keep holds of the items of every draft that is reached.
-/
namespace MarkdownEdits
namespace Draft

def outline (d : Draft) (document : Document) : Outline := ⟨document, d.bounds, d.openItems⟩

theorem itemAt?_eq_some {d : Draft} {index : Int} {i : Nat} {item : ListItem}
    (h : d.itemAt? index = some (i, item)) :
    placeOf? d.records.items.size index = some i ∧ d.records.items[i]? = some item := by
  obtain ⟨place, hplace, hitem⟩ := Option.bind_eq_some_iff.mp h
  obtain ⟨found, hfound, heq⟩ := Option.map_eq_some_iff.mp hitem
  cases heq
  exact ⟨hplace, hfound⟩

theorem openItem?_eq_some {d : Draft} {i : Nat} {item : ListItem}
    (h : d.openItem? = some (i, item)) :
    ∃ index rest, d.openItems = index :: rest ∧ d.itemAt? index = some (i, item) := by
  rw [openItem?] at h
  split at h
  · cases h
  · rename_i index rest hopen
    exact ⟨index, rest, hopen, h⟩

private theorem bounds_setStop {d : Draft} {i : Nat} {item : ListItem} (stop : Int)
    (h : d.records.items[i]? = some item) :
    (d.modifyItem i fun item => { item with stop := some stop }).bounds =
      d.bounds.set i ⟨item.start, some stop⟩ := by
  apply List.ext_getElem?
  intro j
  simp only [getElem?_bounds, modifyItem, record, Array.getElem?_modify, List.getElem?_set,
    length_bounds]
  by_cases hij : i = j
  · subst hij
    obtain ⟨hlt, rfl⟩ := Array.getElem?_eq_some_iff.mp h
    simp [hlt, ListItem.bounds]
  · simp [hij]

/-- The end of what is inserted is the index before the line end, be it inserted already or next. -/
theorem contentEnd_eq (d : Draft) : d.contentEnd = d.endLine.cursor - 1 := by
  rw [contentEnd, endLine]
  split
  · rfl
  · have hline : (Utf16.length "\n" : Int) = 1 := by decide
    rw [cursor_insertText, hline]
    omega

theorem Yields.of_same {d next : Draft} {document : Document} (h : d.Yields document)
    (hi : next.insertions = d.insertions) (hc : next.cursor = d.cursor) : next.Yields document where
  replay := by rw [hi, h.replay]
  cursor := by rw [hc, h.cursor]
  newline := by rw [endsWithNewline_congr hi, h.newline]

/-- The next draft's outline is reached, on a document that has grown. -/
def Follows (d : Draft) (document : Document) (next : Draft) : Prop :=
  ∃ units, next.Yields (document.append units) ∧
    Relation.ReflTransGen Outline.Step (d.outline document)
      (next.outline (document.append units))

/-- An operation that leaves the items alone lets the document grow. -/
theorem Yields.follows {d next : Draft} {document : Document} {pieces : List Piece}
    (h : d.Yields document) (he : d.Emits pieces next) (hbounds : next.bounds = d.bounds)
    (hopen : next.openItems = d.openItems) : d.Follows document next := by
  refine ⟨Piece.unitsOf pieces, h.emits he, .single ?_⟩
  simp only [outline, hbounds, hopen]
  exact .grow ⟨document, d.bounds, d.openItems⟩ _

theorem Follows.trans {d e f : Draft} {document : Document} (h : d.Follows document e)
    (h' : ∀ grown, e.Yields grown → e.Follows grown f) : d.Follows document f := by
  obtain ⟨units, hy, hs⟩ := h
  obtain ⟨more, hy', hs'⟩ := h' _ hy
  have happend : (document.append units).append more = document.append (units ++ more) := by
    simp [Document.append]
  rw [happend] at hy' hs'
  exact ⟨_, hy', hs.trans hs'⟩

/-- A step of the outline that leaves the document alone. -/
theorem Yields.follows_step {d next : Draft} {document : Document} (h : d.Yields document)
    (hi : next.insertions = d.insertions) (hc : next.cursor = d.cursor)
    (hs : Relation.ReflTransGen Outline.Step (d.outline document) (next.outline document)) :
    d.Follows document next := by
  have happend : document.append [] = document := by
    simp [Document.append]
  refine ⟨[], ?_, ?_⟩
  · rw [happend]
    exact h.of_same hi hc
  · rw [happend]
    exact hs

/-! ## Operations -/

theorem Yields.follows_refl {d next : Draft} {document : Document} (h : d.Yields document)
    (hi : next.insertions = d.insertions) (hc : next.cursor = d.cursor)
    (hbounds : next.bounds = d.bounds) (hopen : next.openItems = d.openItems) :
    d.Follows document next := by
  refine h.follows_step hi hc ?_
  simp only [outline, hbounds, hopen]
  exact .refl

theorem Yields.follows_endLine {d : Draft} {document : Document} (h : d.Yields document) :
    d.Follows document d.endLine := by
  have hkeeps := d.keepsContent_endLine.keepsBounds
  exact h.follows d.emits_endLine hkeeps.bounds hkeeps.openItems

private theorem step_setStop {d : Draft} {document : Document} (h : d.Yields document)
    (hline : d.endsWithNewline = true) {index : Int} {rest : List Int} {i : Nat} {item : ListItem}
    (hopen : d.openItems = index :: rest) (hitem : d.itemAt? index = some (i, item))
    (hstart : item.start < d.cursor - 1) :
    Outline.Step (d.outline document)
      ⟨document, d.bounds.set i ⟨item.start, some (d.cursor - 1)⟩, d.openItems⟩ := by
  obtain ⟨hplace, hget⟩ := itemAt?_eq_some hitem
  rw [h.cursor] at hstart ⊢
  have hbounds : d.bounds[i]? = some item.bounds := by
    rw [getElem?_bounds, hget, Option.map_some]
  exact .endItem (d.outline document) hopen (by simpa [outline] using hplace) hbounds hstart
    (h.newline.mp hline)

theorem Yields.follows_extendOpenItem {d : Draft} {document : Document} (h : d.Yields document)
    (hline : d.endsWithNewline = true) : d.Follows document d.extendOpenItem := by
  have hend : d.contentEnd = d.cursor - 1 := by
    rw [contentEnd, if_pos hline]
  rw [extendOpenItem]
  split
  · rename_i i item hitem
    split
    · rename_i hstart
      obtain ⟨index, rest, hopen, hat⟩ := openItem?_eq_some hitem
      refine h.follows_step rfl rfl (.single ?_)
      rw [hend] at hstart ⊢
      have hstep := step_setStop h hline hopen hat hstart
      rw [← bounds_setStop _ (itemAt?_eq_some hat).2] at hstep
      exact hstep
    · exact h.follows_refl rfl rfl rfl rfl
  · exact h.follows_refl rfl rfl rfl rfl

private theorem endItem_eq (d : Draft) (index : Int) :
    d.endItem index = { d with records := (d.endItem index).records } := by
  rw [endItem]
  split
  · split <;> rfl
  · rfl

private theorem endLine_with (d : Draft) (records : SpanRecords) (openItems : List Int) :
    ({ d with records := records, openItems := openItems } : Draft).endLine =
      { d.endLine with records := records, openItems := openItems } := by
  have hsame : ({ d with records := records, openItems := openItems } : Draft).endsWithNewline =
      d.endsWithNewline := rfl
  simp only [endLine]
  rw [hsame]
  split <;> rfl

/-- The line may as well be ended before the item, whose end is in front of the line end either
way. -/
theorem closeItem_of_cons {d : Draft} {index : Int} {rest : List Int}
    (h : d.openItems = index :: rest) :
    d.closeItem = { d.endLine.endItem index with openItems := rest } := by
  have hend : d.endLine.contentEnd = d.contentEnd := by
    rw [contentEnd_eq d, contentEnd, if_pos (endsWithNewline_endLine d)]
  have hat : d.endLine.itemAt? index = d.itemAt? index := by
    simp only [itemAt?, d.records_endLine]
  have hrecords : (d.endLine.endItem index).records = (d.endItem index).records := by
    simp only [endItem]
    rw [hend, hat]
    split
    · split <;> simp [modifyItem, record, d.records_endLine]
    · exact d.records_endLine
  rw [closeItem]
  rw [h]
  simp only
  rw [endItem_eq d.endLine, endItem_eq d, hrecords]
  exact endLine_with d _ rest

theorem Yields.follows_closeItem {d : Draft} {document : Document} (h : d.Yields document) :
    d.Follows document d.closeItem := by
  cases hopen : d.openItems with
  | nil =>
    rw [closeItem]
    rw [hopen]
    exact h.follows_refl rfl rfl rfl rfl
  | cons index rest =>
    rw [closeItem_of_cons hopen]
    refine h.follows_endLine.trans fun grown hy => ?_
    have hline := endsWithNewline_endLine d
    rw [← d.keepsContent_endLine.openItems] at hopen
    generalize d.endLine = e at hy hline hopen
    have hend : e.contentEnd = e.cursor - 1 := by
      rw [contentEnd, if_pos hline]
    rw [endItem]
    split
    · rename_i i item hat
      split
      · rename_i hstart
        rw [hend] at hstart ⊢
        have hlt : item.start < e.cursor - 1 := by
          simpa using (Bool.and_eq_true_iff.mp hstart).2
        have hstep := step_setStop hy hline hopen hat hlt
        rw [← bounds_setStop _ (itemAt?_eq_some hat).2] at hstep
        exact hy.follows_step rfl rfl (.tail (.single hstep) (.closeItem _ hopen))
      · exact hy.follows_step rfl rfl (.single (.closeItem _ hopen))
    · exact hy.follows_step rfl rfl (.single (.closeItem _ hopen))

theorem Yields.follows_openItem {d next : Draft} {document : Document} (h : d.Yields document)
    (ho : d.openItem = .ok next) : d.Follows document next := by
  obtain ⟨list, outer, -, he⟩ := emits_openItem ho
  refine ⟨_, h.emits he, ?_⟩
  have hbounds := bounds_openItem ho
  have hopen := openItems_openItem ho
  rw [h.cursor] at hbounds
  rw [← length_bounds] at hopen
  simp only [outline, hbounds, hopen]
  exact .tail (.single (.openItem ⟨document, d.bounds, d.openItems⟩)) (.grow _ _)

/-! ## Runs -/

theorem Yields.follows_closeParagraph {d : Draft} {document : Document} (h : d.Yields document) :
    d.Follows document d.closeParagraph := by
  refine h.follows_endLine.trans fun ended hy => ?_
  refine (hy.follows_extendOpenItem d.endsWithNewline_endLine).trans fun extended hy => ?_
  have hkeeps := (keepsContent_recordParagraph d.endLine.extendOpenItem
    d.paragraphStart).keepsBounds
  exact hy.follows ((emits_recordParagraph _ d.paragraphStart).then_same rfl rfl rfl)
    hkeeps.bounds hkeeps.openItems

theorem Yields.follows_atom {d next : Draft} {document : Document} {t : Token}
    (ht : t.IsAtom) (h : d.Yields document) (hs : d.step t = .ok next) :
    d.Follows document next := by
  have keeps {pieces : List Piece} {e : Draft} (he : d.Emits pieces e) (hk : d.KeepsBounds e) :
      d.Follows document e := h.follows he hk.bounds hk.openItems
  have blocks {pieces : List Piece} {e : Draft} (he : d.Emits pieces e) (hk : d.KeepsContent e) :
      d.Follows document e := keeps he hk.keepsBounds
  cases t with
  | inline children => exact ht.elim
  | text content =>
    cases hs
    exact keeps (emits_insertLeaf d content) (d.keepsBounds_insertLeaf content)
  | codeSpan content =>
    cases hs
    have hkeeps := (d.openFormatting { code := some true }).keepsBounds_insertLeaf content
    exact keeps (emits_insertCode d content) ⟨hkeeps.bounds, hkeeps.openItems⟩
  | openMark mark => cases hs; exact h.follows_refl rfl rfl rfl rfl
  | closeMark mark => cases hs; exact h.follows_refl rfl rfl rfl rfl
  | openLink target =>
    cases hs
    exact keeps (emits_openLink d target) (d.keepsBounds_openLink target)
  | closeLink => cases hs; exact h.follows_refl rfl rfl rfl rfl
  | softBreak => cases hs; exact blocks (emits_insertText d (by decide)) (d.keepsContent_insertText _)
  | hardBreak => cases hs; exact blocks (emits_insertText d (by decide)) (d.keepsContent_insertText _)
  | openHeading tag => cases hs; exact blocks (emits_openHeading d tag) (d.keepsContent_openHeading tag)
  | closeHeading => cases hs; exact blocks (emits_closeHeading d) d.keepsContent_closeHeading
  | openParagraph => cases hs; exact blocks (emits_openParagraph d) d.keepsContent_openParagraph
  | closeParagraph => cases hs; exact h.follows_closeParagraph
  | openList kind => cases hs; exact h.follows_refl rfl rfl rfl rfl
  | closeList kind => cases hs; exact blocks (emits_closeList d) d.keepsContent_closeList
  | openItem => exact h.follows_openItem hs
  | closeItem => cases hs; exact h.follows_closeItem
  | codeBlock content info =>
    cases hs
    exact blocks (emits_insertCodeBlock d content info)
      (d.keepsContent_insertCodeBlock content info)
  | rule => cases hs; exact blocks (emits_insertRule d) d.keepsContent_insertRule
  | skipped type children => cases hs; exact h.follows_refl rfl rfl rfl rfl
  | malformed type words => cases hs

theorem Yields.inOrder_follows {d next : Draft} {document : Document}
    (ho : (d.outline document).InOrder) (hf : d.Follows document next) :
    ∃ units, next.Yields (document.append units) ∧
      (next.outline (document.append units)).InOrder := by
  obtain ⟨units, hy, hs⟩ := hf
  exact ⟨units, hy, ho.steps hs⟩

/-- Every draft that a run reaches has a document, with its items in order. -/
theorem inOrder_steps {start : Int} {tab : Option String} {headingAsTitle : Bool}
    {tokens : List Token} {d : Draft}
    (h : (Draft.start start tab headingAsTitle).steps tokens = .ok d) :
    ∃ document, document.first = start ∧ d.Yields document ∧ (d.outline document).InOrder := by
  refine invariant_steps (P := fun d => ∃ document : Document,
    document.first = start ∧ d.Yields document ∧ (d.outline document).InOrder) ?_ ?_ h
  · rintro d t next ht ⟨document, hfirst, hy, ho⟩ hs
    obtain ⟨units, hy', ho'⟩ := Yields.inOrder_follows ho (hy.follows_atom ht hs)
    exact ⟨document.append units, hfirst, hy', ho'⟩
  · exact ⟨.empty start, rfl, yields_start start tab headingAsTitle, Outline.inOrder_empty start⟩

end Draft
end MarkdownEdits
