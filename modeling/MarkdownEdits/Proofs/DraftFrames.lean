import MarkdownEdits.TokenCompilation

/-!
# What operations leave alone

Each operation changes a few parts of a draft. Those that deal with blocks touch neither the items
nor the formatting, those that deal with items touch no formatting, and leaves touch no item's
bounds.
-/
namespace MarkdownEdits

/-- Where an item starts, and where it ends if it has an end. -/
structure Bounds where
  start : Int
  stop : Option Int
  deriving DecidableEq, Repr

def ListItem.bounds (item : ListItem) : Bounds := ⟨item.start, item.stop⟩

namespace Draft

def bounds (d : Draft) : List Bounds := d.records.items.toList.map ListItem.bounds

@[simp] theorem length_bounds (d : Draft) : d.bounds.length = d.records.items.size := by
  simp [bounds]

theorem getElem?_bounds (d : Draft) (i : Nat) :
    d.bounds[i]? = d.records.items[i]?.map ListItem.bounds := by
  simp [bounds]

/-- The items start and end where they did, and the same ones are open. -/
structure KeepsBounds (d next : Draft) : Prop where
  bounds : next.bounds = d.bounds
  openItems : next.openItems = d.openItems

/-- The open formatting and the styled texts stay as they are. -/
structure KeepsStyles (d next : Draft) : Prop where
  formatting : next.formatting = d.formatting
  texts : next.records.styledTexts = d.records.styledTexts

/-- The items, the open formatting and the styled texts stay as they are. -/
structure KeepsContent (d next : Draft) : Prop extends KeepsStyles d next where
  items : next.records.items = d.records.items
  openItems : next.openItems = d.openItems

theorem KeepsStyles.trans {d e f : Draft} (h : d.KeepsStyles e) (h' : e.KeepsStyles f) :
    d.KeepsStyles f where
  formatting := h'.formatting.trans h.formatting
  texts := h'.texts.trans h.texts

theorem KeepsContent.trans {d e f : Draft} (h : d.KeepsContent e) (h' : e.KeepsContent f) :
    d.KeepsContent f where
  toKeepsStyles := h.toKeepsStyles.trans h'.toKeepsStyles
  items := h'.items.trans h.items
  openItems := h'.openItems.trans h.openItems

theorem KeepsContent.keepsBounds {d next : Draft} (h : d.KeepsContent next) :
    d.KeepsBounds next where
  bounds := by simp only [bounds, h.items]
  openItems := h.openItems

theorem KeepsContent.of_same {d next : Draft} (hf : next.formatting = d.formatting)
    (ht : next.records.styledTexts = d.records.styledTexts)
    (hi : next.records.items = d.records.items) (ho : next.openItems = d.openItems) :
    d.KeepsContent next := ⟨⟨hf, ht⟩, hi, ho⟩

/-! ## Blocks -/

theorem keepsContent_insertText (d : Draft) (text : String) : d.KeepsContent (d.insertText text) :=
  .of_same rfl rfl rfl rfl

theorem records_endLine (d : Draft) : d.endLine.records = d.records := by
  rw [endLine]
  split <;> rfl

theorem keepsContent_endLine (d : Draft) : d.KeepsContent d.endLine := by
  rw [endLine]
  split
  · exact .of_same rfl rfl rfl rfl
  · exact d.keepsContent_insertText "\n"

theorem keepsContent_beginBlock (d : Draft) : d.KeepsContent d.beginBlock := by
  rw [beginBlock]
  split
  · exact .of_same rfl rfl rfl rfl
  · exact d.keepsContent_endLine

theorem keepsContent_openHeading (d : Draft) (tag : String) :
    d.KeepsContent (d.openHeading tag) := by
  rw [openHeading]
  split <;> exact .of_same rfl rfl rfl rfl

theorem keepsContent_closeHeading (d : Draft) : d.KeepsContent d.closeHeading := by
  rw [closeHeading.eq_def]
  split <;> exact .of_same rfl rfl rfl rfl

theorem keepsContent_openParagraph (d : Draft) : d.KeepsContent d.openParagraph := by
  rw [openParagraph]
  split <;> exact .of_same rfl rfl rfl rfl

theorem keepsContent_recordParagraph (d : Draft) (start : Option Int) :
    d.KeepsContent (d.recordParagraph start) := by
  cases start with
  | none => exact .of_same rfl rfl rfl rfl
  | some start =>
    simp only [recordParagraph]
    split <;> exact .of_same rfl rfl rfl rfl

theorem keepsContent_recordListTail (d : Draft) : d.KeepsContent d.recordListTail := by
  rw [recordListTail]
  split <;> exact .of_same rfl rfl rfl rfl

theorem keepsContent_closeList (d : Draft) : d.KeepsContent d.closeList := by
  rw [closeList.eq_def]
  split
  · exact .of_same rfl rfl rfl rfl
  · rename_i outer _
    have hclosed : d.KeepsContent { d with lists := outer } := .of_same rfl rfl rfl rfl
    split
    · exact hclosed.trans (keepsContent_recordListTail _)
    · exact hclosed

theorem keepsContent_insertRule (d : Draft) : d.KeepsContent d.insertRule := by
  have hline := d.keepsContent_endLine
  exact .of_same hline.formatting hline.texts hline.items hline.openItems

theorem keepsContent_insertCodeBlock (d : Draft) (content info : String) :
    d.KeepsContent (d.insertCodeBlock content info) := by
  refine d.keepsContent_beginBlock.trans ?_
  simp only [insertCodeBlock]
  split <;> exact .of_same rfl rfl rfl rfl

/-! ## Items -/

theorem keepsStyles_extendOpenItem (d : Draft) : d.KeepsStyles d.extendOpenItem := by
  rw [extendOpenItem]
  split
  · split <;> exact ⟨rfl, rfl⟩
  · exact ⟨rfl, rfl⟩

theorem keepsStyles_closeParagraph (d : Draft) : d.KeepsStyles d.closeParagraph := by
  have hline := d.keepsContent_endLine.toKeepsStyles.trans (keepsStyles_extendOpenItem _)
  have hrecorded := hline.trans (keepsContent_recordParagraph _ d.paragraphStart).toKeepsStyles
  exact ⟨hrecorded.formatting, hrecorded.texts⟩

theorem keepsStyles_openItem {d next : Draft} (h : d.openItem = .ok next) : d.KeepsStyles next := by
  rw [openItem.eq_def] at h
  split at h
  · cases h
  · cases h
    split <;> exact ⟨rfl, rfl⟩

/-- An item opens at the cursor, and the indent comes behind its start. -/
theorem bounds_openItem {d next : Draft} (h : d.openItem = .ok next) :
    next.bounds = d.bounds ++ [⟨d.cursor, none⟩] := by
  rw [openItem.eq_def] at h
  split at h
  · cases h
  · cases h
    simp only [bounds, addItem, record, Array.toList_push, List.map_append]
    split <;> rfl

theorem openItems_openItem {d next : Draft} (h : d.openItem = .ok next) :
    next.openItems = (d.records.items.size : Int) :: d.openItems := by
  rw [openItem.eq_def] at h
  split at h
  · cases h
  · cases h
    rfl

theorem keepsStyles_endItem (d : Draft) (index : Int) : d.KeepsStyles (d.endItem index) := by
  rw [endItem]
  split
  · split <;> exact ⟨rfl, rfl⟩
  · exact ⟨rfl, rfl⟩

theorem keepsStyles_closeItem (d : Draft) : d.KeepsStyles d.closeItem := by
  rw [closeItem.eq_def]
  split
  · exact ⟨rfl, rfl⟩
  · rename_i index rest _
    have hended : d.KeepsStyles { d.endItem index with openItems := rest } :=
      ⟨(d.keepsStyles_endItem index).formatting, (d.keepsStyles_endItem index).texts⟩
    exact hended.trans (keepsContent_endLine _).toKeepsStyles

/-! ## Leaves -/

/-- What is seen of the items changes at one index alone. -/
theorem map_modifyItem {α : Type} (view : ListItem → α) (d : Draft) (i : Nat)
    {f : ListItem → ListItem} {g : α → α}
    (hf : ∀ item, d.records.items[i]? = some item → view (f item) = g (view item)) :
    (d.modifyItem i f).records.items.toList.map view =
      (d.records.items.toList.map view).modify i g := by
  apply List.ext_getElem?
  intro j
  simp only [List.getElem?_map, Array.getElem?_toList, modifyItem, record, Array.getElem?_modify,
    List.getElem?_modify]
  by_cases hij : i = j
  · subst hij
    cases hitem : d.records.items[i]? with
    | none => simp
    | some item => simp [hf item hitem]
  · simp [hij]

theorem map_modifyItem_of_eq {α : Type} (view : ListItem → α) (d : Draft) (i : Nat)
    {f : ListItem → ListItem} (hf : ∀ item, view (f item) = view item) :
    (d.modifyItem i f).records.items.toList.map view = d.records.items.toList.map view := by
  rw [map_modifyItem view d i (g := id) fun item _ => hf item, List.modify_id]

/-- A change to the item of an index that touches neither its start nor its end. -/
theorem bounds_modifyItem (d : Draft) (i : Nat) {f : ListItem → ListItem}
    (hf : ∀ item, (f item).bounds = item.bounds) : (d.modifyItem i f).bounds = d.bounds :=
  map_modifyItem_of_eq ListItem.bounds d i hf

section View

variable {α : Type} (view : ListItem → α)
  (hstop : ∀ item stop, view { item with stop := stop } = view item) (d : Draft)

include hstop

theorem map_extendOpenItem :
    d.extendOpenItem.records.items.toList.map view = d.records.items.toList.map view := by
  rw [extendOpenItem]
  split
  · split
    · exact map_modifyItem_of_eq view d _ fun item => hstop item _
    · rfl
  · rfl

theorem map_endItem (index : Int) :
    (d.endItem index).records.items.toList.map view = d.records.items.toList.map view := by
  rw [endItem]
  split
  · split
    · exact map_modifyItem_of_eq view d _ fun item => hstop item _
    · rfl
  · rfl

/-- A paragraph that closes touches no more of its item than the end. -/
theorem map_closeParagraph :
    d.closeParagraph.records.items.toList.map view = d.records.items.toList.map view := by
  have hrecorded := (keepsContent_recordParagraph d.endLine.extendOpenItem d.paragraphStart).items
  have hextended := map_extendOpenItem view hstop d.endLine
  rw [d.keepsContent_endLine.items] at hextended
  rw [closeParagraph, hrecorded, hextended]

/-- An item that closes touches no more of itself than its end. -/
theorem map_closeItem :
    d.closeItem.records.items.toList.map view = d.records.items.toList.map view := by
  rw [closeItem.eq_def]
  split
  · rfl
  · rw [(keepsContent_endLine _).items]
    exact map_endItem view hstop d _

end View

/-- Looking for a marker changes at most one item, and neither where it starts nor where it ends. -/
theorem takeMarker_fst (d : Draft) (text : String) :
    (d.takeMarker text).1 = d ∨ ∃ i, ∃ f : ListItem → ListItem,
      (∀ item, (f item).bounds = item.bounds) ∧ (d.takeMarker text).1 = d.modifyItem i f := by
  rw [takeMarker]
  split
  · exact .inl rfl
  · split
    · exact .inl rfl
    · split
      · exact .inr ⟨_, fun item => { item with markerChecked := true, preset := .checkbox },
          fun _ => rfl, rfl⟩
      · exact .inr ⟨_, fun item => { item with markerChecked := true }, fun _ => rfl, rfl⟩

/-- What is inserted of the text of a leaf: all of it but a task marker, where one is looked for. -/
def leafText (d : Draft) (text : String) : String :=
  match d.openItem? with
  | some (_, item) =>
    if item.markerChecked || text == "" then text else (TaskMarkers.strip? text).getD text
  | none => text

theorem takeMarker_snd (d : Draft) {text : String} (h : text ≠ "") :
    (d.takeMarker text).2 = d.leafText text := by
  rw [takeMarker, leafText]
  cases d.openItem? with
  | none => rfl
  | some entry =>
    obtain ⟨i, item⟩ := entry
    by_cases hchecked : item.markerChecked = true
    · simp [hchecked]
    · cases hstrip : TaskMarkers.strip? text <;> simp [hchecked, h]

@[simp] theorem leafText_empty (d : Draft) : d.leafText "" = "" := by
  rw [leafText]
  split <;> simp

theorem leafText_congr {d e : Draft} (h : e.openItem? = d.openItem?) (text : String) :
    e.leafText text = d.leafText text := by
  simp only [leafText, h]

@[simp] theorem insertLeaf_empty (d : Draft) : d.insertLeaf "" = d := if_pos rfl

/-- A leaf is looked through for a marker, and what is left of it is inserted. -/
theorem insertLeaf_eq (d : Draft) {text : String} (h : text ≠ "") :
    d.insertLeaf text = if d.leafText text = "" then (d.takeMarker text).1
      else (d.takeMarker text).1.insertStyled (d.leafText text) := by
  simp only [insertLeaf, if_neg h, d.takeMarker_snd h]

theorem keepsStyles_takeMarker (d : Draft) (text : String) :
    d.KeepsStyles (d.takeMarker text).1 := by
  obtain hsame | ⟨i, f, -, hmodified⟩ := d.takeMarker_fst text
  · rw [hsame]
    exact ⟨rfl, rfl⟩
  · rw [hmodified]
    exact ⟨rfl, rfl⟩

theorem keepsBounds_takeMarker (d : Draft) (text : String) :
    d.KeepsBounds (d.takeMarker text).1 := by
  obtain hsame | ⟨i, f, hf, hmodified⟩ := d.takeMarker_fst text
  · rw [hsame]
    exact ⟨rfl, rfl⟩
  · rw [hmodified]
    exact ⟨bounds_modifyItem d i hf, rfl⟩

theorem keepsBounds_openLink (d : Draft) (target : Option String) :
    d.KeepsBounds (d.openLink target) := by
  cases target with
  | none => exact ⟨rfl, rfl⟩
  | some url =>
    simp only [openLink]
    split <;> exact ⟨rfl, rfl⟩

theorem keepsBounds_insertStyled (d : Draft) (text : String) :
    d.KeepsBounds (d.insertStyled text) := by
  simp only [insertStyled]
  split <;> exact ⟨rfl, rfl⟩

theorem formatting_insertStyled (d : Draft) (text : String) :
    (d.insertStyled text).formatting = d.formatting := by
  simp only [insertStyled]
  split <;> rfl

theorem keepsBounds_insertLeaf (d : Draft) (text : String) : d.KeepsBounds (d.insertLeaf text) := by
  by_cases h : text = ""
  · rw [h, insertLeaf_empty]
    exact ⟨rfl, rfl⟩
  · have hmarked := d.keepsBounds_takeMarker text
    rw [d.insertLeaf_eq h]
    split
    · exact hmarked
    · have hstyled := (d.takeMarker text).1.keepsBounds_insertStyled (d.leafText text)
      exact ⟨hstyled.bounds.trans hmarked.bounds, hstyled.openItems.trans hmarked.openItems⟩

theorem formatting_insertLeaf (d : Draft) (text : String) :
    (d.insertLeaf text).formatting = d.formatting := by
  by_cases h : text = ""
  · rw [h, insertLeaf_empty]
  · have hmarked := (d.keepsStyles_takeMarker text).formatting
    rw [d.insertLeaf_eq h]
    split
    · exact hmarked
    · rw [formatting_insertStyled, hmarked]

end Draft
end MarkdownEdits
