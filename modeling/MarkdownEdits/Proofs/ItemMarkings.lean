import MarkdownEdits.Proofs.ItemLifetimes
import MarkdownEdits.Proofs.StepEffects

/-!
# Markings of items

The first text of an item that is not empty tells whether the item is a task. Only the innermost
open item reads a text, and what is read is never read again.
-/
namespace MarkdownEdits

/-- The glyphs of an item, and whether a text of it has been looked at. -/
structure Marking where
  preset : BulletPreset
  checked : Bool
  deriving DecidableEq, Repr

namespace Marking

/-- An item becomes a task where the first of its texts that is not empty begins with a marker. -/
def read (m : Marking) (text : String) : Marking :=
  if m.checked || text == "" then m
  else ⟨if (TaskMarkers.strip? text).isSome then .checkbox else m.preset, true⟩

theorem read_of_checked {m : Marking} (h : m.checked = true) (text : String) : m.read text = m := by
  simp [read, h]

@[simp] theorem read_empty (m : Marking) : m.read "" = m := by simp [read]

theorem read_of_unchecked {m : Marking} (h : m.checked = false) {text : String} (ht : text ≠ "") :
    m.read text = ⟨if (TaskMarkers.strip? text).isSome then .checkbox else m.preset, true⟩ := by
  simp [read, h, ht]

/-- Texts behind the first one are not read. -/
theorem foldl_read_of_checked {m : Marking} (h : m.checked = true) (texts : List String) :
    texts.foldl read m = m := by
  induction texts with
  | nil => rfl
  | cons text rest ih => rw [List.foldl_cons, read_of_checked h, ih]

/-- The first text that is not empty decides. -/
theorem foldl_read {m : Marking} (h : m.checked = false) (texts : List String) :
    texts.foldl read m = match texts.find? (· != "") with
      | some text => m.read text
      | none => m := by
  induction texts with
  | nil => rfl
  | cons text rest ih =>
    rw [List.foldl_cons]
    by_cases hempty : text = ""
    · rw [hempty, read_empty, ih]
      rfl
    · have hread := read_of_unchecked h hempty
      have hchecked : (m.read text).checked = true := by rw [hread]
      rw [foldl_read_of_checked hchecked, List.find?_cons_of_pos (by simpa using hempty)]

end Marking

def ListItem.marking (item : ListItem) : Marking := ⟨item.preset, item.markerChecked⟩

/-- The text that a token has to be looked at. -/
def Token.readText? : Token → Option String
  | text content => some content
  | codeSpan content => some content
  | _ => none

namespace Draft

def markings (d : Draft) : List Marking := d.records.items.toList.map ListItem.marking

@[simp] theorem length_markings (d : Draft) : d.markings.length = d.records.items.size := by
  simp [markings]

theorem getElem?_markings (d : Draft) (i : Nat) :
    d.markings[i]? = d.records.items[i]?.map ListItem.marking := by
  simp [markings]

/-- The markings after the innermost open item has read a text. -/
def markingsAfter (d : Draft) (text : String) : List Marking :=
  match d.openItem? with
  | some (i, _) => d.markings.modify i (·.read text)
  | none => d.markings

theorem KeepsContent.markings {d next : Draft} (h : d.KeepsContent next) :
    next.markings = d.markings := by
  simp only [Draft.markings, h.items]

/-- An item whose first text has been looked at reads no other. -/
theorem markings_modify_of_checked {d : Draft} {i : Nat} {item : ListItem}
    (hitem : d.records.items[i]? = some item) (hchecked : item.markerChecked = true)
    (text : String) : d.markings.modify i (·.read text) = d.markings := by
  apply List.ext_getElem?
  intro j
  rw [List.getElem?_modify]
  by_cases hij : i = j
  · have hread := Marking.read_of_checked (m := item.marking) hchecked text
    simp [← hij, getElem?_markings, hitem, hread]
  · simp [hij]

theorem markings_takeMarker (d : Draft) {text : String} (h : text ≠ "") :
    (d.takeMarker text).1.markings = d.markingsAfter text := by
  rw [takeMarker, markingsAfter]
  cases hopen : d.openItem? with
  | none => rfl
  | some entry =>
    obtain ⟨i, item⟩ := entry
    obtain ⟨index, rest, -, hat⟩ := openItem?_eq_some hopen
    have hitem := (itemAt?_eq_some hat).2
    simp only
    split
    · rename_i hchecked
      exact (markings_modify_of_checked hitem hchecked text).symm
    · rename_i hchecked
      have hunchecked : item.marking.checked = false := Bool.eq_false_iff.mpr hchecked
      have hread := Marking.read_of_unchecked hunchecked h
      split
      · rename_i stripped hstrip
        refine map_modifyItem ListItem.marking d i fun found hfound => ?_
        rw [hitem] at hfound
        cases hfound
        rw [hread, hstrip]
        rfl
      · rename_i hstrip
        refine map_modifyItem ListItem.marking d i fun found hfound => ?_
        rw [hitem] at hfound
        cases hfound
        rw [hread, hstrip]
        rfl

theorem markings_insertStyled (d : Draft) (text : String) :
    (d.insertStyled text).markings = d.markings := by
  rw [insertStyled]
  split <;> rfl

theorem markings_insertLeaf (d : Draft) (text : String) :
    (d.insertLeaf text).markings = d.markingsAfter text := by
  by_cases h : text = ""
  · rw [h, insertLeaf_empty, markingsAfter]
    split
    · have hread : (fun m : Marking => m.read "") = id := funext Marking.read_empty
      rw [hread, List.modify_id]
    · rfl
  · rw [d.insertLeaf_eq h]
    split
    · exact d.markings_takeMarker h
    · rw [markings_insertStyled, d.markings_takeMarker h]

theorem markings_closeParagraph (d : Draft) : d.closeParagraph.markings = d.markings :=
  map_closeParagraph ListItem.marking (fun _ _ => rfl) d

theorem markings_closeItem (d : Draft) : d.closeItem.markings = d.markings :=
  map_closeItem ListItem.marking (fun _ _ => rfl) d

/-- An item is opened with the glyphs of its list, and nothing of it has been looked at. -/
theorem markings_openItem {d next : Draft} (h : d.openItem = .ok next) :
    ∃ list outer, d.lists = list :: outer ∧
      next.markings = d.markings ++ [⟨list.kind.preset, false⟩] := by
  rw [openItem.eq_def] at h
  split at h
  · cases h
  · rename_i list outer hlists
    cases h
    refine ⟨list, outer, hlists, ?_⟩
    simp only [markings, addItem, record, Array.toList_push, List.map_append]
    split <;> rfl

/-- Of the tokens other than the opening of an item, only texts touch a marking. -/
theorem markings_step {d next : Draft} {t : Token} (ht : t.IsAtom) (hitem : t ≠ .openItem)
    (hs : d.step t = .ok next) :
    next.markings = match t.readText? with
      | some text => d.markingsAfter text
      | none => d.markings := by
  cases t with
  | inline children => exact ht.elim
  | text content => cases hs; exact d.markings_insertLeaf content
  | codeSpan content =>
    cases hs
    exact markings_insertLeaf (d.openFormatting { code := some true }) content
  | openMark mark => cases hs; rfl
  | closeMark mark => cases hs; rfl
  | openLink target =>
    cases hs
    simp only [openLink]
    split
    · split <;> rfl
    · rfl
  | closeLink => cases hs; rfl
  | softBreak => cases hs; rfl
  | hardBreak => cases hs; rfl
  | openHeading tag => cases hs; exact (d.keepsContent_openHeading tag).markings
  | closeHeading => cases hs; exact d.keepsContent_closeHeading.markings
  | openParagraph => cases hs; exact d.keepsContent_openParagraph.markings
  | closeParagraph => cases hs; exact d.markings_closeParagraph
  | openList kind => cases hs; rfl
  | closeList kind => cases hs; exact d.keepsContent_closeList.markings
  | openItem => exact absurd rfl hitem
  | closeItem => cases hs; exact d.markings_closeItem
  | codeBlock content info => cases hs; exact (d.keepsContent_insertCodeBlock content info).markings
  | rule => cases hs; exact d.keepsContent_insertRule.markings
  | skipped type children => cases hs; rfl
  | malformed type words => cases hs

/-- An item is recorded when it is opened. -/
theorem size_items_step {d next : Draft} {t : Token} (ht : t.IsAtom) (hitem : t ≠ .openItem)
    (hs : d.step t = .ok next) : next.records.items.size = d.records.items.size := by
  rw [← length_markings, ← length_markings, markings_step ht hitem hs]
  split
  · rw [markingsAfter]
    split
    · rw [List.length_modify]
    · rfl
  · rfl

end Draft
end MarkdownEdits
