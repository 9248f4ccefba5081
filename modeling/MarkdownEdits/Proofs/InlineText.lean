import MarkdownEdits.Proofs.ItemMarkings
import MarkdownEdits.Proofs.WellNestedRuns

/-!
# Texts of inline content

Inline content inserts the texts of its leaves, a space for a soft break and a line end for a hard
one. Only in a list item whose first text is still to come something is left out, the task marker
in front of that text.
-/
namespace MarkdownEdits

theorem DocumentUnit.ofText_append (s t : String) : ofText (s ++ t) = ofText s ++ ofText t := by
  simp [ofText, Utf16.units]

@[simp] theorem Piece.unitsOf_ofText (text : String) :
    unitsOf (ofText text) = DocumentUnit.ofText text := by
  rw [ofText]
  split
  · rename_i h
    rw [h]
    rfl
  · simp [units]

theorem Marking.checked_read (m : Marking) (text : String) :
    (m.read text).checked = (m.checked || text != "") := by
  rw [read]
  cases hchecked : m.checked with
  | true => simpa using hchecked
  | false => by_cases htext : text = "" <;> simp [hchecked, htext]

namespace Token

/-- The text that a token of inline content stands for. -/
def renderedText : Token → String
  | text content => content
  | codeSpan content => content
  | softBreak => " "
  | hardBreak => "\n"
  | _ => ""

/-- The text that inline content stands for. -/
def rendered : List Token → String
  | [] => ""
  | t :: rest => t.renderedText ++ rendered rest

/-- The text that a token of inline content inserts, given whether a list item awaits its first
text. -/
def textIn (awaits : Bool) (t : Token) : String :=
  if awaits then (t.readText?.bind TaskMarkers.strip?).getD t.renderedText else t.renderedText

/-- Whether the item still awaits its first text behind a token. An empty text does not count. -/
def awaitsAfter (awaits : Bool) (t : Token) : Bool := awaits && t.readText?.all (· == "")

/-- The text that inline content inserts, given whether a list item awaits its first text. -/
def insertedText (awaits : Bool) : List Token → String
  | [] => ""
  | t :: rest => t.textIn awaits ++ insertedText (t.awaitsAfter awaits) rest

/-- Nothing is left out where no first text is awaited. -/
theorem insertedText_false (children : List Token) :
    insertedText false children = rendered children := by
  induction children with
  | nil => rfl
  | cons t rest ih =>
    have hafter : t.awaitsAfter false = false := rfl
    rw [insertedText, hafter, ih]
    rfl

end Token

namespace Draft

/-- Whether the innermost open item awaits its first text. -/
def awaitsText (d : Draft) : Bool := d.openItem?.any fun entry => !entry.2.markerChecked

theorem awaitsText_of_closed {d : Draft} (h : d.openItems = []) : d.awaitsText = false := by
  simp [awaitsText, openItem?, h]

theorem leafText_eq (d : Draft) (text : String) :
    d.leafText text = if d.awaitsText then (TaskMarkers.strip? text).getD text else text := by
  have hempty : TaskMarkers.strip? "" = none := rfl
  rw [leafText, awaitsText]
  cases d.openItem? with
  | none => rfl
  | some entry =>
    by_cases htext : text = ""
    · simp [htext, hempty]
    · cases hchecked : entry.2.markerChecked <;> simp [hchecked, htext]

/-- Whether a first text is awaited is read off the marking of the innermost open item. -/
theorem awaitsText_eq (d : Draft) :
    d.awaitsText = (d.openItems.head?.bind fun index =>
      (placeOf? d.markings.length index).bind (d.markings[·]?)).any (!·.checked) := by
  rw [awaitsText, openItem?]
  cases d.openItems with
  | nil => rfl
  | cons index rest =>
    simp only [itemAt?, length_markings, List.head?_cons, Option.bind_some]
    cases placeOf? d.records.items.size index with
    | none => rfl
    | some i =>
      simp only [Option.bind_some, getElem?_markings]
      cases d.records.items[i]? <;> rfl

theorem awaitsText_of_same {d next : Draft} (hopen : next.openItems = d.openItems)
    (hmarkings : next.markings = d.markings) : next.awaitsText = d.awaitsText := by
  rw [awaitsText_eq, awaitsText_eq, hopen, hmarkings]

/-- A text that is not empty is the first one. -/
theorem awaitsText_of_read {d next : Draft} {text : String} (hopen : next.openItems = d.openItems)
    (hmarkings : next.markings = d.markingsAfter text) :
    next.awaitsText = (d.awaitsText && text == "") := by
  rw [awaitsText_eq, awaitsText_eq, hopen, hmarkings, markingsAfter, openItem?]
  cases d.openItems with
  | nil => rfl
  | cons index rest =>
    simp only [itemAt?, List.head?_cons, Option.bind_some, length_markings]
    cases hplace : placeOf? d.records.items.size index with
    | none => simp [hplace]
    | some i =>
      simp only [Option.bind_some]
      cases hitem : d.records.items[i]? with
      | none => simp [hplace, getElem?_markings, hitem]
      | some item =>
        simp [hplace, getElem?_markings, hitem, Marking.checked_read, Bool.not_or, bne]

/-- A token of inline content inserts its text. -/
theorem emits_step_of_isInline {d next : Draft} {t : Token} (ht : t.IsInline)
    (hs : d.step t = .ok next) : d.Emits (Piece.ofText (t.textIn d.awaitsText)) next := by
  -- Most tokens stand for no text, and none of them is read by an item.
  have silent {pieces : List Piece} (hread : t.readText? = none) (he : d.Emits pieces next)
      (hpieces : pieces = Piece.ofText t.renderedText) :
      d.Emits (Piece.ofText (t.textIn d.awaitsText)) next := by
    rw [Token.textIn, hread, Option.bind_none, Option.getD_none, ite_self, ← hpieces]
    exact he
  cases t with
  | text content =>
    cases hs
    have he := d.emits_insertLeaf content
    rw [leafText_eq] at he
    exact he
  | codeSpan content =>
    cases hs
    have he := d.emits_insertCode content
    rw [leafText_eq] at he
    exact he
  | openMark mark => cases hs; exact silent rfl (.of_same rfl rfl rfl) rfl
  | closeMark mark => cases hs; exact silent rfl (.of_same rfl rfl rfl) rfl
  | openLink target => cases hs; exact silent rfl (d.emits_openLink target) rfl
  | closeLink => cases hs; exact silent rfl (.of_same rfl rfl rfl) rfl
  | softBreak => cases hs; exact silent rfl (d.emits_insertText (by decide)) rfl
  | hardBreak => cases hs; exact silent rfl (d.emits_insertText (by decide)) rfl
  | skipped type children => cases hs; exact silent rfl (.refl d) rfl
  | _ => exact ht.elim

theorem awaitsText_step_of_isInline {d next : Draft} {t : Token} (ht : t.IsInline)
    (hs : d.step t = .ok next) : next.awaitsText = t.awaitsAfter d.awaitsText := by
  have hitem : t ≠ .openItem := by
    rintro rfl
    exact ht
  have hopen : next.openItems = d.openItems := by
    have hitems := openItems_step ht.isAtom hs
    cases t <;> first | exact ht.elim | exact hitems
  have hmarkings := markings_step ht.isAtom hitem hs
  rw [Token.awaitsAfter]
  cases hread : t.readText? with
  | none =>
    rw [hread] at hmarkings
    simpa using awaitsText_of_same hopen hmarkings
  | some text =>
    rw [hread] at hmarkings
    simpa using awaitsText_of_read hopen hmarkings

/-- Inline content inserts its text, piece by piece. -/
theorem emits_steps_of_isInline {d final : Draft} {children : List Token}
    (h : ∀ t ∈ children, t.IsInline) (hs : d.steps children = .ok final) :
    ∃ pieces, d.Emits pieces final ∧
      Piece.unitsOf pieces = DocumentUnit.ofText (Token.insertedText d.awaitsText children) := by
  induction children generalizing d with
  | nil =>
    rw [steps_nil] at hs
    cases hs
    exact ⟨[], .refl _, rfl⟩
  | cons t rest ih =>
    obtain ⟨ht, hrest⟩ := List.forall_mem_cons.mp h
    obtain ⟨next, hnext, hfinal⟩ := steps_cons_eq_ok.mp hs
    obtain ⟨pieces, hpieces, hunits⟩ := ih hrest hfinal
    refine ⟨_, (emits_step_of_isInline ht hnext).trans hpieces, ?_⟩
    rw [Piece.unitsOf_append, Piece.unitsOf_ofText, hunits, awaitsText_step_of_isInline ht hnext,
      Token.insertedText, DocumentUnit.ofText_append]

end Draft
end MarkdownEdits
