import MarkdownEdits.Proofs.DraftDocuments

/-!
# Parts of a document

A span cuts a run of units out of a document, and a line starts at the first index and behind each
line end. What a draft has inserted at the end of its document stays in place when more is inserted
behind it.
-/
namespace MarkdownEdits

/-- The unit by which lines of a list are indented. -/
def DocumentUnit.tab : DocumentUnit := .code 9

namespace Document

/-- The units of a span that lies in the document. -/
def cut? (d : Document) (span : Span) : Option (List DocumentUnit) :=
  if d.first ≤ span.start ∧ span.start ≤ span.stop ∧ span.stop ≤ d.stop then
    some ((d.units.drop (span.start - d.first).toNat).take (span.stop - span.start).toNat)
  else none

/-- A line starts at the index, be it the first one of the document or one behind a line end. -/
def StartsLine (d : Document) (index : Int) : Prop :=
  index = d.first ∨ d.unitAt? (index - 1) = some .newline

instance (d : Document) (index : Int) : Decidable (d.StartsLine index) :=
  inferInstanceAs (Decidable (_ ∨ _))

/-- How many tabs stand in a row from an index on. -/
def tabsAt (d : Document) (index : Int) : Nat :=
  ((d.units.drop (index - d.first).toNat).takeWhile (· == .tab)).length

@[simp] theorem append_append (d : Document) (xs ys : List DocumentUnit) :
    (d.append xs).append ys = d.append (xs ++ ys) := by
  simp [append]

/-- Units that are inserted at the end are cut out by their span, whatever comes behind them. -/
theorem cut?_append (d : Document) (units behind : List DocumentUnit) :
    (d.append (units ++ behind)).cut? ⟨d.stop, d.stop + units.length⟩ = some units := by
  have hbounds : d.first ≤ d.stop ∧ d.stop ≤ d.stop + units.length ∧
      d.stop + units.length ≤ (d.append (units ++ behind)).stop := by
    simp only [stop_append, List.length_append]
    simp only [stop]
    omega
  have hstart : (d.stop - d.first).toNat = d.units.length := by
    simp only [stop]
    omega
  have hwidth : (d.stop + units.length - d.stop).toNat = units.length := by omega
  simp only [cut?, first_append, if_pos hbounds, hstart, hwidth, units_append, List.drop_left,
    List.take_left]

theorem unitAt?_stop_append (d : Document) (u : DocumentUnit) (behind : List DocumentUnit) :
    (d.append (u :: behind)).unitAt? d.stop = some u := by
  have hfirst : d.first ≤ d.stop := by
    simp only [stop]
    omega
  have hstart : (d.stop - d.first).toNat = d.units.length := by
    simp only [stop]
    omega
  rw [unitAt?, first_append, if_pos hfirst, hstart, units_append,
    List.getElem?_append_right (Nat.le_refl _), Nat.sub_self, List.getElem?_cons_zero]

/-- A line starts at the end of a document that is empty or ends a line. -/
theorem startsLine_stop_append_iff (d : Document) (behind : List DocumentUnit) :
    (d.append behind).StartsLine d.stop ↔
      d.units = [] ∨ d.units.getLast? = some .newline := by
  rw [StartsLine, first_append]
  refine or_congr ?_ ?_
  · rw [← List.length_eq_zero_iff, stop]
    omega
  · rcases List.eq_nil_or_concat d.units with hnil | ⟨init, u, hunits⟩
    · have hout : ¬d.first ≤ d.stop - 1 := by
        simp only [stop, hnil, List.length_nil]
        omega
      simp [unitAt?, hout, hnil]
    · have hlast : d.unitAt? (d.stop - 1) = some u := by
        rw [unitAt?_pred_stop, hunits, List.concat_eq_append, List.getLast?_concat]
      rw [unitAt?_append hlast, hunits, List.concat_eq_append, List.getLast?_concat]

/-- Tabs are counted up to the first unit that is none. -/
theorem tabsAt_stop_append (d : Document) (n : Nat) {u : DocumentUnit} (hu : u ≠ .tab)
    (behind : List DocumentUnit) :
    (d.append (List.replicate n .tab ++ u :: behind)).tabsAt d.stop = n := by
  have hstart : (d.stop - d.first).toNat = d.units.length := by
    simp only [stop]
    omega
  have htabs : ∀ x ∈ List.replicate n DocumentUnit.tab, (x == .tab) = true := by
    intro x hx
    rw [(List.mem_replicate.mp hx).2, beq_self_eq_true]
  have hother : (u == .tab) = false := beq_eq_false_iff_ne.mpr hu
  rw [tabsAt, first_append, hstart, units_append, List.drop_left,
    List.takeWhile_append_of_pos htabs, List.takeWhile_cons, hother]
  simp

end Document

namespace Draft

/-- Something has been inserted since the first index, and its last line is not ended. -/
def LineOpen (d : Draft) (first : Int) : Prop := first < d.cursor ∧ d.endsWithNewline = false

/-- What inserts nothing leaves the line as it is. -/
theorem Emits.lineOpen_iff {d next : Draft} (h : d.Emits [] next) (first : Int) :
    next.LineOpen first ↔ d.LineOpen first := by
  rw [LineOpen, LineOpen, h.cursor, Piece.width_nil, Int.add_zero,
    endsWithNewline_congr h.insertions_eq]

/-- Behind a text the line is ended exactly if the text ends one. -/
theorem Yields.endsWithNewline_of_emits {d e : Draft} {document : Document} {pieces : List Piece}
    {text : String} (h : d.Yields document) (he : d.Emits pieces e)
    (hunits : Piece.unitsOf pieces = DocumentUnit.ofText text) (htext : text ≠ "") :
    e.endsWithNewline = endsLine text := by
  have hne : DocumentUnit.ofText text ≠ [] := DocumentUnit.ofText_ne_nil htext
  rw [Bool.eq_iff_iff, (h.emits he).newline, Document.units_append, hunits,
    List.getLast?_append, List.getLast?_eq_some_getLast hne, Option.some_or,
    ← List.getLast?_eq_some_getLast hne, DocumentUnit.getLast?_ofText]

/-- A text leaves its own end behind, and no text the line as it is. -/
theorem Yields.lineOpen_of_emits {d e : Draft} {document : Document} {pieces : List Piece}
    {text : String} (h : d.Yields document) (he : d.Emits pieces e)
    (hunits : Piece.unitsOf pieces = DocumentUnit.ofText text) :
    e.LineOpen document.first ↔
      if text = "" then d.LineOpen document.first else endsLine text = false := by
  split
  · rename_i htext
    rw [htext, DocumentUnit.ofText_empty] at hunits
    exact (he.nil_of_unitsOf hunits).lineOpen_iff _
  · rename_i htext
    have hinserted : document.first < e.cursor := by
      have hlength := Utf16.length_pos htext
      rw [he.cursor, Piece.width, hunits, DocumentUnit.length_ofText, h.cursor, Document.stop]
      omega
    rw [LineOpen, h.endsWithNewline_of_emits he hunits htext]
    exact and_iff_right hinserted

/-- A line starts at the cursor exactly if none is open there. -/
theorem Yields.startsLine_iff {d : Draft} {document : Document} (h : d.Yields document)
    (behind : List DocumentUnit) :
    (document.append behind).StartsLine d.cursor ↔ ¬d.LineOpen document.first := by
  have hempty : ¬document.first < document.stop ↔ document.units = [] := by
    rw [← List.length_eq_zero_iff, Document.stop]
    omega
  rw [h.cursor, Document.startsLine_stop_append_iff, LineOpen, h.cursor, ← h.newline,
    Classical.not_and_iff_not_or_not, hempty, Bool.not_eq_false]

end Draft
end MarkdownEdits
