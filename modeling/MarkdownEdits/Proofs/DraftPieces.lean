import MarkdownEdits.Proofs.DocumentReplay
import MarkdownEdits.Proofs.DraftFrames
import MarkdownEdits.Proofs.TokenRuns

/-!
# The pieces that a draft emits

Every operation on a draft lays pieces from the cursor on and moves the cursor to their end. A table
is always followed by a line end, so between two tokens the last insertion is a text that stands
at the end of the document.
-/
namespace MarkdownEdits

/-- The text of a code block as it stands in its table. -/
def Token.codeText? : Token → Option String
  | .codeBlock content _ => some (dropLineEnd content)
  | _ => none

def Token.codeTexts (tokens : List Token) : List String :=
  (Token.atomsOf tokens).filterMap Token.codeText?

/-- The piece of a text, which is none if the text is empty. -/
def Piece.ofText (text : String) : List Piece := if text = "" then [] else [.text text]

namespace Draft

/-- The second draft has the insertions of the first one, and then those that lay pieces from the
cursor on. The last piece is no table. -/
structure Emits (d : Draft) (pieces : List Piece) (next : Draft) : Prop where
  insertions : next.insertions.toList = d.insertions.toList ++ Piece.layOut d.tab d.cursor pieces
  cursor : next.cursor = d.cursor + Piece.width pieces
  tab : next.tab = d.tab
  proper : ∀ p ∈ pieces, p.IsProper
  last : ∀ p ∈ pieces.getLast?, p.cellText? = none

/-- A draft that differs in neither insertions nor cursor. -/
theorem Emits.of_same {d next : Draft} (hi : next.insertions = d.insertions)
    (hc : next.cursor = d.cursor) (ht : next.tab = d.tab) : d.Emits [] next where
  insertions := by simp [hi, Piece.layOut]
  cursor := by simp [hc]
  tab := ht
  proper := by simp
  last := by simp

theorem Emits.insertions_eq {d next : Draft} (h : d.Emits [] next) :
    next.insertions = d.insertions :=
  Array.toList_inj.mp (by simpa [Piece.layOut] using h.insertions)

/-- Proper pieces without units are none. -/
theorem Emits.nil_of_unitsOf {d next : Draft} {pieces : List Piece} (h : d.Emits pieces next)
    (hunits : Piece.unitsOf pieces = []) : d.Emits [] next := by
  cases pieces with
  | nil => exact h
  | cons p ps =>
    rw [Piece.unitsOf_cons, List.append_eq_nil_iff] at hunits
    exact absurd hunits.1 (Piece.units_ne_nil (h.proper p List.mem_cons_self))

theorem Emits.refl (d : Draft) : d.Emits [] d := .of_same rfl rfl rfl

theorem Emits.trans {d e f : Draft} {ps qs : List Piece} (h : d.Emits ps e) (h' : e.Emits qs f) :
    d.Emits (ps ++ qs) f where
  insertions := by
    rw [h'.insertions, h.insertions, h.cursor, h.tab, Piece.layOut_append, List.append_assoc]
  cursor := by
    rw [h'.cursor, h.cursor, Piece.width_append, Int.add_assoc]
  tab := h'.tab.trans h.tab
  proper := by
    intro p hp
    rcases List.mem_append.mp hp with hp | hp
    · exact h.proper p hp
    · exact h'.proper p hp
  last := by
    intro p hp
    rw [List.getLast?_append] at hp
    cases hq : qs.getLast? with
    | none => exact h.last p (by simpa [hq] using hp)
    | some q => exact h'.last p (by simpa [hq] using hp)

/-- A further change that touches neither insertions nor cursor. -/
theorem Emits.then_same {d e f : Draft} {ps : List Piece} (h : d.Emits ps e)
    (hi : f.insertions = e.insertions) (hc : f.cursor = e.cursor) (ht : f.tab = e.tab) :
    d.Emits ps f := by
  simpa using h.trans (.of_same hi hc ht)

/-- An earlier change that touches neither insertions nor cursor. -/
theorem Emits.after_same {d e f : Draft} {ps : List Piece} (h : e.Emits ps f)
    (hi : e.insertions = d.insertions) (hc : e.cursor = d.cursor) (ht : e.tab = d.tab) :
    d.Emits ps f := by
  simpa using (Emits.of_same hi hc ht).trans h

theorem Emits.cursor_le {d next : Draft} {ps : List Piece} (h : d.Emits ps next) :
    d.cursor ≤ next.cursor := by
  have hc := h.cursor
  rw [Piece.width] at hc
  omega

/-! ## Operations -/

theorem emits_insertText (d : Draft) {text : String} (h : text ≠ "") :
    d.Emits [.text text] (d.insertText text) where
  insertions := by simp [Piece.layOut, Piece.insertions, location]
  cursor := by simp [Piece.units]
  tab := rfl
  proper := by simpa [Piece.IsProper] using h
  last := by simp [Piece.cellText?]

/-- The piece that ends the line, if the line is not ended. -/
def lineEnd (d : Draft) : List Piece := if d.endsWithNewline then [] else [.text "\n"]

theorem emits_endLine (d : Draft) : d.Emits d.lineEnd d.endLine := by
  rw [lineEnd, endLine]
  split
  · exact .refl d
  · exact d.emits_insertText (by decide)

theorem endsWithNewline_congr {d e : Draft} (h : e.insertions = d.insertions) :
    e.endsWithNewline = d.endsWithNewline := by
  simp only [endsWithNewline, h]

theorem lineEnd_congr {d e : Draft} (h : e.insertions = d.insertions) : e.lineEnd = d.lineEnd := by
  simp only [lineEnd, endsWithNewline_congr h]

theorem emits_insertStyled (d : Draft) {text : String} (h : text ≠ "") :
    d.Emits [.text text] (d.insertStyled text) := by
  rw [insertStyled]
  split
  · exact (d.emits_insertText h).then_same rfl rfl rfl
  · exact d.emits_insertText h

theorem emits_takeMarker (d : Draft) (text : String) : d.Emits [] (d.takeMarker text).1 := by
  obtain hsame | ⟨i, f, -, hmodified⟩ := d.takeMarker_fst text
  · rw [hsame]
    exact .refl d
  · rw [hmodified]
    exact .of_same rfl rfl rfl

theorem emits_insertLeaf (d : Draft) (text : String) :
    d.Emits (Piece.ofText (d.leafText text)) (d.insertLeaf text) := by
  by_cases h : text = ""
  · simpa [h, Piece.ofText] using Emits.refl d
  · have hmarker := d.emits_takeMarker text
    rw [d.insertLeaf_eq h, Piece.ofText]
    split
    · exact hmarker
    · rename_i hrest
      exact hmarker.trans (emits_insertStyled _ hrest)

theorem emits_insertCode (d : Draft) (text : String) :
    d.Emits (Piece.ofText (d.leafText text)) (d.insertCode text) := by
  have hopened : (d.openFormatting { code := some true }).openItem? = d.openItem? := rfl
  have h := emits_insertLeaf (d.openFormatting { code := some true }) text
  rw [leafText_congr hopened] at h
  have hleaf : d.Emits (Piece.ofText (d.leafText text))
      ((d.openFormatting { code := some true }).insertLeaf text) := h.after_same rfl rfl rfl
  exact hleaf.then_same rfl rfl rfl

theorem emits_openLink (d : Draft) (target : Option String) : d.Emits [] (d.openLink target) := by
  simp only [openLink]
  split
  · split <;> exact .of_same rfl rfl rfl
  · exact .refl d

theorem emits_openHeading (d : Draft) (tag : String) : d.Emits [] (d.openHeading tag) := by
  rw [openHeading]
  split <;> exact .of_same rfl rfl rfl

/-- A heading that is open is followed by a line end. -/
theorem emits_closeHeading (d : Draft) :
    d.Emits (if d.headingLevel.isSome && d.paragraphStart.isSome then [.text "\n"] else [])
      d.closeHeading := by
  rw [closeHeading]
  cases d.headingLevel with
  | none => exact .of_same rfl rfl rfl
  | some level =>
    cases d.paragraphStart with
    | none => exact .of_same rfl rfl rfl
    | some start => exact (emits_insertText d (by decide)).then_same rfl rfl rfl

theorem emits_openParagraph (d : Draft) : d.Emits [] d.openParagraph := by
  rw [openParagraph]
  split <;> exact .of_same rfl rfl rfl

theorem emits_extendOpenItem (d : Draft) : d.Emits [] d.extendOpenItem := by
  rw [extendOpenItem]
  split
  · split <;> exact .of_same rfl rfl rfl
  · exact .refl d

theorem emits_recordParagraph (d : Draft) (start : Option Int) :
    d.Emits [] (d.recordParagraph start) := by
  simp only [recordParagraph]
  split
  · split <;> exact .of_same rfl rfl rfl
  · exact .refl d

theorem emits_closeParagraph (d : Draft) : d.Emits d.lineEnd d.closeParagraph := by
  have h := (d.emits_endLine.trans (emits_extendOpenItem _)).trans
    (emits_recordParagraph _ d.paragraphStart)
  simp only [List.append_nil] at h
  exact h.then_same rfl rfl rfl

theorem emits_recordListTail (d : Draft) : d.Emits [] d.recordListTail := by
  rw [recordListTail]
  split
  · exact .of_same rfl rfl rfl
  · exact .refl d

theorem emits_closeList (d : Draft) : d.Emits [] d.closeList := by
  rw [closeList]
  split
  · exact .of_same rfl rfl rfl
  · split
    · exact (emits_recordListTail _).after_same rfl rfl rfl
    · exact .of_same rfl rfl rfl

/-- An item is opened behind one indent for each list around its own. -/
theorem emits_openItem {d next : Draft} (h : d.openItem = .ok next) :
    ∃ list outer, d.lists = list :: outer ∧
      d.Emits (Piece.ofText (String.ofList (List.replicate list.level listIndent))) next := by
  rw [openItem] at h
  split at h
  · cases h
  · rename_i list outer hlists
    refine ⟨list, outer, hlists, ?_⟩
    cases h
    split
    · rename_i hlevel
      have hindent : String.ofList (List.replicate list.level listIndent) ≠ "" := by
        intro hempty
        have hlength := congrArg String.toList hempty
        simp only [String.toList_ofList, String.toList_empty, List.replicate_eq_nil_iff] at hlength
        omega
      simp only [Piece.ofText, hindent, ↓reduceIte]
      exact (d.emits_insertText hindent).then_same rfl rfl rfl
    · rename_i hlevel
      have hzero : list.level = 0 := by omega
      simp only [hzero, Piece.ofText, List.replicate_zero, String.ofList_nil, ↓reduceIte]
      exact .of_same rfl rfl rfl

theorem insertions_endItem (d : Draft) (index : Int) :
    (d.endItem index).insertions = d.insertions := by
  rw [endItem]
  split
  · split <;> rfl
  · rfl

theorem emits_endItem (d : Draft) (index : Int) : d.Emits [] (d.endItem index) := by
  rw [endItem]
  split
  · split <;> exact .of_same rfl rfl rfl
  · exact .refl d

theorem emits_closeItem (d : Draft) :
    d.Emits (if d.openItems.isEmpty then [] else d.lineEnd) d.closeItem := by
  rw [closeItem]
  cases d.openItems with
  | nil => exact .of_same rfl rfl rfl
  | cons index rest =>
    have hended : d.Emits [] { d.endItem index with openItems := rest } :=
      (d.emits_endItem index).then_same rfl rfl rfl
    have hsame : ({ d.endItem index with openItems := rest } : Draft).insertions =
        d.insertions := insertions_endItem d index
    rw [List.isEmpty_cons, if_neg Bool.false_ne_true, ← lineEnd_congr hsame]
    exact hended.trans (emits_endLine _)

theorem emits_insertRule (d : Draft) : d.Emits (d.lineEnd ++ [.text "\n"]) d.insertRule :=
  (d.emits_endLine.trans (emits_insertText _ (by decide))).then_same rfl rfl rfl

/-- The piece that ends the line in front of a block, where there is a line to end. -/
def blockStart (d : Draft) : List Piece := if d.insertions.isEmpty then [] else d.lineEnd

theorem emits_beginBlock (d : Draft) : d.Emits d.blockStart d.beginBlock := by
  rw [blockStart, beginBlock]
  split
  · exact .refl d
  · exact d.emits_endLine

theorem emits_insertCodeBlock (d : Draft) (content info : String) :
    d.Emits (d.blockStart ++ [.table (dropLineEnd content), .text "\n"])
      (d.insertCodeBlock content info) := by
  have hbefore := d.emits_beginBlock
  generalize d.blockStart = ps at hbefore
  refine hbefore.trans ?_
  have hwidth := Piece.length_units_table (dropLineEnd content)
  constructor
  · simp only [Piece.layOut, Piece.insertions, List.append_nil, hwidth, insertCodeBlock]
    by_cases h : dropLineEnd content = ""
    · simp [h, insertTable, insertText, location, record, Int.add_assoc]
    · simp [h, insertTable, insertText, location, record, Int.add_assoc]
  · simp only [Piece.width_cons, hwidth, Piece.width_nil, insertCodeBlock, cursor_insertText]
    simp only [Piece.units, DocumentUnit.length_ofText]
    omega
  · simp only [insertCodeBlock]
    split <;> rfl
  · simp [Piece.IsProper]
  · simp [Piece.cellText?]

/-- An atom emits the text of a table exactly if it is a code block. -/
theorem emits_step {d next : Draft} {t : Token} (ht : t.IsAtom) (h : d.step t = .ok next) :
    ∃ pieces, d.Emits pieces next ∧ pieces.filterMap Piece.cellText? = t.codeText?.toList := by
  have hofText (text : String) : (Piece.ofText text).filterMap Piece.cellText? = [] := by
    rw [Piece.ofText]
    split <;> rfl
  have hlineEnd : d.lineEnd.filterMap Piece.cellText? = [] := by
    rw [lineEnd]
    split <;> rfl
  cases t with
  | inline children => exact ht.elim
  | text content => cases h; exact ⟨_, emits_insertLeaf d content, hofText _⟩
  | codeSpan content => cases h; exact ⟨_, emits_insertCode d content, hofText _⟩
  | openMark mark => cases h; exact ⟨_, .of_same rfl rfl rfl, rfl⟩
  | closeMark mark => cases h; exact ⟨_, .of_same rfl rfl rfl, rfl⟩
  | openLink target => cases h; exact ⟨_, emits_openLink d target, rfl⟩
  | closeLink => cases h; exact ⟨_, .of_same rfl rfl rfl, rfl⟩
  | softBreak => cases h; exact ⟨_, emits_insertText d (by decide), rfl⟩
  | hardBreak => cases h; exact ⟨_, emits_insertText d (by decide), rfl⟩
  | openHeading tag => cases h; exact ⟨_, emits_openHeading d tag, rfl⟩
  | closeHeading => cases h; exact ⟨_, emits_closeHeading d, by split <;> rfl⟩
  | openParagraph => cases h; exact ⟨_, emits_openParagraph d, rfl⟩
  | closeParagraph => cases h; exact ⟨_, emits_closeParagraph d, hlineEnd⟩
  | openList kind => cases h; exact ⟨_, .of_same rfl rfl rfl, rfl⟩
  | closeList kind => cases h; exact ⟨_, emits_closeList d, rfl⟩
  | openItem =>
    obtain ⟨list, outer, _, hemits⟩ := emits_openItem h
    exact ⟨_, hemits, hofText _⟩
  | closeItem =>
    cases h
    refine ⟨_, emits_closeItem d, ?_⟩
    split
    · rfl
    · exact hlineEnd
  | codeBlock content info =>
    cases h
    refine ⟨_, emits_insertCodeBlock d content info, ?_⟩
    have hstart : d.blockStart.filterMap Piece.cellText? = [] := by
      rw [blockStart]
      split
      · rfl
      · exact hlineEnd
    rw [List.filterMap_append, hstart]
    rfl
  | rule =>
    cases h
    refine ⟨_, emits_insertRule d, ?_⟩
    rw [List.filterMap_append, hlineEnd]
    rfl
  | skipped type children => cases h; exact ⟨_, .refl d, rfl⟩
  | malformed type words => cases h

/-- A run emits the texts of the code blocks of its stream, each in a table of its own. -/
theorem emits_steps {d final : Draft} {tokens : List Token} (h : d.steps tokens = .ok final) :
    ∃ pieces, d.Emits pieces final ∧
      pieces.filterMap Piece.cellText? = Token.codeTexts tokens := by
  rw [← steps_atomsOf] at h
  have hatoms := Token.isAtom_of_mem_atomsOf tokens
  rw [Token.codeTexts]
  generalize Token.atomsOf tokens = ts at h hatoms ⊢
  induction ts generalizing d with
  | nil =>
    rw [steps_nil] at h
    cases h
    exact ⟨[], .refl _, rfl⟩
  | cons t ts ih =>
    obtain ⟨next, ht, hts⟩ := steps_cons_eq_ok.mp h
    obtain ⟨ps, hps, htext⟩ := emits_step (hatoms t List.mem_cons_self) ht
    obtain ⟨qs, hqs, htexts⟩ := ih hts (fun u hu => hatoms u (List.mem_cons_of_mem _ hu))
    refine ⟨ps ++ qs, hps.trans hqs, ?_⟩
    rw [List.filterMap_append, htext, htexts]
    cases hcode : t.codeText? with
    | none => simp [hcode]
    | some text => simp [hcode]

end Draft
end MarkdownEdits
