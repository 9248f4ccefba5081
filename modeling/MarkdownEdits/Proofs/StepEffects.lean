import MarkdownEdits.Proofs.DraftPieces

/-!
# What one token does

Most tokens leave the open lists, the open block and the records of blocks alone. The few that do
not change one of them each, and the spans that they record run up to the cursor or come from an
item.
-/
namespace MarkdownEdits

/-- The open lists, the start of the open block, and what is recorded of blocks. -/
structure BlockState where
  lists : List OpenList
  paragraphStart : Option Int
  headingLevel : Option HeadingLevel
  headings : Array Heading
  paragraphs : Array Span
  listTails : Array Span
  codeBlocks : Array CodeBlock
  rules : Array Span

namespace Draft

def blockState (d : Draft) : BlockState where
  lists := d.lists
  paragraphStart := d.paragraphStart
  headingLevel := d.headingLevel
  headings := d.records.headings
  paragraphs := d.records.paragraphs
  listTails := d.records.listTails
  codeBlocks := d.records.codeBlocks
  rules := d.records.rules

/-! ## Operations that leave blocks alone -/

@[simp] theorem blockState_insertText (d : Draft) (text : String) :
    (d.insertText text).blockState = d.blockState := rfl

@[simp] theorem blockState_modifyItem (d : Draft) (i : Nat) (f : ListItem → ListItem) :
    (d.modifyItem i f).blockState = d.blockState := rfl

@[simp] theorem blockState_endLine (d : Draft) : d.endLine.blockState = d.blockState := by
  rw [endLine]
  split <;> rfl

@[simp] theorem blockState_beginBlock (d : Draft) : d.beginBlock.blockState = d.blockState := by
  rw [beginBlock]
  split
  · rfl
  · exact d.blockState_endLine

@[simp] theorem blockState_insertStyled (d : Draft) (text : String) :
    (d.insertStyled text).blockState = d.blockState := by
  rw [insertStyled]
  split <;> rfl

@[simp] theorem blockState_insertLeaf (d : Draft) (text : String) :
    (d.insertLeaf text).blockState = d.blockState := by
  by_cases h : text = ""
  · rw [h, insertLeaf_empty]
  · have hmarker : (d.takeMarker text).1.blockState = d.blockState := by
      obtain hsame | ⟨i, f, -, hmodified⟩ := d.takeMarker_fst text
      · rw [hsame]
      · rw [hmodified, blockState_modifyItem]
    rw [d.insertLeaf_eq h]
    split
    · exact hmarker
    · rw [blockState_insertStyled, hmarker]

@[simp] theorem blockState_insertCode (d : Draft) (text : String) :
    (d.insertCode text).blockState = d.blockState :=
  blockState_insertLeaf (d.openFormatting { code := some true }) text

@[simp] theorem blockState_openLink (d : Draft) (target : Option String) :
    (d.openLink target).blockState = d.blockState := by
  simp only [openLink]
  split
  · split <;> rfl
  · rfl

@[simp] theorem blockState_extendOpenItem (d : Draft) :
    d.extendOpenItem.blockState = d.blockState := by
  rw [extendOpenItem]
  split
  · split <;> rfl
  · rfl

theorem blockState_openItem {d next : Draft} (h : d.openItem = .ok next) :
    next.blockState = d.blockState := by
  rw [openItem.eq_def] at h
  split at h
  · cases h
  · cases h
    split <;> rfl

@[simp] theorem blockState_endItem (d : Draft) (index : Int) :
    (d.endItem index).blockState = d.blockState := by
  rw [endItem]
  split
  · split <;> rfl
  · rfl

@[simp] theorem blockState_closeItem (d : Draft) : d.closeItem.blockState = d.blockState := by
  rw [closeItem.eq_def]
  split
  · rfl
  · rename_i index rest _
    rw [blockState_endLine]
    exact d.blockState_endItem index

/-! ## Operations on blocks -/

/-- What a token adds to the records of spans, and where it lets a block start. -/
structure StepsRecords (d : Draft) (t : Token) (next : Draft) : Prop where
  texts : next.records.styledTexts = d.records.styledTexts ∨
    ∃ formatting, d.cursor < next.cursor ∧ next.records.styledTexts =
      d.records.styledTexts.push ⟨⟨d.cursor, next.cursor⟩, formatting⟩
  headings : next.records.headings = d.records.headings ∨
    t = .closeHeading ∧ ∃ start style, d.paragraphStart = some start ∧
      next.records.headings = d.records.headings.push ⟨⟨start, d.cursor⟩, some style⟩
  paragraphs : next.records.paragraphs = d.records.paragraphs ∨
    t = .closeParagraph ∧ d.lists = [] ∧ ∃ start, d.paragraphStart = some start ∧
      next.records.paragraphs = d.records.paragraphs.push ⟨start, next.cursor⟩
  listTails : next.records.listTails = d.records.listTails ∨
    ((∃ kind, t = .closeList kind) ∧ next.lists = []) ∧
      ∃ item ∈ d.records.items.toList, ∃ span, item.span? = some span ∧
        next.records.listTails = d.records.listTails.push span
  codeBlocks : next.records.codeBlocks = d.records.codeBlocks ∨
    ∃ block : CodeBlock, d.cursor ≤ block.insertedAt ∧
      block.text.start = block.insertedAt + cellContentOffset ∧
        block.text.start ≤ block.text.stop ∧ block.text.stop < next.cursor ∧
          next.records.codeBlocks = d.records.codeBlocks.push block
  rules : next.records.rules = d.records.rules ∨
    d.cursor < next.cursor ∧
      next.records.rules = d.records.rules.push ⟨next.cursor - 1, next.cursor⟩
  paragraphStart : next.paragraphStart = d.paragraphStart ∨ next.paragraphStart = none ∨
    next.paragraphStart = some d.cursor

/-- A token that leaves blocks alone records a text at most. -/
private theorem stepsRecords_of_blockState {d next : Draft} {t : Token}
    (h : next.blockState = d.blockState)
    (ht : next.records.styledTexts = d.records.styledTexts ∨
      ∃ formatting, d.cursor < next.cursor ∧ next.records.styledTexts =
        d.records.styledTexts.push ⟨⟨d.cursor, next.cursor⟩, formatting⟩) :
    d.StepsRecords t next where
  texts := ht
  headings := .inl (congrArg BlockState.headings h)
  paragraphs := .inl (congrArg BlockState.paragraphs h)
  listTails := .inl (congrArg BlockState.listTails h)
  codeBlocks := .inl (congrArg BlockState.codeBlocks h)
  rules := .inl (congrArg BlockState.rules h)
  paragraphStart := .inl (congrArg BlockState.paragraphStart h)

/-- An open heading is recorded up to the cursor, and its line is ended. -/
theorem closeHeading_of_open {d : Draft} {level : HeadingLevel} {start : Int}
    (hlevel : d.headingLevel = some level) (hstart : d.paragraphStart = some start) :
    ∃ style : NamedStyle, style.name ≠ "" ∧
      d.closeHeading.records =
        { d.records with headings := d.records.headings.push ⟨⟨start, d.cursor⟩, some style⟩ } ∧
      d.closeHeading.paragraphStart = none := by
  rw [closeHeading]
  rw [hlevel, hstart]
  refine ⟨_, ?_, rfl, rfl⟩
  split
  · decide
  · cases level <;> decide

theorem closeHeading_of_none {d : Draft} (h : d.headingLevel = none ∨ d.paragraphStart = none) :
    d.closeHeading = d.warn .strayHeadingClose := by
  rw [closeHeading.eq_def]
  rcases h with h | h
  · rw [h]
  · rw [h]
    cases d.headingLevel <;> rfl

private theorem stepsRecords_closeHeading (d : Draft) :
    d.StepsRecords .closeHeading d.closeHeading := by
  cases hlevel : d.headingLevel with
  | none =>
    rw [closeHeading_of_none (.inl hlevel)]
    exact stepsRecords_of_blockState rfl (.inl rfl)
  | some level =>
    cases hstart : d.paragraphStart with
    | none =>
      rw [closeHeading_of_none (.inr hstart)]
      exact stepsRecords_of_blockState rfl (.inl rfl)
    | some start =>
      obtain ⟨style, -, hrecords, hclosed⟩ := closeHeading_of_open hlevel hstart
      constructor
      · exact .inl (by rw [hrecords])
      · exact .inr ⟨rfl, start, style, hstart, by rw [hrecords]⟩
      · exact .inl (by rw [hrecords])
      · exact .inl (by rw [hrecords])
      · exact .inl (by rw [hrecords])
      · exact .inl (by rw [hrecords])
      · exact .inr (.inl hclosed)

/-- A paragraph that began outside lists is recorded up to the cursor, with its line end. -/
theorem paragraphs_closeParagraph (d : Draft) :
    d.closeParagraph.records.paragraphs = match d.paragraphStart with
      | some start =>
        if d.lists.isEmpty then d.records.paragraphs.push ⟨start, d.closeParagraph.cursor⟩
        else d.records.paragraphs
      | none => d.records.paragraphs := by
  have hblocks : d.endLine.extendOpenItem.blockState = d.blockState := by simp
  have hparagraphs : d.endLine.extendOpenItem.records.paragraphs = d.records.paragraphs :=
    congrArg BlockState.paragraphs hblocks
  have hlists : d.endLine.extendOpenItem.lists = d.lists := congrArg BlockState.lists hblocks
  simp only [closeParagraph, recordParagraph, hlists]
  cases d.paragraphStart with
  | none => exact hparagraphs
  | some start =>
    cases d.lists with
    | nil => simp [record, hparagraphs]
    | cons list outer => exact hparagraphs

theorem blockState_closeParagraph (d : Draft) : d.closeParagraph.blockState =
    { d.blockState with
      paragraphStart := none
      paragraphs := d.closeParagraph.records.paragraphs } := by
  have hblocks : d.endLine.extendOpenItem.blockState = d.blockState := by simp
  rw [← hblocks]
  simp only [closeParagraph, recordParagraph]
  split
  · split <;> rfl
  · rfl

theorem openItems_closeParagraph (d : Draft) : d.closeParagraph.openItems = d.openItems := by
  have hextended : d.endLine.extendOpenItem.openItems = d.endLine.openItems := by
    rw [extendOpenItem]
    split
    · split <;> rfl
    · rfl
  have hrecorded := keepsContent_recordParagraph d.endLine.extendOpenItem d.paragraphStart
  rw [closeParagraph, hrecorded.openItems, hextended, d.keepsContent_endLine.openItems]

private theorem stepsRecords_closeParagraph (d : Draft) :
    d.StepsRecords .closeParagraph d.closeParagraph := by
  have hblocks := d.blockState_closeParagraph
  constructor
  · exact .inl d.keepsStyles_closeParagraph.texts
  · exact .inl (congrArg BlockState.headings hblocks)
  · have hparagraphs := d.paragraphs_closeParagraph
    split at hparagraphs
    · rename_i start hstart
      split at hparagraphs
      · rename_i hlists
        exact .inr ⟨rfl, List.isEmpty_iff.mp hlists, start, hstart, hparagraphs⟩
      · exact .inl hparagraphs
    · exact .inl hparagraphs
  · exact .inl (congrArg BlockState.listTails hblocks)
  · exact .inl (congrArg BlockState.codeBlocks hblocks)
  · exact .inl (congrArg BlockState.rules hblocks)
  · exact .inr (.inl (congrArg BlockState.paragraphStart hblocks))

private theorem stepsRecords_closeList (d : Draft) (kind : ListKind) :
    d.StepsRecords (.closeList kind) d.closeList := by
  rw [closeList.eq_def]
  split
  · exact stepsRecords_of_blockState rfl (.inl rfl)
  · split
    · rename_i outer _ hempty
      rw [recordListTail]
      split
      · rename_i span hspan
        obtain ⟨item, hitem, hitemSpan⟩ := List.exists_of_findSome?_eq_some hspan
        exact ⟨.inl rfl, .inl rfl, .inl rfl,
          .inr ⟨⟨⟨kind, rfl⟩, List.isEmpty_iff.mp hempty⟩, item, List.mem_reverse.mp hitem, span,
            hitemSpan, rfl⟩, .inl rfl, .inl rfl, .inl rfl⟩
      · exact ⟨.inl rfl, .inl rfl, .inl rfl, .inl rfl, .inl rfl, .inl rfl, .inl rfl⟩
    · exact ⟨.inl rfl, .inl rfl, .inl rfl, .inl rfl, .inl rfl, .inl rfl, .inl rfl⟩

private theorem stepsRecords_insertRule (d : Draft) : d.StepsRecords .rule d.insertRule := by
  have hblocks := d.blockState_endLine
  have hline : (Utf16.length "\n" : Int) = 1 := by decide
  have hcursor : d.insertRule.cursor = d.endLine.cursor + 1 := by
    rw [← hline]
    rfl
  have hstart : d.endLine.cursor = d.insertRule.cursor - 1 := by omega
  have hle := d.emits_endLine.cursor_le
  constructor
  · exact .inl d.keepsContent_insertRule.texts
  · exact .inl (congrArg BlockState.headings hblocks)
  · exact .inl (congrArg BlockState.paragraphs hblocks)
  · exact .inl (congrArg BlockState.listTails hblocks)
  · exact .inl (congrArg BlockState.codeBlocks hblocks)
  · refine .inr ⟨by omega, ?_⟩
    rw [← hstart, ← d.records_endLine]
    rfl
  · exact .inl (congrArg BlockState.paragraphStart hblocks)

/-- A code block is recorded where its table is inserted, with the span of its text. -/
theorem blockState_insertCodeBlock (d : Draft) (content info : String) :
    ∃ language : Option String, (d.insertCodeBlock content info).blockState =
      { d.blockState with
        codeBlocks := d.records.codeBlocks.push ⟨d.beginBlock.cursor,
          ⟨d.beginBlock.cursor + cellContentOffset,
            d.beginBlock.cursor + cellContentOffset + Utf16.length (dropLineEnd content)⟩,
          language⟩ } := by
  have hcodeBlocks : d.beginBlock.records.codeBlocks = d.records.codeBlocks :=
    congrArg BlockState.codeBlocks d.blockState_beginBlock
  rw [← d.blockState_beginBlock, ← hcodeBlocks]
  refine ⟨if Whitespace.strip info = "" then none else some (Whitespace.strip info), ?_⟩
  simp only [insertCodeBlock]
  split <;> rfl

theorem cursor_insertCodeBlock (d : Draft) (content info : String) :
    (d.insertCodeBlock content info).cursor =
      d.beginBlock.cursor + emptyTableSize + Utf16.length (dropLineEnd content) + 1 := by
  have hline : (Utf16.length "\n" : Int) = 1 := by decide
  simp only [insertCodeBlock, cursor_insertText, hline]

private theorem stepsRecords_insertCodeBlock (d : Draft) (content info : String) :
    d.StepsRecords (.codeBlock content info) (d.insertCodeBlock content info) := by
  have hle := d.emits_beginBlock.cursor_le
  have hcursor := d.cursor_insertCodeBlock content info
  obtain ⟨language, hblocks⟩ := d.blockState_insertCodeBlock content info
  have hcodeBlocks := congrArg BlockState.codeBlocks hblocks
  constructor
  · exact .inl (d.keepsContent_insertCodeBlock content info).texts
  · exact .inl (congrArg BlockState.headings hblocks)
  · exact .inl (congrArg BlockState.paragraphs hblocks)
  · exact .inl (congrArg BlockState.listTails hblocks)
  · refine .inr ⟨_, hle, rfl, ?_, ?_, hcodeBlocks⟩
    · simp only
      omega
    · simp only [emptyTableSize, cellContentOffset] at hcursor ⊢
      omega
  · exact .inl (congrArg BlockState.rules hblocks)
  · exact .inl (congrArg BlockState.paragraphStart hblocks)

private theorem texts_insertLeaf (d : Draft) (text : String) :
    (d.insertLeaf text).records.styledTexts = d.records.styledTexts ∨
      ∃ formatting, d.cursor < (d.insertLeaf text).cursor ∧
        (d.insertLeaf text).records.styledTexts =
          d.records.styledTexts.push ⟨⟨d.cursor, (d.insertLeaf text).cursor⟩, formatting⟩ := by
  by_cases h : text = ""
  · rw [h, insertLeaf_empty]
    exact .inl rfl
  · have htexts := (d.keepsStyles_takeMarker text).texts
    have hcursor : (d.takeMarker text).1.cursor = d.cursor := by
      simpa using (d.emits_takeMarker text).cursor
    rw [d.insertLeaf_eq h]
    split
    · exact .inl htexts
    · rename_i hrest
      have hpos := Utf16.length_pos hrest
      rw [insertStyled]
      split
      · refine .inr ⟨_, ?_, by rw [← htexts, ← hcursor]; rfl⟩
        rw [cursor_record, cursor_insertText]
        omega
      · exact .inl htexts

theorem stepsRecords {d next : Draft} {t : Token} (ht : t.IsAtom) (hs : d.step t = .ok next) :
    d.StepsRecords t next := by
  -- Inline content and items leave blocks alone.
  have keeps {e : Draft} (hb : e.blockState = d.blockState) (hk : d.KeepsStyles e) :
      d.StepsRecords t e := stepsRecords_of_blockState hb (.inl hk.texts)
  cases t with
  | inline children => exact ht.elim
  | text content =>
    cases hs
    exact stepsRecords_of_blockState (d.blockState_insertLeaf content) (d.texts_insertLeaf content)
  | codeSpan content =>
    cases hs
    exact stepsRecords_of_blockState (d.blockState_insertCode content)
      (texts_insertLeaf (d.openFormatting { code := some true }) content)
  | openMark mark => cases hs; exact stepsRecords_of_blockState rfl (.inl rfl)
  | closeMark mark => cases hs; exact stepsRecords_of_blockState rfl (.inl rfl)
  | openLink target =>
    cases hs
    refine stepsRecords_of_blockState (d.blockState_openLink target) (.inl ?_)
    simp only [openLink]
    split
    · split <;> rfl
    · rfl
  | closeLink => cases hs; exact stepsRecords_of_blockState rfl (.inl rfl)
  | softBreak => cases hs; exact stepsRecords_of_blockState rfl (.inl rfl)
  | hardBreak => cases hs; exact stepsRecords_of_blockState rfl (.inl rfl)
  | openHeading tag =>
    cases hs
    rw [openHeading]
    split
    · exact ⟨.inl rfl, .inl rfl, .inl rfl, .inl rfl, .inl rfl, .inl rfl, .inr (.inr rfl)⟩
    · exact stepsRecords_of_blockState rfl (.inl rfl)
  | closeHeading => cases hs; exact d.stepsRecords_closeHeading
  | openParagraph =>
    cases hs
    rw [openParagraph]
    split
    · exact ⟨.inl rfl, .inl rfl, .inl rfl, .inl rfl, .inl rfl, .inl rfl, .inr (.inr rfl)⟩
    · exact stepsRecords_of_blockState rfl (.inl rfl)
  | closeParagraph => cases hs; exact d.stepsRecords_closeParagraph
  | openList kind =>
    cases hs
    exact ⟨.inl rfl, .inl rfl, .inl rfl, .inl rfl, .inl rfl, .inl rfl, .inl rfl⟩
  | closeList kind => cases hs; exact d.stepsRecords_closeList kind
  | openItem => exact keeps (blockState_openItem hs) (keepsStyles_openItem hs)
  | closeItem => cases hs; exact keeps d.blockState_closeItem d.keepsStyles_closeItem
  | codeBlock content info => cases hs; exact d.stepsRecords_insertCodeBlock content info
  | rule => cases hs; exact d.stepsRecords_insertRule
  | skipped type children => cases hs; exact stepsRecords_of_blockState rfl (.inl rfl)
  | malformed type words => cases hs

/-! ## Stacks -/

/-- Lists are opened behind those that are open, and a close takes the innermost one away. -/
theorem lists_step {d next : Draft} {t : Token} (ht : t.IsAtom) (hs : d.step t = .ok next) :
    next.lists = match t with
      | .openList kind => ⟨kind, d.lists.length⟩ :: d.lists
      | .closeList _ => d.lists.tail
      | _ => d.lists := by
  have keeps {e : Draft} (hb : e.blockState = d.blockState) : e.lists = d.lists :=
    congrArg BlockState.lists hb
  cases t with
  | inline children => exact ht.elim
  | text content => cases hs; exact keeps (d.blockState_insertLeaf content)
  | codeSpan content => cases hs; exact keeps (d.blockState_insertCode content)
  | openMark mark => cases hs; rfl
  | closeMark mark => cases hs; rfl
  | openLink target => cases hs; exact keeps (d.blockState_openLink target)
  | closeLink => cases hs; rfl
  | softBreak => cases hs; rfl
  | hardBreak => cases hs; rfl
  | openHeading tag =>
    cases hs
    simp only [openHeading]
    split <;> rfl
  | closeHeading =>
    cases hs
    simp only [closeHeading.eq_def]
    split <;> rfl
  | openParagraph =>
    cases hs
    simp only [openParagraph]
    split <;> rfl
  | closeParagraph => cases hs; exact congrArg BlockState.lists d.blockState_closeParagraph
  | openList kind => cases hs; rfl
  | closeList kind =>
    cases hs
    simp only [closeList.eq_def]
    split
    · rename_i hlists
      simp [warn, hlists]
    · rename_i outer hlists
      split
      · simp only [recordListTail]
        split <;> simp [record, hlists]
      · simp [hlists]
  | openItem => exact keeps (blockState_openItem hs)
  | closeItem => cases hs; exact keeps d.blockState_closeItem
  | codeBlock content info =>
    cases hs
    obtain ⟨language, hblocks⟩ := d.blockState_insertCodeBlock content info
    exact congrArg BlockState.lists hblocks
  | rule => cases hs; exact congrArg BlockState.lists d.blockState_endLine
  | skipped type children => cases hs; rfl
  | malformed type words => cases hs

/-- An item is opened under the next index, and a close takes the innermost one away. -/
theorem openItems_step {d next : Draft} {t : Token} (ht : t.IsAtom) (hs : d.step t = .ok next) :
    next.openItems = match t with
      | .openItem => (d.records.items.size : Int) :: d.openItems
      | .closeItem => d.openItems.tail
      | _ => d.openItems := by
  cases t with
  | inline children => exact ht.elim
  | text content => cases hs; exact (d.keepsBounds_insertLeaf content).openItems
  | codeSpan content =>
    cases hs
    exact ((d.openFormatting { code := some true }).keepsBounds_insertLeaf content).openItems
  | openMark mark => cases hs; rfl
  | closeMark mark => cases hs; rfl
  | openLink target => cases hs; exact (d.keepsBounds_openLink target).openItems
  | closeLink => cases hs; rfl
  | softBreak => cases hs; rfl
  | hardBreak => cases hs; rfl
  | openHeading tag => cases hs; exact (d.keepsContent_openHeading tag).openItems
  | closeHeading => cases hs; exact d.keepsContent_closeHeading.openItems
  | openParagraph => cases hs; exact d.keepsContent_openParagraph.openItems
  | closeParagraph => cases hs; exact d.openItems_closeParagraph
  | openList kind => cases hs; rfl
  | closeList kind => cases hs; exact d.keepsContent_closeList.openItems
  | openItem => exact openItems_openItem hs
  | closeItem =>
    cases hs
    simp only [closeItem.eq_def]
    split
    · rename_i hopen
      simp [warn, hopen]
    · rename_i index rest hopen
      rw [(keepsContent_endLine _).openItems, hopen]
      rfl
  | codeBlock content info => cases hs; exact (d.keepsContent_insertCodeBlock content info).openItems
  | rule => cases hs; exact d.keepsContent_insertRule.openItems
  | skipped type children => cases hs; rfl
  | malformed type words => cases hs

end Draft
end MarkdownEdits
