import MarkdownEdits.Proofs.DocumentParts
import MarkdownEdits.Proofs.EmptyRanges
import MarkdownEdits.Proofs.InlineText
import MarkdownEdits.Proofs.StreamPrefixes

/-!
# Ranges of blocks

Outside of all lists the range that is recorded of a block cuts the block out of the document: the
text of a heading, the text of a paragraph with its line end, the line end that is a rule, and the
text of a code block in its table.

What is inserted by a block stays in place when more is inserted behind it, and so does what is
recorded of it. So each range is compared with the document right behind its block.
-/
namespace MarkdownEdits

/-- A block that holds no other blocks. -/
inductive LeafBlock where
  | heading (level : HeadingLevel) (children : List Token)
  | paragraph (children : List Token)
  | rule
  | codeBlock (content info : String)

def LeafBlock.tokens : LeafBlock → List Token
  | heading level children => [.openHeading level.tag, .inline children, .closeHeading]
  | paragraph children => [.openParagraph, .inline children, .closeParagraph]
  | rule => [.rule]
  | codeBlock content info => [.codeBlock content info]

/-- A token that opens a heading or a paragraph. -/
def Token.OpensContent : Token → Prop
  | openHeading _ | openParagraph => True
  | _ => False

/-- A text with a line end behind it, unless it ends with one. -/
def withLineEnd (text : String) : String := if endsLine text then text else text ++ "\n"

namespace Document

/-- The span cuts out a text that is followed by a line end. -/
structure ShowsHeading (document : Document) (span : Span) (text : String) : Prop where
  text : document.cut? span = some (DocumentUnit.ofText text)
  lineEnd : document.unitAt? span.stop = some .newline

/-- The span cuts out a line end behind another one. -/
structure ShowsRule (document : Document) (span : Span) : Prop where
  line : document.cut? span = some [.newline]
  before : document.unitAt? (span.start - 1) = some .newline

/-- The block's span cuts a text out of the block's table. -/
structure ShowsCode (document : Document) (block : CodeBlock) (text : String) : Prop where
  text : document.cut? block.text = some (DocumentUnit.ofText text)
  table : document.unitAt? block.tableIndex = some .table

variable (d : Document) (text : String) (behind : List DocumentUnit)

theorem showsHeading_append :
    (d.append (DocumentUnit.ofText text ++ .newline :: behind)).ShowsHeading
      ⟨d.stop, d.stop + Utf16.length text⟩ text where
  text := by
    rw [← DocumentUnit.length_ofText]
    exact d.cut?_append _ _
  lineEnd := by
    have hline := unitAt?_stop_append (d.append (DocumentUnit.ofText text)) .newline behind
    rwa [append_append, stop_append, DocumentUnit.length_ofText] at hline

theorem showsRule_append (h : d.units.getLast? = some .newline) :
    (d.append (.newline :: behind)).ShowsRule ⟨d.stop, d.stop + 1⟩ where
  line := d.cut?_append [.newline] behind
  before := unitAt?_append ((unitAt?_pred_stop d).trans h) _

theorem showsCode_append (language : Option String) :
    (d.append (Piece.units (.table text) ++ behind)).ShowsCode
      ⟨d.stop, ⟨d.stop + cellContentOffset, d.stop + cellContentOffset + Utf16.length text⟩,
        language⟩ text where
  text := by
    have hcell := cut?_append (d.append DocumentUnit.beforeCellText) (DocumentUnit.ofText text)
      (DocumentUnit.afterCellText ++ behind)
    simpa [Piece.units, DocumentUnit.beforeCellText, cellContentOffset] using hcell
  table := by
    have htable := unitAt?_stop_append (d.append [.newline]) .table ([.row, .cell] ++
      (DocumentUnit.ofText text ++ (DocumentUnit.afterCellText ++ behind)))
    simpa [Piece.units, DocumentUnit.beforeCellText, CodeBlock.tableIndex, tableElementOffset]
      using htable

end Document

namespace Draft

/-- The stylings of a code block with some text: the font is for the text, if there is any. -/
structure StylesCode (final : Draft) (config : Config) (block : CodeBlock) (text : String) :
    Prop where
  cell : .cell ⟨block.tableIndex, final.tab⟩ 0 0 .codeBlock ∈ final.stylings config
  font : text ≠ "" →
    .text (block.text.inTab final.tab) { fontFamily := some config.codeFont } ∈
      final.stylings config
  bare : text = "" → ∀ style, .text (block.text.inTab final.tab) style ∉ final.stylings config

/-- The range of a block that is opened in some draft, as it is recorded and styled in the end, and
what it cuts out of the document. The record is the next one of its kind. -/
def CutsOut (final : Draft) (config : Config) (document : Document) (d : Draft) :
    LeafBlock → Prop
  | .heading _ children => ∃ span style,
    final.records.headings[d.records.headings.size]? = some ⟨span, some style⟩ ∧
      .paragraph (span.inTab final.tab) (.named style) ∈ final.stylings config ∧
        document.ShowsHeading span (Token.rendered children)
  | .paragraph children => ∃ span,
    final.records.paragraphs[d.records.paragraphs.size]? = some span ∧
      SpanRecords.spaceBelow final.tab config span ∈ final.stylings config ∧
        (Token.rendered children ≠ "" →
          document.cut? span = some (DocumentUnit.ofText (withLineEnd (Token.rendered children))))
  | .rule => ∃ span,
    final.records.rules[d.records.rules.size]? = some span ∧
      SpanRecords.drawRule final.tab span ∈ final.stylings config ∧ document.ShowsRule span
  | .codeBlock content _ => ∃ block,
    final.records.codeBlocks[d.records.codeBlocks.size]? = some block ∧
      final.StylesCode config block (dropLineEnd content) ∧
        document.ShowsCode block (dropLineEnd content)

/-- What is recorded of blocks stays in its place, whatever is recorded later. -/
structure KeepsBlocks (d final : Draft) : Prop where
  headings : d.records.headings.toList <+: final.records.headings.toList
  paragraphs : d.records.paragraphs.toList <+: final.records.paragraphs.toList
  listTails : d.records.listTails.toList <+: final.records.listTails.toList
  codeBlocks : d.records.codeBlocks.toList <+: final.records.codeBlocks.toList
  rules : d.records.rules.toList <+: final.records.rules.toList

variable {d e final : Draft} {tokens children : List Token}

theorem keepsBlocks_steps (h : d.steps tokens = .ok final) : d.KeepsBlocks final where
  headings := by
    refine prefix_steps_of_push (fun d => d.records.headings) (fun ht hs => ?_) h
    exact (stepsRecords ht hs).headings.imp_right fun ⟨_, _, _, _, hpush⟩ => ⟨_, hpush⟩
  paragraphs := by
    refine prefix_steps_of_push (fun d => d.records.paragraphs) (fun ht hs => ?_) h
    exact (stepsRecords ht hs).paragraphs.imp_right fun ⟨_, _, _, _, hpush⟩ => ⟨_, hpush⟩
  listTails := by
    refine prefix_steps_of_push (fun d => d.records.listTails) (fun ht hs => ?_) h
    exact (stepsRecords ht hs).listTails.imp_right fun ⟨_, _, _, _, _, hpush⟩ => ⟨_, hpush⟩
  codeBlocks := by
    refine prefix_steps_of_push (fun d => d.records.codeBlocks) (fun ht hs => ?_) h
    exact (stepsRecords ht hs).codeBlocks.imp_right fun ⟨_, _, _, _, _, hpush⟩ => ⟨_, hpush⟩
  rules := by
    refine prefix_steps_of_push (fun d => d.records.rules) (fun ht hs => ?_) h
    exact (stepsRecords ht hs).rules.imp_right fun ⟨_, hpush⟩ => ⟨_, hpush⟩

/-- The entry behind those that are there keeps its place. -/
theorem getElem?_of_push {α : Type} {xs ys zs : Array α} {x : α} (hpush : ys = xs.push x)
    (hinit : ys.toList <+: zs.toList) : zs[xs.size]? = some x := by
  obtain ⟨rest, hrest⟩ := hinit
  have hlt : xs.size < ys.toList.length := by simp [hpush]
  rw [← Array.getElem?_toList, ← hrest, List.getElem?_append_left hlt, hpush]
  simp

/-! ## Content of blocks -/

/-- A heading or a paragraph inserts the text of its content before it closes. -/
theorem emits_content {opening : Token} (hc : ∀ t ∈ children, t.IsInline)
    (h : d.steps [opening, .inline children] = .ok e) (hopening : opening.OpensContent) :
    ∃ pieces, d.Emits pieces e ∧
      Piece.unitsOf pieces = DocumentUnit.ofText (Token.insertedText d.awaitsText children) := by
  obtain ⟨opened, hopened, hchildren⟩ := steps_inline_eq_ok.mp h
  obtain ⟨hemits, hkept⟩ : d.Emits [] opened ∧ d.KeepsContent opened := by
    cases opening with
    | openHeading tag =>
      cases hopened
      exact ⟨d.emits_openHeading tag, d.keepsContent_openHeading tag⟩
    | openParagraph =>
      cases hopened
      exact ⟨d.emits_openParagraph, d.keepsContent_openParagraph⟩
    | _ => exact hopening.elim
  have hawaits : opened.awaitsText = d.awaitsText :=
    awaitsText_of_same hkept.openItems hkept.markings
  obtain ⟨pieces, hpieces, hunits⟩ := emits_steps_of_isInline hc hchildren
  rw [hawaits] at hunits
  exact ⟨pieces, by simpa using hemits.trans hpieces, hunits⟩

/-- Outside of all lists nothing of the text is left out. -/
theorem emits_content_of_closed {opening : Token} (hc : Token.WellMarked false children)
    (hclosed : d.openItems = []) (h : d.steps [opening, .inline children] = .ok e)
    (hopening : opening.OpensContent) :
    ∃ pieces, d.Emits pieces e ∧
      Piece.unitsOf pieces = DocumentUnit.ofText (Token.rendered children) := by
  have hcontent := emits_content hc.isInline h hopening
  rwa [awaitsText_of_closed hclosed, Token.insertedText_false] at hcontent

/-- A heading ends its line. -/
theorem emits_closeHeading_of_steps {level : HeadingLevel} (hc : Token.WellMarked false children)
    (h : d.steps [.openHeading level.tag, .inline children] = .ok e) :
    e.Emits [.text "\n"] e.closeHeading := by
  obtain ⟨hlevel, hstart⟩ := heading_of_steps hc h
  have hclose := e.emits_closeHeading
  rwa [hlevel, hstart] at hclose

/-! ## Blocks -/

section Blocks

variable {document middle : Document} {config : Config}
variable (hd : d.Yields document) (hgrows : d.GrowsTo document e middle)
  (hkept : e.KeepsBlocks final) (behind : List DocumentUnit)

include hd hgrows hkept

theorem cutsOut_heading {level : HeadingLevel} (hc : Token.WellMarked false children)
    (hclosed : d.openItems = [])
    (hblock : d.steps (LeafBlock.heading level children).tokens = .ok e) :
    final.CutsOut config (middle.append behind) d (.heading level children) := by
  obtain ⟨inner, hinner, hclose⟩ := steps_block_eq_ok.mp hblock
  cases hclose
  obtain ⟨pieces, hpieces, hunits⟩ := emits_content_of_closed hc hclosed hinner trivial
  obtain ⟨style, hstyle, hheadings, -⟩ := records_heading hc hinner
  have hrecord := getElem?_of_push hheadings hkept.headings
  refine ⟨_, style, hrecord, ?_, ?_⟩
  · have hmem := Array.mem_toList_iff.mpr (Array.mem_of_getElem? hrecord)
    exact SpanRecords.mem_stylings.mpr (.inr (.inl
      ⟨_, hmem, SpanRecords.paragraph_mem_styleHeading hstyle⟩))
  · have hmiddle := hgrows.eq_append hd (hpieces.trans (emits_closeHeading_of_steps hc hinner))
    have hcursor : inner.cursor = document.stop + Utf16.length (Token.rendered children) := by
      rw [hpieces.cursor, Piece.width, hunits, DocumentUnit.length_ofText, hd.cursor]
    rw [hmiddle, hd.cursor, hcursor, Piece.unitsOf_append, hunits, Document.append_append,
      List.append_assoc]
    exact document.showsHeading_append _ behind

theorem cutsOut_paragraph (hc : Token.WellMarked false children) (hclosed : d.openItems = [])
    (hlists : d.lists = []) (hblock : d.steps (LeafBlock.paragraph children).tokens = .ok e) :
    final.CutsOut config (middle.append behind) d (.paragraph children) := by
  obtain ⟨inner, hinner, hclose⟩ := steps_block_eq_ok.mp hblock
  cases hclose
  obtain ⟨pieces, hpieces, hunits⟩ := emits_content_of_closed hc hclosed hinner trivial
  obtain ⟨-, hparagraphs⟩ := records_paragraph hc hinner
  rw [if_pos (List.isEmpty_iff.mpr hlists)] at hparagraphs
  have hrecord := getElem?_of_push hparagraphs hkept.paragraphs
  refine ⟨_, hrecord, ?_, fun htext => ?_⟩
  · have hmem := Array.mem_toList_iff.mpr (Array.mem_of_getElem? hrecord)
    exact SpanRecords.mem_stylings.mpr (.inr (.inr (.inl
      ⟨_, List.mem_append_left _ hmem, rfl⟩)))
  · have hemits := hpieces.trans inner.emits_closeParagraph
    have hline := hd.endsWithNewline_of_emits hpieces hunits htext
    have hall : Piece.unitsOf (pieces ++ inner.lineEnd) =
        DocumentUnit.ofText (withLineEnd (Token.rendered children)) := by
      rw [Piece.unitsOf_append, hunits, lineEnd, hline, withLineEnd]
      split
      · simp
      · rw [DocumentUnit.ofText_append]
        rfl
    have hcursor : inner.closeParagraph.cursor =
        document.stop + (DocumentUnit.ofText (withLineEnd (Token.rendered children))).length := by
      rw [hemits.cursor, Piece.width, hall, hd.cursor]
    rw [hgrows.eq_append hd hemits, hd.cursor, hcursor, hall, Document.append_append]
    exact document.cut?_append _ _

theorem cutsOut_rule (hblock : d.step .rule = .ok e) :
    final.CutsOut config (middle.append behind) d .rule := by
  cases hblock
  have hrules : d.insertRule.records.rules =
      d.records.rules.push ⟨d.endLine.cursor, d.endLine.cursor + 1⟩ := by
    rw [← d.records_endLine]
    rfl
  have hrecord := getElem?_of_push hrules hkept.rules
  refine ⟨_, hrecord, ?_, ?_⟩
  · have hmem := Array.mem_toList_iff.mpr (Array.mem_of_getElem? hrecord)
    exact SpanRecords.mem_stylings.mpr (.inr (.inr (.inr (.inr (.inl ⟨_, hmem, rfl⟩)))))
  · have hline := hd.emits d.emits_endLine
    rw [hgrows.eq_append hd d.emits_insertRule, Piece.unitsOf_append, ← Document.append_append,
      Document.append_append, hline.cursor]
    exact Document.showsRule_append _ _ (hline.newline.mp d.endsWithNewline_endLine)

theorem cutsOut_codeBlock {content info : String}
    (hblock : d.step (.codeBlock content info) = .ok e)
    (hbare : ∀ s ∈ final.stylings config, ∀ span : Span, s.span? = some span →
      span.stop ≤ span.start → ∃ style, s = .paragraph (span.inTab final.tab) style) :
    final.CutsOut config (middle.append behind) d (.codeBlock content info) := by
  cases hblock
  obtain ⟨language, hblocks⟩ := d.blockState_insertCodeBlock content info
  have hrecord := getElem?_of_push (congrArg BlockState.codeBlocks hblocks) hkept.codeBlocks
  have hmem := Array.mem_toList_iff.mpr (Array.mem_of_getElem? hrecord)
  have hstyled {s : Styling} (hs : s ∈ SpanRecords.styleCodeBlock final.tab config _) :
      s ∈ final.stylings config :=
    SpanRecords.mem_stylings.mpr (.inr (.inr (.inr (.inl ⟨_, hmem, hs⟩))))
  refine ⟨_, hrecord, ⟨hstyled (SpanRecords.cell_mem_styleCodeBlock _), fun htext => ?_,
    fun htext style hstyle => ?_⟩, ?_⟩
  · have hpos := Utf16.length_pos htext
    refine hstyled (SpanRecords.font_mem_styleCodeBlock ?_)
    simp only
    omega
  · have hzero : Utf16.length (dropLineEnd content) = 0 := by rw [htext]; rfl
    obtain ⟨_, hparagraph⟩ := hbare _ hstyle _ rfl (by simp only [Span.inTab]; omega)
    cases hparagraph
  · have hstart := hd.emits d.emits_beginBlock
    rw [hgrows.eq_append hd (d.emits_insertCodeBlock content info), Piece.unitsOf_append,
      ← Document.append_append, Document.append_append, hstart.cursor, Piece.unitsOf_cons,
      List.append_assoc]
    exact Document.showsCode_append _ _ _ _

end Blocks

/-- In a run over a well-nested stream every block outside of all lists is cut out. -/
theorem cutsOut_of_split {first : Int} {tab : Option String} {headingAsTitle : Bool}
    {before after : List Token} {block : LeafBlock} {config : Config} {document : Document}
    (hnested : Token.WellNested .blocks (before ++ block.tokens ++ after))
    (hreaches : (Draft.start first tab headingAsTitle).Reaches (before ++ block.tokens ++ after)
      final document)
    (houtside : Token.IsOutside before) :
    ∃ d, (Draft.start first tab headingAsTitle).steps before = .ok d ∧
      final.CutsOut config document d block := by
  obtain ⟨d, e, shown, middle, hd, hblock, hafter, hshown, hmiddle, hlast⟩ := hreaches.parts
  obtain ⟨hlists, hclosed⟩ :=
    closed_of_isOutside hnested (List.append_assoc before _ after) houtside hd
  have hkept := keepsBlocks_steps hafter
  obtain ⟨behind, rfl⟩ := hlast.units
  have hcontent {children : List Token} (hmem : .inline children ∈ block.tokens) :
      Token.WellMarked false children :=
    hnested.wellMarked_of_mem (List.mem_append_left _ (List.mem_append_right _ hmem))
  refine ⟨d, hd, ?_⟩
  cases block with
  | heading level children =>
    exact cutsOut_heading hshown.yields hmiddle hkept behind (hcontent (by simp [LeafBlock.tokens]))
      hclosed hblock
  | paragraph children =>
    exact cutsOut_paragraph hshown.yields hmiddle hkept behind
      (hcontent (by simp [LeafBlock.tokens])) hclosed hlists hblock
  | rule =>
    rw [LeafBlock.tokens, steps_singleton] at hblock
    exact cutsOut_rule hshown.yields hmiddle hkept behind hblock
  | codeBlock content info =>
    rw [LeafBlock.tokens, steps_singleton] at hblock
    exact cutsOut_codeBlock hshown.yields hmiddle hkept behind hblock fun s hs span hspan hempty =>
      (bareBlock_of_mem_stylings hnested hreaches.run hs hspan hempty).1

end Draft

/-- The ranges of blocks outside of all lists cut out exactly their blocks. -/
theorem convertTokens_cutsOutBlocks {config : Config} {tokens : List Token} {o : Options}
    {first : Int} {tab : Option String} (hnested : Token.WellNested .blocks tokens)
    (hfirst : o.startIndex = .ok first) (htab : o.tabIdentifier = .ok tab) :
    ∃ final document, convertTokens config tokens o = .ok (.ofDraft config final) ∧
      (Draft.start first tab (o.wantsTitle config)).Reaches tokens final document ∧
        ∀ before block after, tokens = before ++ LeafBlock.tokens block ++ after →
          Token.IsOutside before → ∃ d,
            (Draft.start first tab (o.wantsTitle config)).steps before = .ok d ∧
              final.CutsOut config document d block := by
  obtain ⟨final, document, hconverted, hreaches⟩ :=
    @exists_reaches_of_wellNested config _ _ _ _ hnested hfirst htab
  refine ⟨final, document, hconverted, hreaches, ?_⟩
  rintro before block after rfl houtside
  exact Draft.cutsOut_of_split hnested hreaches houtside

/-- A heading, a paragraph that ends with a hard break, a rule, a table and a quotation with a code
block in it, and behind a list a code block without text and another paragraph. -/
def blocksOfAllKinds : List Token :=
  [.openHeading "h2", .inline [.openMark .strong, .text "a😀", .closeMark .strong], .closeHeading,
    .openParagraph, .inline [.text "b", .softBreak, .codeSpan "c", .hardBreak], .closeParagraph,
    .rule, .skipped "table_open" [], .skipped "td_open" [], .inline [.text "d"],
    .skipped "td_close" [], .skipped "table_close" [], .skipped "blockquote_open" [],
    .codeBlock "e\n" "", .skipped "blockquote_close" [], .openList .ordered, .openItem, .rule,
    .closeItem, .closeList .ordered, .codeBlock "\n" "f", .openParagraph, .inline [.text "g"],
    .closeParagraph]

theorem wellNested_blocksOfAllKinds : Token.WellNested .blocks blocksOfAllKinds := by
  have hcontent (s : String) : Token.WellMarked false [.text s] := .leaf trivial .nil
  have hheading : Token.WellMarked false
      [.openMark .strong, .text "a😀", .closeMark .strong] := .mark .strong (hcontent "a😀") .nil
  have hbreak : Token.WellMarked false [.text "b", .softBreak, .codeSpan "c", .hardBreak] :=
    .leaf trivial (.leaf trivial (.leaf trivial (.leaf trivial .nil)))
  have hrows : Token.TableRows
      [.skipped "td_open" [], .inline [.text "d"], .skipped "td_close" []] :=
    .markup _ (.cell (hcontent "d") (.markup _ .nil))
  have hquote : Token.WellNested .blocks [.codeBlock "e\n" ""] := .codeBlock _ _ .nil
  have hitem : Token.WellNested .items [.openItem, .rule, .closeItem] := .item (.rule .nil) .nil
  exact .heading .h2 hheading <| .paragraph hbreak <| .rule <| .table hrows <| .quote hquote <|
    .list .ordered hitem <| .codeBlock _ _ <| .paragraph (hcontent "g") .nil

theorem convertTokens_cutsOutBlocks_blocksOfAllKinds :
    ∃ final document, convertTokens .standard blocksOfAllKinds {} = .ok (.ofDraft .standard final) ∧
      (Draft.start 1 none (Options.wantsTitle {} .standard)).Reaches blocksOfAllKinds final
          document ∧
        ∀ before block after, blocksOfAllKinds = before ++ LeafBlock.tokens block ++ after →
          Token.IsOutside before → ∃ d,
            (Draft.start 1 none (Options.wantsTitle {} .standard)).steps before = .ok d ∧
              final.CutsOut .standard document d block :=
  convertTokens_cutsOutBlocks wellNested_blocksOfAllKinds rfl rfl

end MarkdownEdits
