import MarkdownEdits.Proofs.BlockRanges
import MarkdownEdits.Proofs.ItemOrigins

/-!
# Starts of lines

Outside of all lists a heading, a paragraph or an item starts a line of its own, with one exception.
The tokens of a table are passed over, but the content of its cells is inserted as it comes, and no
line end follows it. So what comes behind a table goes on in the line of the last cell.

Seen from the end of a stream, each token has ended the line, or has inserted nothing, or is content
or an indent. The induction is on the tokens from the last one back.
-/
namespace MarkdownEdits
namespace Token

/-- A token that leaves an ended line behind. -/
def EndsLine : Token → Prop
  | closeHeading | closeParagraph | closeItem | codeBlock .. | rule => True
  | _ => False

/-- A token around blocks that inserts nothing. -/
def IsMarkup : Token → Prop
  | openHeading _ | openParagraph | openList _ | closeList _ | skipped .. => True
  | _ => False

theorem IsBlockToken.cases {t : Token} (h : t.IsBlockToken) :
    t.EndsLine ∨ t.IsMarkup ∨ t = openItem ∨
      ∃ children, t = inline children ∧ ∀ u ∈ children, u.IsInline := by
  cases t with
  | inline children => exact .inr (.inr (.inr ⟨children, rfl, h⟩))
  | openItem => exact .inr (.inr (.inl rfl))
  | closeHeading | closeParagraph | closeItem | codeBlock | rule => exact .inl trivial
  | openHeading | openParagraph | openList | closeList | skipped => exact .inr (.inl trivial)
  | _ => exact h.elim

/-- A token outside of all lists that inserts nothing. -/
def IsSilent (t : Token) : Prop :=
  t.IsMarkup ∨ ∃ children, t = inline children ∧ rendered children = ""

/-- The last text in front is the content of a cell, and its line has not been ended since. -/
def FollowsOpenCell (before : List Token) : Prop :=
  ∃ init children rest, before = init ++ inline children :: rest ∧ rendered children ≠ "" ∧
    endsLine (rendered children) = false ∧ ∀ t ∈ rest, t.IsSilent

theorem not_followsOpenCell_nil : ¬FollowsOpenCell [] := by
  rintro ⟨init, children, rest, hsplit, -⟩
  simp at hsplit

/-- Only content leaves a line open, and only what inserts nothing keeps it open. -/
theorem followsOpenCell_concat {before : List Token} {t : Token} :
    FollowsOpenCell (before ++ [t]) ↔ t.IsSilent ∧ FollowsOpenCell before ∨
      ∃ children, t = inline children ∧ rendered children ≠ "" ∧
        endsLine (rendered children) = false := by
  constructor
  · rintro ⟨init, children, rest, hsplit, htext, hline, hsilent⟩
    rcases List.eq_nil_or_concat rest with rfl | ⟨rest, u, rfl⟩
    · obtain ⟨-, hlast⟩ := List.append_inj' hsplit rfl
      exact .inr ⟨children, List.singleton_inj.mp hlast, htext, hline⟩
    · rw [List.concat_eq_append, List.forall_mem_append, List.forall_mem_singleton] at hsilent
      rw [List.concat_eq_append, ← List.cons_append, ← List.append_assoc] at hsplit
      obtain ⟨hbefore, hlast⟩ := List.append_inj' hsplit rfl
      rw [List.singleton_inj.mp hlast]
      exact .inl ⟨hsilent.2, init, children, rest, hbefore, htext, hline, hsilent.1⟩
  · rintro (⟨hsilent, init, children, rest, rfl, htext, hline, hrest⟩ |
      ⟨children, rfl, htext, hline⟩)
    · refine ⟨init, children, rest ++ [t], by simp, htext, hline, ?_⟩
      rw [List.forall_mem_append, List.forall_mem_singleton]
      exact ⟨hrest, hsilent⟩
    · exact ⟨before, children, [], rfl, htext, hline, by simp⟩

theorem EndsLine.not_followsOpenCell {before : List Token} {t : Token} (h : t.EndsLine) :
    ¬FollowsOpenCell (before ++ [t]) := by
  rw [followsOpenCell_concat]
  rintro (⟨hmarkup | ⟨children, rfl, -⟩, -⟩ | ⟨children, rfl, -⟩)
  · cases t <;> first | exact h.elim | exact hmarkup.elim
  · exact h.elim
  · exact h.elim

theorem IsMarkup.followsOpenCell_iff {before : List Token} {t : Token} (h : t.IsMarkup) :
    FollowsOpenCell (before ++ [t]) ↔ FollowsOpenCell before := by
  rw [followsOpenCell_concat]
  constructor
  · rintro (⟨-, hbefore⟩ | ⟨children, rfl, -⟩)
    · exact hbefore
    · exact h.elim
  · exact fun hbefore => .inl ⟨.inl h, hbefore⟩

theorem followsOpenCell_inline_iff {before children : List Token} :
    FollowsOpenCell (before ++ [inline children]) ↔
      if rendered children = "" then FollowsOpenCell before
      else endsLine (rendered children) = false := by
  simp only [followsOpenCell_concat, IsSilent, IsMarkup, false_or, inline.injEq,
    exists_eq_left']
  split
  · rename_i htext
    simp [htext]
  · rename_i htext
    simp [htext]

end Token

/-- What is to start a line of its own. -/
inductive Lead where
  | heading (level : HeadingLevel) (children : List Token)
  | paragraph (children : List Token)
  | item

namespace Lead

def tokens : Lead → List Token
  | heading level children => (LeafBlock.heading level children).tokens
  | paragraph children => (LeafBlock.paragraph children).tokens
  | item => [.openItem]

/-- How many lists are open around it: headings and paragraphs are meant outside of all lists, and
items in an outermost list. -/
def depth : Lead → Nat
  | heading .. | paragraph _ => 0
  | item => 1

end Lead

namespace Draft

/-- Where the next heading, paragraph or item is recorded to start. -/
def startOf? (final d : Draft) : Lead → Option Int
  | .heading .. => final.records.headings[d.records.headings.size]?.map (·.span.start)
  | .paragraph _ => final.records.paragraphs[d.records.paragraphs.size]?.map Span.start
  | .item => final.records.items[d.records.items.size]?.map ListItem.start

variable {d e next final : Draft} {document : Document} {t : Token} {children : List Token}

theorem endsWithNewline_step (ht : t.EndsLine) (hfinds : d.Finds t) (hs : d.step t = .ok next) :
    next.endsWithNewline = true := by
  have hline : endsLine "\n" = true := by decide
  cases t with
  | closeHeading =>
    cases hs
    obtain ⟨level, hlevel⟩ := Option.isSome_iff_exists.mp hfinds.1
    obtain ⟨start, hstart⟩ := Option.isSome_iff_exists.mp hfinds.2
    rw [closeHeading, hlevel, hstart]
    exact (endsWithNewline_insertText _ "\n").trans hline
  | closeParagraph =>
    cases hs
    have hsame := (emits_extendOpenItem d.endLine).trans (emits_recordParagraph _ d.paragraphStart)
    exact (endsWithNewline_congr hsame.insertions_eq).trans d.endsWithNewline_endLine
  | closeItem =>
    cases hs
    rw [closeItem.eq_def]
    split
    · rename_i hopen
      exact absurd hopen hfinds
    · exact endsWithNewline_endLine _
  | codeBlock content info => cases hs; exact (endsWithNewline_insertText _ "\n").trans hline
  | rule => cases hs; exact (endsWithNewline_insertText _ "\n").trans hline
  | _ => exact ht.elim

theorem emits_step_of_isMarkup (ht : t.IsMarkup) (hs : d.step t = .ok next) : d.Emits [] next := by
  cases t with
  | openHeading tag => cases hs; exact d.emits_openHeading tag
  | openParagraph => cases hs; exact d.emits_openParagraph
  | openList kind => cases hs; exact .of_same rfl rfl rfl
  | closeList kind => cases hs; exact d.emits_closeList
  | skipped type children => cases hs; exact .refl d
  | _ => exact ht.elim

theorem openItems_step_of_isMarkup (ht : t.IsMarkup) (hs : d.step t = .ok next) :
    next.openItems = d.openItems := by
  have hatom : t.IsAtom := by
    cases t <;> first | exact ht.elim | trivial
  have hitems := openItems_step hatom hs
  cases t <;> first | exact ht.elim | exact hitems

/-- Content that inserts some text leaves its own end behind. -/
theorem lineOpen_step_inline (hd : d.Yields document) (hc : ∀ u ∈ children, u.IsInline)
    (hs : d.step (.inline children) = .ok next) :
    next.LineOpen document.first ↔
      if Token.insertedText d.awaitsText children = "" then d.LineOpen document.first
      else endsLine (Token.insertedText d.awaitsText children) = false := by
  rw [step] at hs
  obtain ⟨pieces, hpieces, hunits⟩ := emits_steps_of_isInline hc hs
  exact hd.lineOpen_of_emits hpieces hunits

theorem openItems_step_inline (hc : ∀ u ∈ children, u.IsInline)
    (hs : d.step (.inline children) = .ok next) : next.openItems.length = d.openItems.length := by
  have hflat : Token.Closes .blocks children := .of_isFlat fun u hu => (hc u hu).isFlat
  rw [step] at hs
  rw [length_openItems_steps (fun u hu => (hc u hu).isAtom) hs, hflat.items]

/-! ## Runs from the start -/

section Start

variable {first : Int} {tab : Option String} {headingAsTitle : Bool}
  {tokens before after : List Token}

/-- Where no item is open, a line is open exactly behind the content of a cell. -/
theorem lineOpen_iff_followsOpenCell (h : Token.WellNested .blocks tokens)
    (hsplit : tokens = before ++ after)
    (hd : (Draft.start first tab headingAsTitle).steps before = .ok d)
    (hclosed : d.openItems = []) : d.LineOpen first ↔ Token.FollowsOpenCell before := by
  have hstart : (Draft.start first tab headingAsTitle).LineOpen first ↔
      Token.FollowsOpenCell [] :=
    iff_of_false (fun hopen => Int.lt_irrefl _ hopen.1) Token.not_followsOpenCell_nil
  refine invariant_parts (P := fun before d =>
    d.openItems = [] → (d.LineOpen first ↔ Token.FollowsOpenCell before)) ?_ (fun _ => hstart)
    hsplit hd hclosed
  intro init t after e next hsplit he ih hs hclosed
  have hblock := h.isBlockToken t (by simp [hsplit])
  rcases hblock.cases with hends | hmarkup | rfl | ⟨children, rfl, hc⟩
  · have hline := endsWithNewline_step hends (finds_of_split h hsplit he) hs
    exact iff_of_false (fun hopen => Bool.false_ne_true (hopen.2.symm.trans hline))
      hends.not_followsOpenCell
  · rw [(emits_step_of_isMarkup hmarkup hs).lineOpen_iff, hmarkup.followsOpenCell_iff]
    exact ih ((openItems_step_of_isMarkup hmarkup hs).symm.trans hclosed)
  · have hopened := openItems_openItem hs
    rw [hclosed] at hopened
    cases hopened
  · have hopen : e.openItems = [] := by
      rw [← List.length_eq_zero_iff, ← openItems_step_inline hc hs, hclosed, List.length_nil]
    obtain ⟨document, hgrows, -⟩ := growsTo_start he
    have hfirst : document.first = first := hgrows.first_eq
    have hcontent := lineOpen_step_inline hgrows.yields hc hs
    rw [awaitsText_of_closed hopen, Token.insertedText_false, hfirst] at hcontent
    rw [hcontent, Token.followsOpenCell_inline_iff]
    split
    · exact ih hopen
    · rfl

/-- The item that an outermost list opens has no other item open around it. -/
theorem closed_of_lead {lead : Lead}
    (h : Token.WellNested .blocks (before ++ lead.tokens ++ after))
    (hd : (Draft.start first tab headingAsTitle).steps before = .ok d)
    (hdepth : (Token.openLists [] (Token.atomsOf before)).length = lead.depth) :
    d.lists.length = lead.depth ∧ d.openItems = [] := by
  have hlists := length_lists_of_steps hd
  rw [hdepth] at hlists
  refine ⟨hlists, ?_⟩
  cases lead with
  | heading level children =>
    exact (closed_of_isOutside h (List.append_assoc before _ after)
      (List.length_eq_zero_iff.mp hdepth) hd).2
  | paragraph children =>
    exact (closed_of_isOutside h (List.append_assoc before _ after)
      (List.length_eq_zero_iff.mp hdepth) hd).2
  | item =>
    have hfinds : d.lists.length = d.openItems.length + 1 :=
      finds_of_split h (List.append_assoc before [.openItem] after) hd
    rw [hlists] at hfinds
    exact List.length_eq_zero_iff.mp (Nat.succ.inj hfinds).symm

end Start

/-- A heading, a paragraph or an item is recorded from the cursor on. -/
theorem startOf?_eq {lead : Lead} {after : List Token}
    (hcontent : ∀ children, .inline children ∈ lead.tokens → Token.WellMarked false children)
    (hlists : d.lists.length = lead.depth) (hlead : d.steps lead.tokens = .ok e)
    (hafter : e.steps after = .ok final) : final.startOf? d lead = some d.cursor := by
  have hkept := keepsBlocks_steps hafter
  cases lead with
  | heading level children =>
    have hc := hcontent children (by simp [Lead.tokens, LeafBlock.tokens])
    obtain ⟨inner, hinner, hclose⟩ := steps_block_eq_ok.mp hlead
    cases hclose
    obtain ⟨style, -, hheadings, -⟩ := records_heading hc hinner
    rw [startOf?, getElem?_of_push hheadings hkept.headings]
    rfl
  | paragraph children =>
    have hc := hcontent children (by simp [Lead.tokens, LeafBlock.tokens])
    obtain ⟨inner, hinner, hclose⟩ := steps_block_eq_ok.mp hlead
    cases hclose
    obtain ⟨-, hparagraphs⟩ := records_paragraph hc hinner
    rw [if_pos (List.isEmpty_iff_length_eq_zero.mpr hlists)] at hparagraphs
    rw [startOf?, getElem?_of_push hparagraphs hkept.paragraphs]
    rfl
  | item =>
    rw [Lead.tokens, steps_singleton] at hlead
    obtain ⟨_, _, item, -, hitem, hstart, -⟩ := exists_item_of_openItem hlead hafter
    rw [startOf?, hitem, Option.map_some, hstart]

end Draft

/-- Headings and paragraphs outside of all lists, and items of outermost lists, start a line unless
they follow an open cell. -/
theorem convertTokens_startsLines {config : Config} {tokens : List Token} {o : Options}
    {first : Int} {tab : Option String} (hnested : Token.WellNested .blocks tokens)
    (hfirst : o.startIndex = .ok first) (htab : o.tabIdentifier = .ok tab) :
    ∃ final document, convertTokens config tokens o = .ok (.ofDraft config final) ∧
      (Draft.start first tab (o.wantsTitle config)).Reaches tokens final document ∧
        ∀ before lead after, tokens = before ++ Lead.tokens lead ++ after →
          (Token.openLists [] (Token.atomsOf before)).length = lead.depth → ∃ d,
            (Draft.start first tab (o.wantsTitle config)).steps before = .ok d ∧
              final.startOf? d lead = some d.cursor ∧
                (document.StartsLine d.cursor ↔ ¬Token.FollowsOpenCell before) := by
  obtain ⟨final, document, hconverted, hreaches⟩ :=
    @exists_reaches_of_wellNested config _ _ _ _ hnested hfirst htab
  refine ⟨final, document, hconverted, hreaches, ?_⟩
  rintro before lead after rfl hdepth
  obtain ⟨d, e, shown, middle, hd, hlead, hafter, hshown, hmiddle, hlast⟩ := hreaches.parts
  obtain ⟨hlists, hclosed⟩ := Draft.closed_of_lead hnested hd hdepth
  refine ⟨d, hd, Draft.startOf?_eq ?_ hlists hlead hafter, ?_⟩
  · intro children hmem
    exact hnested.wellMarked_of_mem (List.mem_append_left _ (List.mem_append_right _ hmem))
  · obtain ⟨units, rfl⟩ := (hmiddle.trans hlast).units
    have hopen := Draft.lineOpen_iff_followsOpenCell hnested (List.append_assoc before _ after) hd
      hclosed
    have hshownFirst : shown.first = first := hshown.first_eq
    rw [hshown.yields.startsLine_iff, hshownFirst, hopen]

/-- A heading, a table with a list behind it, and a table whose last cell ends with a hard break, with
a quotation behind it. -/
def linesAroundTables : List Token :=
  [.openHeading "h1", .inline [.text "a"], .closeHeading, .skipped "table_open" [],
    .inline [.text "b"], .inline [], .skipped "table_close" [], .openList .bullet, .openItem,
    .openParagraph, .inline [.text "c"], .closeParagraph, .closeItem, .openItem, .closeItem,
    .closeList .bullet, .skipped "table_open" [], .inline [.codeSpan "d", .hardBreak],
    .skipped "table_close" [], .skipped "blockquote_open" [], .openParagraph, .inline [.text "e"],
    .closeParagraph, .skipped "blockquote_close" []]

theorem wellNested_linesAroundTables : Token.WellNested .blocks linesAroundTables := by
  have hcontent (s : String) : Token.WellMarked false [.text s] := .leaf trivial .nil
  have hbreak : Token.WellMarked false [.codeSpan "d", .hardBreak] :=
    .leaf trivial (.leaf trivial .nil)
  have hopen : Token.TableRows [.inline [.text "b"], .inline []] :=
    .cell (hcontent "b") (.cell .nil .nil)
  have hended : Token.TableRows [.inline [.codeSpan "d", .hardBreak]] := .cell hbreak .nil
  have hparagraph (s : String) : Token.WellNested .blocks
      [.openParagraph, .inline [.text s], .closeParagraph] := .paragraph (hcontent s) .nil
  have hitems : Token.WellNested .items
      [.openItem, .openParagraph, .inline [.text "c"], .closeParagraph, .closeItem, .openItem,
        .closeItem] := .item (hparagraph "c") (.item .nil .nil)
  exact .heading .h1 (hcontent "a") <| .table hopen <| .list .bullet hitems <| .table hended <|
    .quote (hparagraph "e") .nil

theorem convertTokens_startsLines_linesAroundTables :
    ∃ final document,
      convertTokens .standard linesAroundTables {} = .ok (.ofDraft .standard final) ∧
        (Draft.start 1 none (Options.wantsTitle {} .standard)).Reaches linesAroundTables final
            document ∧
          ∀ before lead after, linesAroundTables = before ++ Lead.tokens lead ++ after →
            (Token.openLists [] (Token.atomsOf before)).length = lead.depth → ∃ d,
              (Draft.start 1 none (Options.wantsTitle {} .standard)).steps before = .ok d ∧
                final.startOf? d lead = some d.cursor ∧
                  (document.StartsLine d.cursor ↔ ¬Token.FollowsOpenCell before) :=
  convertTokens_startsLines wellNested_linesAroundTables rfl rfl

/-- A table of one cell, and a paragraph. -/
def cellAndParagraph : List Token :=
  [.skipped "table_open" [], .skipped "thead_open" [], .skipped "tr_open" [],
    .skipped "th_open" [], .inline [.text "a"], .skipped "th_close" [], .skipped "tr_close" [],
    .skipped "thead_close" [], .skipped "table_close" [], .openParagraph, .inline [.text "b"],
    .closeParagraph]

theorem wellNested_cellAndParagraph : Token.WellNested .blocks cellAndParagraph := by
  have hcontent (s : String) : Token.WellMarked false [.text s] := .leaf trivial .nil
  have hrows : Token.TableRows
      [.skipped "thead_open" [], .skipped "tr_open" [], .skipped "th_open" [],
        .inline [.text "a"], .skipped "th_close" [], .skipped "tr_close" [],
        .skipped "thead_close" []] :=
    .markup _ <| .markup _ <| .markup _ <| .cell (hcontent "a") <| .markup _ <| .markup _ <|
      .markup _ .nil
  exact .table hrows (.paragraph (hcontent "b") .nil)

/-- The space below the paragraph is given to the line of the cell. -/
theorem not_forall_wellNested_paragraphs_startLine :
    ¬∀ tokens c document, Token.WellNested .blocks tokens →
      convertTokens .standard tokens {} = .ok c →
        (Document.empty 1).replay? c.insertions = some document →
          ∀ range space, .paragraph range (.spaceBelow space) ∈ c.stylings →
            document.StartsLine range.span.start := by
  intro hall
  obtain ⟨c, hc⟩ : ∃ c, convertTokens .standard cellAndParagraph {} = .ok c :=
    exists_eq_ok_of_isOk (by decide +kernel)
  have hresult : (convertTokens .standard cellAndParagraph {}).toOption.map
      (fun c => (c.stylings, (Document.empty 1).replay? c.insertions)) =
        some ([SpanRecords.spaceBelow none .standard ⟨2, 4⟩],
          some ⟨1, [.code 97, .code 98, .newline]⟩) := by decide +kernel
  rw [hc] at hresult
  obtain ⟨hstylings, hreplay⟩ := Prod.mk.inj (Option.some.inj hresult)
  have hline := hall cellAndParagraph c _ wellNested_cellAndParagraph hc hreplay _ _
    (hstylings ▸ List.mem_cons_self)
  revert hline
  decide

end MarkdownEdits
