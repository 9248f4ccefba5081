import MarkdownEdits.Proofs.BlockOrigins
import MarkdownEdits.Proofs.DraftBounds

/-!
# Empty ranges

Texts, list tails, rules and bullets are styled only where there is something to style. A heading
is styled whatever its content is, and so is a paragraph outside of all lists, which need not end
its line if the one before has ended. Where the content of such a block inserts nothing, the range
is empty.
-/
namespace MarkdownEdits

/-- The units that a style of text, a style of paragraphs or bullets are for. -/
def Styling.span? : Styling → Option Span
  | text range _ => some range.span
  | paragraph range _ => some range.span
  | bullets range _ => some range.span
  | cell .. => none

namespace Draft

variable {first final d e : Draft} {tokens : List Token}

/-- A heading, or a paragraph outside of all lists, that inserts nothing up to its end: its content
inserts nothing, and the paragraph finds its line ended already. -/
def BareBlock (first : Draft) (tokens : List Token) (d : Draft) : Prop :=
  ∃ e, e.cursor = d.cursor ∧
    ((∃ level : HeadingLevel,
        first.TakesBlock tokens (.openHeading level.tag) .closeHeading d e) ∨
      d.lists = [] ∧ e.endsWithNewline = true ∧
        first.TakesBlock tokens .openParagraph .closeParagraph d e)

theorem TakesBlock.cursor_le {opening closing : Token}
    (h : first.TakesBlock tokens opening closing d e) : d.cursor ≤ e.cursor := by
  obtain ⟨before, children, after, -, -, hblock⟩ := h
  obtain ⟨pieces, he, -⟩ := emits_steps hblock
  exact he.cursor_le

/-- A run goes on behind the content of a block that it takes. -/
theorem TakesBlock.exists_steps {opening closing : Token}
    (h : first.TakesBlock tokens opening closing d e) (hrun : first.steps tokens = .ok final) :
    ∃ children after closed, .inline children ∈ tokens ∧
      d.steps [opening, .inline children] = .ok e ∧ e.step closing = .ok closed ∧
        closed.steps after = .ok final := by
  obtain ⟨before, children, after, rfl, hbefore, hblock⟩ := h
  obtain ⟨closed, hclosed, hafter⟩ := steps_append_eq_ok.mp hrun
  obtain ⟨d', hd', hclosed⟩ := steps_append_eq_ok.mp hclosed
  obtain ⟨e', he', hclosed⟩ := steps_block_eq_ok.mp hclosed
  rw [hbefore] at hd'
  cases hd'
  rw [hblock] at he'
  cases he'
  exact ⟨children, after, closed, by simp, hblock, hclosed, hafter⟩

theorem cursor_closeParagraph (d : Draft) : d.closeParagraph.cursor = d.endLine.cursor :=
  d.emits_closeParagraph.cursor.trans d.emits_endLine.cursor.symm

/-- Only an ended line lets a paragraph close where its content ends. -/
theorem cursor_closeParagraph_le_iff (d : Draft) :
    d.closeParagraph.cursor ≤ d.cursor ↔ d.endsWithNewline = true := by
  have hline : (Utf16.length "\n" : Int) = 1 := by decide
  rw [cursor_closeParagraph, endLine]
  split
  · rename_i hended
    exact iff_of_true (Int.le_refl _) hended
  · rename_i hopen
    rw [cursor_insertText, hline]
    exact iff_of_false (by omega) hopen

/-! ## Records -/

section Records

variable {α : Type} (view : Draft → Array α)

/-- What each token leaves alone or appends to keeps its entries in their places. -/
theorem prefix_steps_of_push
    (hpush : ∀ {d t next}, Token.IsAtom t → Draft.step d t = .ok next →
      view next = view d ∨ ∃ x, view next = (view d).push x)
    (h : d.steps tokens = .ok final) : (view d).toList <+: (view final).toList := by
  refine invariant_steps (P := fun e => (view d).toList <+: (view e).toList) ?_
    (List.prefix_refl _) h
  intro e t next ht hinit hs
  rcases hpush ht hs with hsame | ⟨y, hnext⟩
  · rwa [hsame]
  · rw [hnext, Array.toList_push]
    exact hinit.trans (List.prefix_append _ _)

/-- What is appended of one kind only has entries of that kind. -/
theorem forall_mem_steps_of_push {P : α → Prop}
    (hpush : ∀ {d t next}, Token.IsAtom t → Draft.step d t = .ok next →
      view next = view d ∨ ∃ x, P x ∧ view next = (view d).push x)
    (h : first.steps tokens = .ok final) (hfirst : view first = #[]) :
    ∀ x ∈ (view final).toList, P x := by
  refine invariant_steps (P := fun d => ∀ x ∈ (view d).toList, P x) ?_ (by simp [hfirst]) h
  intro d t next ht hd hs
  exact forall_mem_of_step hd (fun _ hx => hx) (hpush ht hs)

end Records

theorem mem_headings_steps {heading : Heading} (h : d.steps tokens = .ok final)
    (hmem : heading ∈ d.records.headings.toList) : heading ∈ final.records.headings.toList := by
  refine (prefix_steps_of_push (fun d => d.records.headings) (fun ht hs => ?_) h).subset hmem
  exact (stepsRecords ht hs).headings.imp_right fun ⟨_, _, _, _, hpush⟩ => ⟨_, hpush⟩

theorem mem_paragraphs_steps {span : Span} (h : d.steps tokens = .ok final)
    (hmem : span ∈ d.records.paragraphs.toList) : span ∈ final.records.paragraphs.toList := by
  refine (prefix_steps_of_push (fun d => d.records.paragraphs) (fun ht hs => ?_) h).subset hmem
  exact (stepsRecords ht hs).paragraphs.imp_right fun ⟨_, _, _, _, hpush⟩ => ⟨_, hpush⟩

theorem listTails_nonempty_steps (h : first.steps tokens = .ok final)
    (hfirst : first.records.listTails = #[]) :
    ∀ span ∈ final.records.listTails.toList, span.start < span.stop := by
  refine forall_mem_steps_of_push (fun d => d.records.listTails) (fun ht hs => ?_) h hfirst
  refine (stepsRecords ht hs).listTails.imp_right ?_
  rintro ⟨-, item, -, span, hspan, hpush⟩
  obtain ⟨heq, -, hlt⟩ := ListItem.span?_eq_some hspan
  refine ⟨span, ?_, hpush⟩
  rw [heq]
  exact hlt

theorem rules_nonempty_steps (h : first.steps tokens = .ok final)
    (hfirst : first.records.rules = #[]) :
    ∀ span ∈ final.records.rules.toList, span.start < span.stop := by
  refine forall_mem_steps_of_push (fun d => d.records.rules) (fun ht hs => ?_) h hfirst
  refine (stepsRecords ht hs).rules.imp_right ?_
  rintro ⟨-, hpush⟩
  exact ⟨_, by simp only; omega, hpush⟩

/-! ## Stylings -/

variable {config : Config} {s : Styling} {span : Span}

theorem RecordsBlocks.bareBlock_of_heading (h : first.RecordsBlocks tokens final)
    (hfirst : first.records.headings = #[]) {heading : Heading}
    (hmem : heading ∈ final.records.headings.toList)
    (hempty : heading.span.stop ≤ heading.span.start) :
    ∃ d : Draft, heading.span = ⟨d.cursor, d.cursor⟩ ∧ first.BareBlock tokens d := by
  rcases h.headings heading hmem with hmem | ⟨level, d, e, hblock, hspan⟩
  · simp [hfirst] at hmem
  · rw [hspan] at hempty ⊢
    have hcursor : e.cursor = d.cursor := Int.le_antisymm hempty hblock.cursor_le
    exact ⟨d, by rw [hcursor], e, hcursor, .inl ⟨level, hblock⟩⟩

theorem RecordsBlocks.bareBlock_of_paragraph (h : first.RecordsBlocks tokens final)
    (hfirst : first.records.paragraphs = #[]) (hmem : span ∈ final.records.paragraphs.toList)
    (hempty : span.stop ≤ span.start) :
    ∃ d : Draft, span = ⟨d.cursor, d.cursor⟩ ∧ first.BareBlock tokens d := by
  rcases h.paragraphs span hmem with hmem | ⟨d, e, hblock, hlists, rfl⟩
  · simp [hfirst] at hmem
  · simp only at hempty
    have hle := hblock.cursor_le
    have hclose := e.emits_closeParagraph.cursor_le
    have hcursor : e.cursor = d.cursor := by omega
    have hstop : e.closeParagraph.cursor = d.cursor := by omega
    have hended := e.cursor_closeParagraph_le_iff.mp (by omega)
    exact ⟨d, by rw [hstop], e, hcursor, .inr ⟨hlists, hended, hblock⟩⟩

theorem nonempty_of_mem_bullets {bullets : BulletSpan}
    (h : bullets ∈ BulletSpan.descending (BulletSpan.ofItems final.records.items.toList)) :
    bullets.span.start < bullets.span.stop := by
  refine BulletSpan.isProper_of_mem_merge (fun a ha => ?_) bullets
    ((BulletSpan.descending_perm _).mem_iff.mp h)
  exact isProper_of_mem_itemSpans (d := final) ((StableSort.sort_perm _ _).mem_iff.mp ha)

/-- Only headings and paragraphs may have an empty range, those of bare blocks. -/
theorem bareBlock_of_mem_stylings {start : Int} {tab : Option String} {headingAsTitle : Bool}
    (hnested : Token.WellNested .blocks tokens)
    (hrun : (Draft.start start tab headingAsTitle).steps tokens = .ok final)
    (hs : s ∈ final.stylings config) (hspan : s.span? = some span)
    (hempty : span.stop ≤ span.start) :
    (∃ style, s = .paragraph (span.inTab final.tab) style) ∧
      ∃ d : Draft, span = ⟨d.cursor, d.cursor⟩ ∧
        (Draft.start start tab headingAsTitle).BareBlock tokens d := by
  have hblocks := recordsOwn_wellNested hnested _ _ hrun
  rcases SpanRecords.mem_stylings.mp hs with ⟨text, hmem, hs⟩ | ⟨heading, hmem, hs⟩ |
    ⟨paragraph, hmem, rfl⟩ | ⟨block, hmem, hs⟩ | ⟨rule, hmem, rfl⟩ | ⟨bullets, hmem, rfl⟩
  · obtain ⟨style, rfl⟩ := SpanRecords.eq_text_of_mem_styleText hs
    cases hspan
    exact absurd ((wellFormed_steps hrun).texts_nonempty text hmem) (Int.not_lt.mpr hempty)
  · obtain ⟨style, rfl⟩ := SpanRecords.eq_paragraph_of_mem_styleHeading hs
    cases hspan
    exact ⟨⟨style, rfl⟩, hblocks.bareBlock_of_heading rfl hmem hempty⟩
  · cases hspan
    rcases List.mem_append.mp hmem with hmem | hmem
    · exact ⟨⟨_, rfl⟩, hblocks.bareBlock_of_paragraph rfl hmem hempty⟩
    · exact absurd (listTails_nonempty_steps hrun rfl paragraph hmem) (Int.not_lt.mpr hempty)
  · rcases SpanRecords.mem_styleCodeBlock hs with rfl | rfl
    · cases hspan
      exact absurd (SpanRecords.nonempty_of_text_mem_styleCodeBlock hs) (Int.not_lt.mpr hempty)
    · cases hspan
  · cases hspan
    exact absurd (rules_nonempty_steps hrun rfl rule hmem) (Int.not_lt.mpr hempty)
  · cases hspan
    exact absurd (nonempty_of_mem_bullets hmem) (Int.not_lt.mpr hempty)

/-- Every bare block has an empty range. -/
theorem BareBlock.exists_mem_stylings (hnested : Token.WellNested .blocks tokens)
    (hrun : first.steps tokens = .ok final) (h : first.BareBlock tokens d) :
    ∃ s ∈ final.stylings config, s.span? = some ⟨d.cursor, d.cursor⟩ := by
  obtain ⟨e, hcursor, ⟨level, hblock⟩ | ⟨hlists, hended, hblock⟩⟩ := h
  · obtain ⟨children, after, closed, hmem, hcontent, hclose, hafter⟩ := hblock.exists_steps hrun
    cases hclose
    obtain ⟨style, hstyle, hheadings, -⟩ :=
      records_heading (hnested.wellMarked_of_mem hmem) hcontent
    have hrecord : ⟨⟨d.cursor, e.cursor⟩, some style⟩ ∈ final.records.headings.toList :=
      mem_headings_steps hafter (by simp [hheadings])
    rw [hcursor] at hrecord
    exact ⟨_, SpanRecords.mem_stylings.mpr (.inr (.inl
      ⟨_, hrecord, SpanRecords.paragraph_mem_styleHeading hstyle⟩)), rfl⟩
  · obtain ⟨children, after, closed, hmem, hcontent, hclose, hafter⟩ := hblock.exists_steps hrun
    cases hclose
    obtain ⟨-, hparagraphs⟩ := records_paragraph (hnested.wellMarked_of_mem hmem) hcontent
    rw [if_pos (List.isEmpty_iff.mpr hlists)] at hparagraphs
    have hstop : e.closeParagraph.cursor = d.cursor := by
      have hle := e.cursor_closeParagraph_le_iff.mpr hended
      have hge := e.emits_closeParagraph.cursor_le
      omega
    have hrecord : ⟨d.cursor, e.closeParagraph.cursor⟩ ∈ final.records.paragraphs.toList :=
      mem_paragraphs_steps hafter (by simp [hparagraphs])
    rw [hstop] at hrecord
    exact ⟨_, SpanRecords.mem_stylings.mpr (.inr (.inr (.inl
      ⟨_, List.mem_append_left _ hrecord, rfl⟩))), rfl⟩

end Draft

/-- Which ranges of a conversion are empty, given the draft that it starts from. -/
structure Conversion.EmptyRanges (c : Conversion) (start : Draft) (tokens : List Token) :
    Prop where
  /-- Texts and bullets have ranges that are not empty. -/
  paragraph : ∀ s ∈ c.stylings, ∀ span, s.span? = some span → span.stop ≤ span.start →
    ∃ tab style, s = .paragraph (span.inTab tab) style
  empty_iff : ∀ span : Span, (∃ s ∈ c.stylings, s.span? = some span ∧ span.stop ≤ span.start) ↔
    ∃ d : Draft, span = ⟨d.cursor, d.cursor⟩ ∧ start.BareBlock tokens d

/-- The ranges of a well-nested stream are not empty but for those of its bare blocks. -/
theorem convertTokens_emptyRanges {config : Config} {tokens : List Token} {o : Options}
    {first : Int} {tab : Option String} (hnested : Token.WellNested .blocks tokens)
    (hfirst : o.startIndex = .ok first) (htab : o.tabIdentifier = .ok tab) :
    ∃ c, convertTokens config tokens o = .ok c ∧
      c.EmptyRanges (.start first tab (o.wantsTitle config)) tokens := by
  obtain ⟨final, hrun, -⟩ := Draft.accepts_of_wellNested hnested
    (Draft.start first tab (o.wantsTitle config)) nofun
  refine ⟨_, convertTokens_eq_ok.mpr ⟨first, tab, final, hfirst, htab, hrun, rfl⟩, ?_, ?_⟩
  · intro s hs span hspan hempty
    exact ⟨_, (Draft.bareBlock_of_mem_stylings hnested hrun hs hspan hempty).1⟩
  · intro span
    constructor
    · rintro ⟨s, hs, hspan, hempty⟩
      exact (Draft.bareBlock_of_mem_stylings hnested hrun hs hspan hempty).2
    · rintro ⟨d, rfl, hbare⟩
      obtain ⟨s, hs, hspan⟩ := hbare.exists_mem_stylings hnested hrun
      exact ⟨s, hs, hspan, Int.le_refl _⟩

/-- A paragraph at the very start that holds nothing but an image, another one behind it, and a
heading without content in an item, behind the item's task marker. -/
def bareBlocks : List Token :=
  [.openParagraph, .inline [.skipped "image" [.text "a"]], .closeParagraph, .openParagraph,
    .inline [.openMark .strong, .skipped "image" [], .closeMark .strong], .closeParagraph,
    .openList .bullet, .openItem, .openHeading "h2", .inline [.text "[ ] "], .closeHeading,
    .closeItem, .closeList .bullet]

theorem wellNested_bareBlocks : Token.WellNested .blocks bareBlocks := by
  have himage (children : List Token) : Token.WellMarked false [.skipped "image" children] :=
    .leaf trivial .nil
  have hstrong : Token.WellMarked false
      [.openMark .strong, .skipped "image" [], .closeMark .strong] := .mark .strong (himage []) .nil
  have hmarker : Token.WellMarked false [.text "[ ] "] := .leaf trivial .nil
  have hitem : Token.WellNested .items
      [.openItem, .openHeading "h2", .inline [.text "[ ] "], .closeHeading, .closeItem] :=
    .item (.heading .h2 hmarker .nil) .nil
  exact .paragraph (himage _) (.paragraph hstrong (.list .bullet hitem .nil))

theorem convertTokens_emptyRanges_bareBlocks :
    ∃ c, convertTokens .standard bareBlocks {} = .ok c ∧
      c.EmptyRanges (.start 1 none (Options.wantsTitle {} .standard)) bareBlocks :=
  convertTokens_emptyRanges wellNested_bareBlocks rfl rfl

/-- The second paragraph and the heading have empty ranges. -/
example : (convertTokens .standard bareBlocks {}).toOption.map
    (fun c => c.stylings.filterMap Styling.span?) =
      some [⟨2, 2⟩, ⟨1, 2⟩, ⟨2, 2⟩] := by decide +kernel

/-- A heading without content. -/
def emptyHeading : List Token := [.openHeading "h1", .inline [], .closeHeading]

theorem not_forall_wellNested_ranges_nonempty :
    ¬∀ tokens c, Token.WellNested .blocks tokens → convertTokens .standard tokens {} = .ok c →
      ∀ s ∈ c.stylings, ∀ span, s.span? = some span → span.start < span.stop := by
  intro hall
  obtain ⟨c, hc⟩ : ∃ c, convertTokens .standard emptyHeading {} = .ok c :=
    exists_eq_ok_of_isOk (by decide +kernel)
  have hstylings : (convertTokens .standard emptyHeading {}).toOption.map Conversion.stylings =
      some [.paragraph ⟨⟨1, 1⟩, none⟩ (.named ⟨"HEADING_1"⟩)] := by decide +kernel
  rw [hc] at hstylings
  have hranges := hall emptyHeading c (.heading .h1 .nil .nil) hc
  rw [Option.some.inj hstylings] at hranges
  exact absurd (hranges _ List.mem_cons_self ⟨1, 1⟩ rfl) (Int.lt_irrefl 1)

end MarkdownEdits
