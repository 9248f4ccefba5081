import MarkdownEdits.Proofs.ItemEnds
import MarkdownEdits.Proofs.ItemLifetimes
import MarkdownEdits.Proofs.StepEffects
import MarkdownEdits.Proofs.StylingForms

/-!
# Bounds of what is recorded

Whatever the tokens are, all that a draft records lies between the index that it started from and
its cursor, and so do the positions that the stylings address.
-/
namespace MarkdownEdits

/-- The span runs forward and stays between two indices. -/
structure Span.Within (span : Span) (first stop : Int) : Prop where
  first_le : first ≤ span.start
  start_le : span.start ≤ span.stop
  stop_le : span.stop ≤ stop

theorem Span.Within.mono {span : Span} {first stop stop' : Int} (h : span.Within first stop)
    (hle : stop ≤ stop') : span.Within first stop' :=
  ⟨h.first_le, h.start_le, Int.le_trans h.stop_le hle⟩

/-- All that is recorded of blocks and texts lies between two indices. -/
structure SpanRecords.Within (records : SpanRecords) (first stop : Int) : Prop where
  texts : ∀ text ∈ records.styledTexts.toList, text.span.Within first stop
  headings : ∀ heading ∈ records.headings.toList, heading.span.Within first stop
  paragraphs : ∀ span ∈ records.paragraphs.toList, span.Within first stop
  listTails : ∀ span ∈ records.listTails.toList, span.Within first stop
  rules : ∀ span ∈ records.rules.toList, span.Within first stop
  codeTexts : ∀ block ∈ records.codeBlocks.toList, block.text.Within first stop
  tables : ∀ block ∈ records.codeBlocks.toList, first ≤ block.tableIndex ∧ block.tableIndex ≤ stop

namespace Draft

/-- The invariant of what is recorded of blocks and texts. -/
structure KeepsRecords (d : Draft) (first : Int) : Prop where
  first_le : first ≤ d.cursor
  paragraphStart : ∀ start ∈ d.paragraphStart, first ≤ start ∧ start ≤ d.cursor
  records : d.records.Within first d.cursor
  texts_nonempty : ∀ text ∈ d.records.styledTexts.toList, text.span.start < text.span.stop
  texts_ascending : d.records.styledTexts.toList.Pairwise fun a b => a.span.stop ≤ b.span.start

/-- Every entry of a list that a step leaves alone or appends to. -/
theorem forall_mem_of_step {α : Type} {xs ys : Array α} {P Q : α → Prop}
    (h : ∀ x ∈ xs.toList, P x) (hweaken : ∀ x, P x → Q x)
    (hstep : ys = xs ∨ ∃ x, Q x ∧ ys = xs.push x) : ∀ y ∈ ys.toList, Q y := by
  have hold : ∀ x ∈ xs.toList, Q x := fun x hx => hweaken x (h x hx)
  rcases hstep with rfl | ⟨x, hx, rfl⟩
  · exact hold
  · rw [Array.toList_push, List.forall_mem_append]
    exact ⟨hold, by simpa using hx⟩

/-- Items that stay within bounds keep the records of a step there. -/
theorem KeepsRecords.step {d next : Draft} {t : Token} {first : Int} (h : d.KeepsRecords first)
    (hs : d.StepsRecords t next) (hcursor : d.cursor ≤ next.cursor)
    (hitems : ∀ item ∈ d.records.items.toList, ∀ span, item.span? = some span →
      span.Within first d.cursor) : next.KeepsRecords first := by
  have hfirst := h.first_le
  have hweaken (span : Span) (hw : span.Within first d.cursor) : span.Within first next.cursor :=
    hw.mono hcursor
  have hstart {start : Int} (hopen : d.paragraphStart = some start) :
      first ≤ start ∧ start ≤ d.cursor := h.paragraphStart start hopen
  refine ⟨Int.le_trans hfirst hcursor, ?_, ⟨?_, ?_, ?_, ?_, ?_, ?_, ?_⟩, ?_, ?_⟩
  · intro start hmem
    rcases hs.paragraphStart with hsame | hnone | hcur
    · rw [hsame] at hmem
      obtain ⟨hle, hle'⟩ := h.paragraphStart start hmem
      omega
    · simp [hnone] at hmem
    · rw [hcur] at hmem
      cases hmem
      omega
  · refine forall_mem_of_step h.records.texts (fun _ => hweaken _) (hs.texts.imp_right ?_)
    rintro ⟨formatting, hlt, hpush⟩
    exact ⟨_, ⟨hfirst, Int.le_of_lt hlt, Int.le_refl _⟩, hpush⟩
  · refine forall_mem_of_step h.records.headings (fun _ => hweaken _) (hs.headings.imp_right ?_)
    rintro ⟨-, start, style, hopen, hpush⟩
    obtain ⟨hle, hle'⟩ := hstart hopen
    exact ⟨_, ⟨hle, hle', hcursor⟩, hpush⟩
  · refine forall_mem_of_step h.records.paragraphs hweaken (hs.paragraphs.imp_right ?_)
    rintro ⟨-, -, start, hopen, hpush⟩
    obtain ⟨hle, hle'⟩ := hstart hopen
    exact ⟨_, ⟨hle, Int.le_trans hle' hcursor, Int.le_refl _⟩, hpush⟩
  · refine forall_mem_of_step h.records.listTails hweaken (hs.listTails.imp_right ?_)
    rintro ⟨-, item, hitem, span, hspan, hpush⟩
    exact ⟨span, hweaken span (hitems item hitem span hspan), hpush⟩
  · refine forall_mem_of_step h.records.rules hweaken (hs.rules.imp_right ?_)
    rintro ⟨hlt, hpush⟩
    exact ⟨_, ⟨by simp only; omega, by simp only; omega, Int.le_refl _⟩, hpush⟩
  · refine forall_mem_of_step h.records.codeTexts (fun _ => hweaken _)
      (hs.codeBlocks.imp_right ?_)
    rintro ⟨block, hle, htext, hforward, hlt, hpush⟩
    simp only [cellContentOffset] at htext
    exact ⟨block, ⟨by omega, hforward, by omega⟩, hpush⟩
  · refine forall_mem_of_step h.records.tables (fun block hb => ⟨hb.1, by omega⟩)
      (hs.codeBlocks.imp_right ?_)
    rintro ⟨block, hle, htext, hforward, hlt, hpush⟩
    simp only [cellContentOffset] at htext
    refine ⟨block, ?_, hpush⟩
    simp only [CodeBlock.tableIndex, tableElementOffset]
    omega
  · refine forall_mem_of_step h.texts_nonempty (fun _ hlt => hlt) (hs.texts.imp_right ?_)
    rintro ⟨formatting, hlt, hpush⟩
    exact ⟨_, hlt, hpush⟩
  · rcases hs.texts with hsame | ⟨formatting, hlt, hpush⟩
    · rw [hsame]
      exact h.texts_ascending
    · rw [hpush, Array.toList_push]
      refine List.pairwise_append.mpr ⟨h.texts_ascending, List.pairwise_singleton _ _, ?_⟩
      intro a ha b hb
      rw [List.mem_singleton.mp hb]
      exact (h.records.texts a ha).stop_le

/-! ## Runs -/

/-- Items that start behind an index and end in front of the cursor have their spans between. -/
theorem within_of_mem_items {d : Draft} {document : Document} {first : Int}
    (hy : d.Yields document) (ho : (d.outline document).InOrder)
    (hstarts : ∀ a ∈ d.bounds, first ≤ a.start) {item : ListItem}
    (hitem : item ∈ d.records.items.toList) {stop : Int} (hstop : item.stop = some stop) :
    (⟨item.start, stop⟩ : Span).Within first d.cursor := by
  have hmem : item.bounds ∈ d.bounds := List.mem_map_of_mem hitem
  obtain ⟨hlt, hend, -⟩ := ho.stop_bounds item.bounds hmem stop hstop
  have hfirst : first ≤ item.start := hstarts item.bounds hmem
  have hcursor := hy.cursor
  simp only [outline] at hend
  exact ⟨hfirst, Int.le_of_lt hlt, by simp only; omega⟩

theorem keepsRecords_steps {first : Int} {tab : Option String} {headingAsTitle : Bool}
    {tokens : List Token} {d : Draft}
    (h : (Draft.start first tab headingAsTitle).steps tokens = .ok d) : d.KeepsRecords first := by
  refine invariant_reached (P := fun d => d.KeepsRecords first) ?_ ?_ h
  · intro reached d t next hd ht hkeeps hs
    obtain ⟨document, hgrows, hstarts⟩ := growsTo_start hd
    obtain ⟨pieces, he, -⟩ := emits_step ht hs
    refine hkeeps.step (stepsRecords ht hs) he.cursor_le fun item hitem span hspan => ?_
    obtain ⟨heq, hstop, -⟩ := ListItem.span?_eq_some hspan
    rw [heq]
    exact within_of_mem_items hgrows.yields hgrows.inOrder hstarts hitem hstop
  · refine ⟨Int.le_refl _, ?_, ⟨?_, ?_, ?_, ?_, ?_, ?_, ?_⟩, ?_, ?_⟩ <;> simp [Draft.start]

/-- Outermost first, lists have the levels 0, 1, 2 and so on. -/
theorem levels_steps {first : Int} {tab : Option String} {headingAsTitle : Bool}
    {tokens : List Token} {d : Draft}
    (h : (Draft.start first tab headingAsTitle).steps tokens = .ok d) :
    d.lists.reverse.map OpenList.level = List.range d.lists.length := by
  refine invariant_steps
    (P := fun d => d.lists.reverse.map OpenList.level = List.range d.lists.length) ?_ rfl h
  intro d t next ht hlevels hs
  have hlists := lists_step ht hs
  split at hlists
  · rw [hlists, List.reverse_cons, List.map_append, hlevels, List.length_cons, List.range_succ]
    rfl
  · rw [hlists]
    cases hd : d.lists with
    | nil => rfl
    | cons list outer =>
      rw [hd, List.reverse_cons, List.map_append, List.length_cons, List.range_succ] at hlevels
      exact (List.append_inj' hlevels rfl).1
  · rw [hlists]
    exact hlevels

/-- What holds of every draft between two tokens, given the index that the run started from. -/
structure WellFormed (d : Draft) (first : Int) : Prop where
  first_le : first ≤ d.cursor
  /-- Outermost first, lists have the levels 0, 1, 2 and so on. -/
  levels : d.lists.reverse.map OpenList.level = List.range d.lists.length
  openItems_ascending : d.openItems.reverse.Pairwise fun outer inner => outer < inner
  openItems_lt : ∀ index ∈ d.openItems, 0 ≤ index ∧ index < d.records.items.size
  items_ascending : d.records.items.toList.Pairwise fun a b => a.start ≤ b.start
  paragraphStart_le : ∀ start ∈ d.paragraphStart, start ≤ d.cursor
  texts_nonempty : ∀ text ∈ d.records.styledTexts.toList, text.span.start < text.span.stop
  texts_ascending : d.records.styledTexts.toList.Pairwise fun a b => a.span.stop ≤ b.span.start
  records : d.records.Within first d.cursor
  items : ∀ item ∈ d.records.items.toList, ∀ stop, item.stop = some stop →
    (⟨item.start, stop⟩ : Span).Within first d.cursor

theorem wellFormed_steps {first : Int} {tab : Option String} {headingAsTitle : Bool}
    {tokens : List Token} {d : Draft}
    (h : (Draft.start first tab headingAsTitle).steps tokens = .ok d) : d.WellFormed first := by
  obtain ⟨document, hgrows, hstarts⟩ := growsTo_start h
  have hkeeps := keepsRecords_steps h
  have horder := hgrows.inOrder
  have hascending := List.pairwise_map.mp horder.starts_pairwise
  constructor
  · exact hkeeps.first_le
  · exact levels_steps h
  · exact List.pairwise_reverse.mpr horder.openItems_pairwise
  · intro index hindex
    simpa [outline] using horder.openItems_lt index hindex
  · exact hascending
  · exact fun start hstart => (hkeeps.paragraphStart start hstart).2
  · exact hkeeps.texts_nonempty
  · exact hkeeps.texts_ascending
  · exact hkeeps.records
  · exact fun item hitem stop => within_of_mem_items hgrows.yields horder hstarts hitem

end Draft

/-! ## Stylings -/

namespace Styling

/-- The positions that a styling addresses. -/
def indices : Styling → List Int
  | text range _ => [range.span.start, range.span.stop]
  | paragraph range _ => [range.span.start, range.span.stop]
  | bullets range _ => [range.span.start, range.span.stop]
  | cell table _ _ _ => [table.index]

end Styling

theorem Span.Within.forall_mem {span : Span} {first stop : Int} (h : span.Within first stop) :
    ∀ index ∈ [span.start, span.stop], first ≤ index ∧ index ≤ stop := by
  obtain ⟨hfirst, hle, hstop⟩ := h
  intro index hindex
  simp only [List.mem_cons, List.not_mem_nil, or_false] at hindex
  omega

namespace BulletSpan

theorem exists_start_eq_of_mem_merge {spans : List BulletSpan} {r : BulletSpan}
    (h : r ∈ merge spans) : ∃ x ∈ spans, x.span.start = r.span.start :=
  forall_mem_merge (P := fun r => ∃ x ∈ spans, x.span.start = r.span.start)
    (fun _ _ hr _ _ => hr) (fun x hx => ⟨x, hx, rfl⟩) r h

end BulletSpan

/-- Bullets start where one item does and stop where some item does. -/
theorem Draft.within_of_mem_bullets {d : Draft} {first : Int} (h : d.WellFormed first)
    {bullets : BulletSpan}
    (hmem : bullets ∈ BulletSpan.descending (BulletSpan.ofItems d.records.items.toList)) :
    ∀ index ∈ [bullets.span.start, bullets.span.stop], first ≤ index ∧ index ≤ d.cursor := by
  have hitem {s : BulletSpan} (hs : s ∈ BulletSpan.ascending d.itemSpans) :
      s.span.Within first d.cursor := by
    have hs := (StableSort.sort_perm _ _).mem_iff.mp hs
    obtain ⟨item, hitem, hofItem⟩ := List.mem_filterMap.mp hs
    obtain ⟨heq, hstop, -⟩ := BulletSpan.ofItem?_eq_some hofItem
    rw [heq]
    exact h.items item hitem _ hstop
  have hmerge : bullets ∈ BulletSpan.merge (BulletSpan.ascending d.itemSpans) :=
    (BulletSpan.descending_perm _).mem_iff.mp hmem
  obtain ⟨x, hx, hstart⟩ := BulletSpan.exists_start_eq_of_mem_merge hmerge
  obtain ⟨y, hy, hstop⟩ := BulletSpan.exists_stop_eq_of_mem_merge hmerge
  obtain ⟨hx1, hx2, hx3⟩ := hitem hx
  obtain ⟨hy1, hy2, hy3⟩ := hitem hy
  intro index hindex
  simp only [List.mem_cons, List.not_mem_nil, or_false] at hindex
  omega

theorem Draft.within_of_mem_stylings {d : Draft} {first : Int} (h : d.WellFormed first)
    {config : Config} {s : Styling} (hs : s ∈ d.stylings config) :
    ∀ index ∈ s.indices, first ≤ index ∧ index ≤ d.cursor := by
  rcases SpanRecords.mem_stylings.mp hs with ⟨text, hmem, hs⟩ | ⟨heading, hmem, hs⟩ |
    ⟨span, hmem, rfl⟩ | ⟨block, hmem, hs⟩ | ⟨span, hmem, rfl⟩ | ⟨bullets, hmem, rfl⟩
  · obtain ⟨style, rfl⟩ := SpanRecords.eq_text_of_mem_styleText hs
    exact (h.records.texts text hmem).forall_mem
  · obtain ⟨style, rfl⟩ := SpanRecords.eq_paragraph_of_mem_styleHeading hs
    exact (h.records.headings heading hmem).forall_mem
  · rcases List.mem_append.mp hmem with hmem | hmem
    · exact (h.records.paragraphs span hmem).forall_mem
    · exact (h.records.listTails span hmem).forall_mem
  · rcases SpanRecords.mem_styleCodeBlock hs with rfl | rfl
    · exact (h.records.codeTexts block hmem).forall_mem
    · simpa [Styling.indices] using h.records.tables block hmem
  · exact (h.records.rules span hmem).forall_mem
  · exact Draft.within_of_mem_bullets h hmem

/-- Every draft that a conversion comes by is well formed, the cursor never goes back, and the
stylings address positions between the start and the last cursor. -/
theorem convertTokens_staysWithin {config : Config} {tokens : List Token} {o : Options}
    {first : Int} {tab : Option String} (hfirst : o.startIndex = .ok first)
    (htab : o.tabIdentifier = .ok tab) :
    (∀ before after d, Token.atomsOf tokens = before ++ after →
      (Draft.start first tab (o.wantsTitle config)).steps before = .ok d →
        d.WellFormed first ∧ ∀ between rest next, after = between ++ rest →
          d.steps between = .ok next → d.cursor ≤ next.cursor) ∧
    ∀ c, convertTokens config tokens o = .ok c → ∃ final,
      (Draft.start first tab (o.wantsTitle config)).steps tokens = .ok final ∧
        ∀ s ∈ c.stylings, ∀ index ∈ s.indices, first ≤ index ∧ index ≤ final.cursor := by
  refine ⟨fun before after d _ hd => ⟨Draft.wellFormed_steps hd, ?_⟩, ?_⟩
  · intro between rest next _ hnext
    obtain ⟨pieces, he, -⟩ := Draft.emits_steps hnext
    exact he.cursor_le
  · intro c hc
    obtain ⟨start, tab', final, hstart, htab', hrun, rfl⟩ := convertTokens_eq_ok.mp hc
    rw [hfirst] at hstart
    cases hstart
    rw [htab] at htab'
    cases htab'
    exact ⟨final, hrun, fun s hs => Draft.within_of_mem_stylings (Draft.wellFormed_steps hrun) hs⟩

/-- A heading that no token opened, items and lists that are closed too often or not at all, a
paragraph closed twice, and a heading open across a list. -/
def strayCloses : List Token :=
  [.closeHeading, .closeItem, .openHeading "h2", .inline [.text "😀", .openMark .strong, .text "a"],
    .openList .bullet, .openItem, .openParagraph, .openList .ordered, .openItem, .codeSpan "b",
    .closeParagraph, .closeItem, .closeItem, .closeItem, .closeHeading, .rule, .closeList .bullet,
    .codeBlock "c\n" "", .openParagraph, .text "d", .closeList .bullet, .closeList .bullet,
    .closeParagraph, .closeParagraph]

theorem convertTokens_staysWithin_strayCloses :
    ∃ c, convertTokens .standard strayCloses {} = .ok c ∧ ∃ final,
      (Draft.start 1 none (Options.wantsTitle {} .standard)).steps strayCloses = .ok final ∧
        final.WellFormed 1 ∧
          ∀ s ∈ c.stylings, ∀ index ∈ s.indices, 1 ≤ index ∧ index ≤ final.cursor := by
  obtain ⟨c, hc⟩ : ∃ c, convertTokens .standard strayCloses {} = .ok c :=
    exists_eq_ok_of_isOk (by decide +kernel)
  obtain ⟨hdrafts, hstylings⟩ :=
    @convertTokens_staysWithin .standard strayCloses {} 1 none rfl rfl
  obtain ⟨final, hfinal, hindices⟩ := hstylings c hc
  have hatoms := hfinal
  rw [← Draft.steps_atomsOf] at hatoms
  exact ⟨c, hc, final, hfinal, (hdrafts _ [] final (by simp) hatoms).1, hindices⟩

end MarkdownEdits
