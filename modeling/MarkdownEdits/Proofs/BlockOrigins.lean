import MarkdownEdits.Proofs.WellNestedRuns

/-!
# Where blocks are recorded

In a well-nested stream a heading is recorded from where it opens to where its content ends, and a
paragraph outside of all lists from where it opens to where its line ends. Nothing else records
either.
-/
namespace MarkdownEdits
namespace Token

theorem TableRows.wellMarked_of_mem {rows children : List Token} (h : TableRows rows)
    (hmem : .inline children ∈ rows) : WellMarked false children := by
  induction h with
  | nil => cases hmem
  | markup type _ ih => exact ih (by simpa using hmem)
  | cell hchildren _ ih =>
    rcases List.mem_cons.mp hmem with heq | hmem
    · cases heq
      exact hchildren
    · exact ih hmem

/-- The content of the blocks of a well-nested stream is inline content. -/
theorem WellNested.wellMarked_of_mem {siblings : Siblings} {tokens children : List Token}
    (h : WellNested siblings tokens) (hmem : .inline children ∈ tokens) :
    WellMarked false children := by
  induction h with
  | nil => cases hmem
  | heading level hchildren _ ih =>
    simp only [List.mem_cons, reduceCtorEq, inline.injEq, false_or] at hmem
    rcases hmem with rfl | hmem
    · exact hchildren
    · exact ih hmem
  | paragraph hchildren _ ih =>
    simp only [List.mem_cons, reduceCtorEq, inline.injEq, false_or] at hmem
    rcases hmem with rfl | hmem
    · exact hchildren
    · exact ih hmem
  | rule _ ih => exact ih (by simpa using hmem)
  | codeBlock content info _ ih => exact ih (by simpa using hmem)
  | markup _ _ ih => exact ih (by simpa using hmem)
  | quote _ _ ihbody ihrest =>
    simp only [List.cons_append, List.mem_cons, List.mem_append, reduceCtorEq, false_or] at hmem
    exact hmem.elim ihbody ihrest
  | table hrows _ ih =>
    simp only [List.cons_append, List.mem_cons, List.mem_append, reduceCtorEq, false_or] at hmem
    exact hmem.elim hrows.wellMarked_of_mem ih
  | list kind _ _ ihbody ihrest =>
    simp only [List.cons_append, List.mem_cons, List.mem_append, reduceCtorEq, false_or] at hmem
    exact hmem.elim ihbody ihrest
  | item _ _ ihbody ihrest =>
    simp only [List.cons_append, List.mem_cons, List.mem_append, reduceCtorEq, false_or] at hmem
    exact hmem.elim ihbody ihrest

end Token

namespace Draft

/-- A block that a run takes, with the drafts in front of the block and behind its content. -/
def TakesBlock (first : Draft) (tokens : List Token) (opening closing : Token) (d e : Draft) :
    Prop :=
  ∃ before children after, tokens = before ++ [opening, .inline children, closing] ++ after ∧
    first.steps before = .ok d ∧ d.steps [opening, .inline children] = .ok e

/-- The headings and the paragraphs that a run records come from blocks that it takes. -/
structure RecordsBlocks (first : Draft) (tokens : List Token) (final : Draft) : Prop where
  headings : ∀ heading ∈ final.records.headings.toList,
    heading ∈ first.records.headings.toList ∨ ∃ (level : HeadingLevel) (d e : Draft),
      first.TakesBlock tokens (.openHeading level.tag) .closeHeading d e ∧
        heading.span = ⟨d.cursor, e.cursor⟩
  paragraphs : ∀ span ∈ final.records.paragraphs.toList,
    span ∈ first.records.paragraphs.toList ∨ ∃ d e,
      first.TakesBlock tokens .openParagraph .closeParagraph d e ∧ d.lists = [] ∧
        span = ⟨d.cursor, e.closeParagraph.cursor⟩

variable {first next final d e : Draft} {xs ys zs children : List Token}

theorem TakesBlock.append_right {opening closing : Token}
    (h : first.TakesBlock xs opening closing d e) (ys : List Token) :
    first.TakesBlock (xs ++ ys) opening closing d e := by
  obtain ⟨before, children, after, rfl, hbefore, hblock⟩ := h
  exact ⟨before, children, after ++ ys, by simp, hbefore, hblock⟩

theorem TakesBlock.append_left {opening closing : Token}
    (h : next.TakesBlock ys opening closing d e) (hxs : first.steps xs = .ok next) :
    first.TakesBlock (xs ++ ys) opening closing d e := by
  obtain ⟨before, children, after, rfl, hbefore, hblock⟩ := h
  exact ⟨xs ++ before, children, after, by simp, steps_append_eq_ok.mpr ⟨next, hxs, hbefore⟩, hblock⟩

theorem RecordsBlocks.of_same (hheadings : final.records.headings = first.records.headings)
    (hparagraphs : final.records.paragraphs = first.records.paragraphs) :
    first.RecordsBlocks xs final where
  headings := fun heading hmem => .inl (by rwa [← hheadings])
  paragraphs := fun span hmem => .inl (by rwa [← hparagraphs])

theorem RecordsBlocks.append (hx : first.RecordsBlocks xs next) (hxs : first.steps xs = .ok next)
    (hy : next.RecordsBlocks ys final) : first.RecordsBlocks (xs ++ ys) final where
  headings := by
    intro heading hmem
    rcases hy.headings heading hmem with hmem | ⟨level, d, e, hblock, hspan⟩
    · refine (hx.headings heading hmem).imp_right ?_
      rintro ⟨level, d, e, hblock, hspan⟩
      exact ⟨level, d, e, hblock.append_right ys, hspan⟩
    · exact .inr ⟨level, d, e, hblock.append_left hxs, hspan⟩
  paragraphs := by
    intro span hmem
    rcases hy.paragraphs span hmem with hmem | ⟨d, e, hblock, hspan⟩
    · refine (hx.paragraphs span hmem).imp_right ?_
      rintro ⟨d, e, hblock, hspan⟩
      exact ⟨d, e, hblock.append_right ys, hspan⟩
    · exact .inr ⟨d, e, hblock.append_left hxs, hspan⟩

/-! ## Blocks -/

theorem steps_inline_eq_ok {opening : Token} :
    d.steps [opening, .inline children] = .ok e ↔
      ∃ opened, d.step opening = .ok opened ∧ opened.steps children = .ok e := by
  simp only [steps_cons_eq_ok, step, steps_nil, Except.ok.injEq, exists_eq_right]

theorem steps_block_eq_ok {opening closing : Token} :
    d.steps [opening, .inline children, closing] = .ok final ↔
      ∃ e, d.steps [opening, .inline children] = .ok e ∧ e.step closing = .ok final := by
  have hparts : [opening, .inline children, closing] = [opening, .inline children] ++ [closing] :=
    rfl
  simp only [hparts, steps_append_eq_ok, steps_singleton]

theorem blockState_of_steps {opened : Draft} (hc : Token.WellMarked false children)
    (h : opened.steps children = .ok e) : e.blockState = opened.blockState := by
  obtain ⟨e', he', hblocks⟩ := exists_steps_of_isInline hc.isInline opened
  rw [h] at he'
  cases he'
  exact hblocks

/-- A heading is open up to the end of its content. -/
theorem heading_of_steps {level : HeadingLevel} (hc : Token.WellMarked false children)
    (h : d.steps [.openHeading level.tag, .inline children] = .ok e) :
    e.headingLevel = some level ∧ e.paragraphStart = some d.cursor := by
  obtain ⟨opened, hopened, hchildren⟩ := steps_inline_eq_ok.mp h
  have hblocks := blockState_of_steps hc hchildren
  rw [step, openHeading, HeadingLevel.ofTag?_tag] at hopened
  cases hopened
  exact ⟨congrArg BlockState.headingLevel hblocks, congrArg BlockState.paragraphStart hblocks⟩

/-- A heading is recorded from where it opens to where its content ends. -/
theorem records_heading {level : HeadingLevel} (hc : Token.WellMarked false children)
    (h : d.steps [.openHeading level.tag, .inline children] = .ok e) :
    ∃ style : NamedStyle, style.name ≠ "" ∧ e.closeHeading.records.headings =
        d.records.headings.push ⟨⟨d.cursor, e.cursor⟩, some style⟩ ∧
      e.closeHeading.records.paragraphs = d.records.paragraphs := by
  obtain ⟨hlevel, hstart⟩ := heading_of_steps hc h
  obtain ⟨opened, hopened, hchildren⟩ := steps_inline_eq_ok.mp h
  have hblocks := blockState_of_steps hc hchildren
  rw [step, openHeading, HeadingLevel.ofTag?_tag] at hopened
  cases hopened
  have hheadings : e.records.headings = d.records.headings := congrArg BlockState.headings hblocks
  have hparagraphs : e.records.paragraphs = d.records.paragraphs :=
    congrArg BlockState.paragraphs hblocks
  obtain ⟨style, hstyle, hrecords, -⟩ := closeHeading_of_open hlevel hstart
  exact ⟨style, hstyle, by rw [hrecords, hheadings], by rw [hrecords, hparagraphs]⟩

/-- A paragraph outside of all lists is recorded from where it opens to where its line ends. -/
theorem records_paragraph (hc : Token.WellMarked false children)
    (h : d.steps [.openParagraph, .inline children] = .ok e) :
    e.closeParagraph.records.headings = d.records.headings ∧
      e.closeParagraph.records.paragraphs =
        if d.lists.isEmpty then d.records.paragraphs.push ⟨d.cursor, e.closeParagraph.cursor⟩
        else d.records.paragraphs := by
  obtain ⟨opened, hopened, hchildren⟩ := steps_inline_eq_ok.mp h
  have hblocks := blockState_of_steps hc hchildren
  have hclosed := e.blockState_closeParagraph
  have hparagraphs := e.paragraphs_closeParagraph
  have hheadings : e.closeParagraph.records.headings = e.records.headings :=
    congrArg BlockState.headings hclosed
  cases hopened
  by_cases hlists : d.lists.isEmpty
  · rw [openParagraph, if_pos hlists] at hblocks
    have hstart : e.paragraphStart = some d.cursor := congrArg BlockState.paragraphStart hblocks
    have hsame : e.records.paragraphs = d.records.paragraphs :=
      congrArg BlockState.paragraphs hblocks
    have hopen : e.lists = d.lists := congrArg BlockState.lists hblocks
    rw [hstart, hopen, hsame] at hparagraphs
    exact ⟨hheadings.trans (congrArg BlockState.headings hblocks), hparagraphs⟩
  · rw [openParagraph, if_neg hlists] at hblocks
    have hsame : e.records.paragraphs = d.records.paragraphs :=
      congrArg BlockState.paragraphs hblocks
    have hopen : e.lists = d.lists := congrArg BlockState.lists hblocks
    rw [hopen, hsame] at hparagraphs
    refine ⟨hheadings.trans (congrArg BlockState.headings hblocks), ?_⟩
    rw [hparagraphs, if_neg hlists]
    split
    · exact if_neg hlists
    · rfl

/-! ## Runs -/

/-- Whatever draft the tokens are run from, they record their own blocks. -/
def RecordsOwn (tokens : List Token) : Prop :=
  ∀ first final : Draft, first.steps tokens = .ok final → first.RecordsBlocks tokens final

theorem RecordsOwn.append (hx : RecordsOwn xs) (hy : RecordsOwn ys) : RecordsOwn (xs ++ ys) := by
  intro first final h
  obtain ⟨next, hxs, hys⟩ := steps_append_eq_ok.mp h
  exact (hx first next hxs).append hxs (hy next final hys)

theorem RecordsOwn.cons {t : Token} (ht : RecordsOwn [t]) (hrest : RecordsOwn xs) :
    RecordsOwn (t :: xs) := ht.append hrest

theorem recordsOwn_nil : RecordsOwn [] := by
  intro first final h
  rw [steps_nil] at h
  cases h
  exact .of_same rfl rfl

theorem recordsOwn_atom {t : Token} (ht : t.IsAtom) (hheading : t ≠ .closeHeading)
    (hparagraph : t ≠ .closeParagraph) : RecordsOwn [t] := by
  intro first final h
  have hs := stepsRecords ht ((steps_singleton first t).symm.trans h)
  refine .of_same ?_ ?_
  · exact hs.headings.resolve_right fun hclose => hheading hclose.1
  · exact hs.paragraphs.resolve_right fun hclose => hparagraph hclose.1

theorem recordsOwn_inline (hc : Token.WellMarked false children) :
    RecordsOwn [.inline children] := by
  intro first final h
  rw [steps_singleton, step] at h
  have hblocks := blockState_of_steps hc h
  exact .of_same (congrArg BlockState.headings hblocks) (congrArg BlockState.paragraphs hblocks)

theorem takesBlock_self {opening closing : Token}
    (h : first.steps [opening, .inline children] = .ok e) :
    first.TakesBlock [opening, .inline children, closing] opening closing first e :=
  ⟨[], children, [], rfl, steps_nil first, h⟩

theorem recordsOwn_heading (level : HeadingLevel) (hc : Token.WellMarked false children) :
    RecordsOwn [.openHeading level.tag, .inline children, .closeHeading] := by
  intro first final h
  obtain ⟨e, he, hclose⟩ := steps_block_eq_ok.mp h
  cases hclose
  obtain ⟨style, -, hheadings, hparagraphs⟩ := records_heading hc he
  refine ⟨fun heading hmem => ?_, fun span hmem => .inl (by rwa [← hparagraphs])⟩
  rw [hheadings, Array.toList_push, List.mem_append, List.mem_singleton] at hmem
  refine hmem.imp_right ?_
  rintro rfl
  exact ⟨level, first, e, takesBlock_self he, rfl⟩

theorem recordsOwn_paragraph (hc : Token.WellMarked false children) :
    RecordsOwn [.openParagraph, .inline children, .closeParagraph] := by
  intro first final h
  obtain ⟨e, he, hclose⟩ := steps_block_eq_ok.mp h
  cases hclose
  obtain ⟨hheadings, hparagraphs⟩ := records_paragraph hc he
  refine ⟨fun heading hmem => .inl (by rwa [← hheadings]), fun span hmem => ?_⟩
  rw [hparagraphs] at hmem
  split at hmem
  · rename_i hlists
    rw [Array.toList_push, List.mem_append, List.mem_singleton] at hmem
    refine hmem.imp_right ?_
    rintro rfl
    exact ⟨first, e, takesBlock_self he, List.isEmpty_iff.mp hlists, rfl⟩
  · exact .inl hmem

theorem recordsOwn_tableRows {rows : List Token} (h : Token.TableRows rows) : RecordsOwn rows := by
  induction h with
  | nil => exact recordsOwn_nil
  | markup type _ ih => exact .cons (recordsOwn_atom trivial nofun nofun) ih
  | cell hchildren _ ih => exact .cons (recordsOwn_inline hchildren) ih

theorem recordsOwn_wellNested {siblings : Token.Siblings} {tokens : List Token}
    (h : Token.WellNested siblings tokens) : RecordsOwn tokens := by
  induction h with
  | nil => exact recordsOwn_nil
  | heading level hchildren _ ih => exact (recordsOwn_heading level hchildren).append ih
  | paragraph hchildren _ ih => exact (recordsOwn_paragraph hchildren).append ih
  | rule _ ih => exact .cons (recordsOwn_atom trivial nofun nofun) ih
  | codeBlock content info _ ih => exact .cons (recordsOwn_atom trivial nofun nofun) ih
  | markup _ _ ih => exact .cons (recordsOwn_atom trivial nofun nofun) ih
  | quote _ _ ihbody ihrest =>
    exact .cons (recordsOwn_atom trivial nofun nofun)
      (ihbody.append (.cons (recordsOwn_atom trivial nofun nofun) ihrest))
  | table hrows _ ih =>
    exact .cons (recordsOwn_atom trivial nofun nofun)
      ((recordsOwn_tableRows hrows).append (.cons (recordsOwn_atom trivial nofun nofun) ih))
  | list kind _ _ ihbody ihrest =>
    exact .cons (recordsOwn_atom trivial nofun nofun)
      (ihbody.append (.cons (recordsOwn_atom trivial nofun nofun) ihrest))
  | item _ _ ihbody ihrest =>
    exact .cons (recordsOwn_atom trivial nofun nofun)
      (ihbody.append (.cons (recordsOwn_atom trivial nofun nofun) ihrest))

end Draft
end MarkdownEdits
