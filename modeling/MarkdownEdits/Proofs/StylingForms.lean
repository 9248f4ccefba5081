import MarkdownEdits.DraftStyling

/-!
# Forms of stylings

Each record of a draft becomes stylings of its own kind, on its own span.
-/
namespace MarkdownEdits.SpanRecords

variable {tab : Option String} {config : Config} {s : Styling}

theorem eq_text_of_mem_styleText {text : StyledText} (h : s ∈ styleText tab config text) :
    ∃ style, s = .text (text.span.inTab tab) style := by
  rcases List.mem_append.mp h with h | h
  · split at h
    · exact ⟨_, List.mem_singleton.mp h⟩
    · cases h
  · split at h
    · split at h
      · cases h
      · exact ⟨_, List.mem_singleton.mp h⟩
    · cases h

theorem eq_named_of_mem_styleHeading {heading : Heading} (h : s ∈ styleHeading tab heading) :
    ∃ style, heading.style = some style ∧
      s = .paragraph (heading.span.inTab tab) (.named style) := by
  rw [styleHeading] at h
  split at h
  · rename_i style hstyle
    split at h
    · cases h
    · exact ⟨style, hstyle, List.mem_singleton.mp h⟩
  · cases h

theorem eq_paragraph_of_mem_styleHeading {heading : Heading}
    (h : s ∈ styleHeading tab heading) :
    ∃ style, s = .paragraph (heading.span.inTab tab) style := by
  obtain ⟨style, _, rfl⟩ := eq_named_of_mem_styleHeading h
  exact ⟨.named style, rfl⟩

theorem mem_styleCodeBlock {block : CodeBlock} (h : s ∈ styleCodeBlock tab config block) :
    s = .text (block.text.inTab tab) { fontFamily := some config.codeFont } ∨
      s = .cell ⟨block.tableIndex, tab⟩ 0 0 .codeBlock := by
  rcases List.mem_append.mp h with h | h
  · split at h
    · exact .inl (List.mem_singleton.mp h)
    · cases h
  · exact .inr (List.mem_singleton.mp h)

/-- A code block without text gets no style of text. -/
theorem nonempty_of_text_mem_styleCodeBlock {block : CodeBlock} {range : Range} {style : TextStyle}
    (h : .text range style ∈ styleCodeBlock tab config block) :
    range.span.start < range.span.stop := by
  rcases List.mem_append.mp h with h | h
  · split at h
    · rename_i hlt
      cases List.mem_singleton.mp h
      exact hlt
    · cases h
  · cases List.mem_singleton.mp h

theorem cell_mem_styleCodeBlock (block : CodeBlock) :
    .cell ⟨block.tableIndex, tab⟩ 0 0 .codeBlock ∈ styleCodeBlock tab config block :=
  List.mem_append_right _ (List.mem_singleton_self _)

theorem font_mem_styleCodeBlock {block : CodeBlock} (h : block.text.start < block.text.stop) :
    .text (block.text.inTab tab) { fontFamily := some config.codeFont } ∈
      styleCodeBlock tab config block := by
  rw [styleCodeBlock, if_pos h]
  exact List.mem_cons_self

theorem paragraph_mem_styleHeading {span : Span} {style : NamedStyle} (h : style.name ≠ "") :
    .paragraph (span.inTab tab) (.named style) ∈ styleHeading tab ⟨span, some style⟩ := by
  simp [styleHeading, h]

/-- Each styling comes from a record of its kind, and bullets from the merged items. -/
theorem mem_stylings {records : SpanRecords} : s ∈ records.stylings tab config ↔
    (∃ text ∈ records.styledTexts.toList, s ∈ styleText tab config text) ∨
    (∃ heading ∈ records.headings.toList, s ∈ styleHeading tab heading) ∨
    (∃ span ∈ records.paragraphs.toList ++ records.listTails.toList,
      spaceBelow tab config span = s) ∨
    (∃ block ∈ records.codeBlocks.toList, s ∈ styleCodeBlock tab config block) ∨
    (∃ span ∈ records.rules.toList, drawRule tab span = s) ∨
    ∃ bullets ∈ BulletSpan.descending (BulletSpan.ofItems records.items.toList),
      addBullets tab bullets = s := by
  simp only [stylings, List.mem_append, List.mem_flatMap, List.mem_map, or_assoc]

end MarkdownEdits.SpanRecords
