import MarkdownEdits.Proofs.RelocatedRequests
import MarkdownEdits.Proofs.TokenRuns

/-!
# Recast drafts

A draft is recast by relocating all that it has inserted and recorded, and by changing what it knows
of titles. Tokens can be taken before a draft is recast or after it, with the same result: nothing
that is done with a token depends on where the document begins, on its tab, or on titles.
-/
namespace MarkdownEdits

/-- What a draft knows of titles: whether one is wanted, whether it is used up, and the headings
that are recorded. -/
structure Titles where
  wanted : Bool
  used : Bool
  headings : List Heading

/-- Records a heading of some level. -/
def Titles.close (t : Titles) (level : HeadingLevel) (span : Span) : Titles :=
  let isTitle := t.wanted && !t.used && level == .h1
  { t with
    used := t.used || isTitle
    headings := t.headings ++ [⟨span, some (if isTitle then .title else .heading level)⟩] }

/-- A relocation of drafts with a change to what they know of titles. -/
structure Recasting extends Relocation where
  titles : Titles → Titles
  /-- A heading may be recorded before the change or after it. -/
  titles_close : ∀ t level span,
    titles (t.close level span) = (titles t).close level (span.shift distance)

def StyledText.shift (text : StyledText) (distance : Int) : StyledText :=
  { text with span := text.span.shift distance }

def Heading.shift (heading : Heading) (distance : Int) : Heading :=
  { heading with span := heading.span.shift distance }

def ListItem.shift (item : ListItem) (distance : Int) : ListItem :=
  { item with start := item.start + distance, stop := item.stop.map (· + distance) }

theorem ListItem.span?_shift (item : ListItem) (distance : Int) :
    (item.shift distance).span? = item.span?.map (·.shift distance) := by
  obtain ⟨start, level, preset, stop, checked⟩ := item
  cases stop with
  | none => rfl
  | some stop =>
    simp only [span?, shift, Option.map_some, Int.add_lt_add_iff_right]
    split <;> rfl

def CodeBlock.shift (block : CodeBlock) (distance : Int) : CodeBlock :=
  { block with
    insertedAt := block.insertedAt + distance
    text := block.text.shift distance }

/-- The records moved by a distance, with other headings. -/
def SpanRecords.recast (records : SpanRecords) (distance : Int) (headings : List Heading) :
    SpanRecords where
  styledTexts := records.styledTexts.map (·.shift distance)
  headings := headings.toArray
  paragraphs := records.paragraphs.map (·.shift distance)
  listTails := records.listTails.map (·.shift distance)
  codeBlocks := records.codeBlocks.map (·.shift distance)
  rules := records.rules.map (·.shift distance)
  items := records.items.map (·.shift distance)

namespace Draft

def titles (d : Draft) : Titles := ⟨d.headingAsTitle, d.titleUsed, d.records.headings.toList⟩

def recast (r : Recasting) (d : Draft) : Draft :=
  { d with
    cursor := d.cursor + r.distance
    tab := r.tab d.tab
    headingAsTitle := (r.titles d.titles).wanted
    titleUsed := (r.titles d.titles).used
    insertions := d.insertions.map (·.relocate r.toRelocation)
    records := d.records.recast r.distance (r.titles d.titles).headings
    paragraphStart := d.paragraphStart.map (· + r.distance) }

variable (r : Recasting) (d : Draft)

theorem insertText_recast (text : String) :
    (d.recast r).insertText text = (d.insertText text).recast r := by
  simp [recast, insertText, location, Insertion.relocate, Location.relocate, titles,
    Int.add_right_comm]

theorem endsWithNewline_recast : (d.recast r).endsWithNewline = d.endsWithNewline := by
  simp only [endsWithNewline, recast, Array.back?_map]
  cases d.insertions.back? with
  | none => rfl
  | some i => cases i <;> rfl

theorem contentEnd_recast : (d.recast r).contentEnd = d.contentEnd + r.distance := by
  simp only [contentEnd, endsWithNewline_recast]
  split
  · simp only [recast]
    omega
  · rfl

theorem endLine_recast : (d.recast r).endLine = d.endLine.recast r := by
  simp only [endLine, endsWithNewline_recast, insertText_recast]
  split <;> rfl

theorem itemAt?_recast (index : Int) : (d.recast r).itemAt? index =
    (d.itemAt? index).map fun (i, item) => (i, item.shift r.distance) := by
  simp only [itemAt?, recast, SpanRecords.recast, Array.size_map, Array.getElem?_map]
  cases placeOf? d.records.items.size index with
  | none => rfl
  | some i => simp [Option.map_map, Function.comp_def]

theorem openItem?_recast : (d.recast r).openItem? =
    d.openItem?.map fun (i, item) => (i, item.shift r.distance) := by
  have hopen : (d.recast r).openItems = d.openItems := rfl
  simp only [openItem?, hopen]
  cases d.openItems with
  | nil => rfl
  | cons index rest => exact d.itemAt?_recast r index

theorem modifyItem_recast {f g : ListItem → ListItem}
    (h : ∀ item, g (item.shift r.distance) = (f item).shift r.distance) (i : Nat) :
    (d.recast r).modifyItem i g = (d.modifyItem i f).recast r := by
  have hitems : (d.records.items.map (·.shift r.distance)).modify i g =
      (d.records.items.modify i f).map (·.shift r.distance) := by
    apply Array.ext_getElem?
    intro j
    simp only [Array.getElem?_modify, Array.getElem?_map]
    split <;> simp [Option.map_map, Function.comp_def, h]
  simp [modifyItem, record, recast, SpanRecords.recast, titles, hitems]

theorem insertStyled_recast (text : String) :
    (d.recast r).insertStyled text = (d.insertStyled text).recast r := by
  have hactive : (d.recast r).activeFormatting = d.activeFormatting := rfl
  simp only [insertStyled, hactive, insertText_recast]
  split
  · simp [record, recast, SpanRecords.recast, titles, StyledText.shift, Span.shift,
      Int.add_right_comm]
  · rfl

theorem takeMarker_recast (text : String) : (d.recast r).takeMarker text =
    ((d.takeMarker text).1.recast r, (d.takeMarker text).2) := by
  simp only [takeMarker, openItem?_recast]
  cases d.openItem? with
  | none => rfl
  | some entry =>
    obtain ⟨i, item⟩ := entry
    simp only [Option.map_some, ListItem.shift]
    split
    · rfl
    · split
      · exact congrArg (·, _) (d.modifyItem_recast r (fun _ => rfl) i)
      · exact congrArg (·, _) (d.modifyItem_recast r (fun _ => rfl) i)

theorem insertLeaf_recast (text : String) :
    (d.recast r).insertLeaf text = (d.insertLeaf text).recast r := by
  simp only [insertLeaf, takeMarker_recast, insertStyled_recast]
  split
  · rfl
  · split <;> rfl

theorem openFormatting_recast (f : Formatting) :
    (d.recast r).openFormatting f = (d.openFormatting f).recast r := rfl

theorem closeFormatting_recast (kind : FormattingKind) :
    (d.recast r).closeFormatting kind = (d.closeFormatting kind).recast r := rfl

theorem insertCode_recast (text : String) :
    (d.recast r).insertCode text = (d.insertCode text).recast r := by
  simp only [insertCode, openFormatting_recast, insertLeaf_recast, closeFormatting_recast]

theorem openLink_recast (target : Option String) :
    (d.recast r).openLink target = (d.openLink target).recast r := by
  simp only [openLink, openFormatting_recast]
  split
  · split <;> rfl
  · rfl

theorem openHeading_recast (tag : String) :
    (d.recast r).openHeading tag = (d.openHeading tag).recast r := by
  simp only [openHeading]
  split <;> rfl

/-- Here alone a token changes what is known of titles. -/
theorem titles_closeHeading {d : Draft} {level : HeadingLevel} {start : Int}
    (hlevel : d.headingLevel = some level) (hstart : d.paragraphStart = some start) :
    d.closeHeading.titles = d.titles.close level ⟨start, d.cursor⟩ := by
  rw [closeHeading, hlevel, hstart]
  simp [titles, Titles.close, record, insertText]

theorem closeHeading_recast : (d.recast r).closeHeading = d.closeHeading.recast r := by
  have hlevel : (d.recast r).headingLevel = d.headingLevel := rfl
  have hstart : (d.recast r).paragraphStart = d.paragraphStart.map (· + r.distance) := rfl
  cases hopen : d.headingLevel with
  | none =>
    rw [closeHeading.eq_def, closeHeading.eq_def, hlevel, hopen]
    rfl
  | some level =>
    cases hbegun : d.paragraphStart with
    | none =>
      rw [closeHeading.eq_def, closeHeading.eq_def, hlevel, hstart, hopen, hbegun]
      rfl
    | some start =>
      have hclose := r.titles_close d.titles level ⟨start, d.cursor⟩
      rw [← titles_closeHeading hopen hbegun] at hclose
      rw [recast.eq_def r d.closeHeading, hclose]
      simp only [closeHeading, hlevel, hstart, hopen, hbegun, Option.map_some]
      simp [recast, SpanRecords.recast, record, insertText, titles, Titles.close, Span.shift,
        location, Insertion.relocate, Location.relocate, Int.add_right_comm]

theorem openParagraph_recast : (d.recast r).openParagraph = d.openParagraph.recast r := by
  have hlists : (d.recast r).lists = d.lists := rfl
  simp only [openParagraph, hlists]
  split <;> rfl

theorem extendOpenItem_recast : (d.recast r).extendOpenItem = d.extendOpenItem.recast r := by
  simp only [extendOpenItem, openItem?_recast, contentEnd_recast]
  cases d.openItem? with
  | none => rfl
  | some entry =>
    obtain ⟨i, item⟩ := entry
    simp only [Option.map_some, ListItem.shift, Int.add_lt_add_iff_right]
    split
    · exact d.modifyItem_recast r (fun _ => rfl) i
    · rfl

theorem recordParagraph_recast (start : Option Int) :
    (d.recast r).recordParagraph (start.map (· + r.distance)) =
      (d.recordParagraph start).recast r := by
  have hlists : (d.recast r).lists = d.lists := rfl
  cases start with
  | none => rfl
  | some start =>
    simp only [recordParagraph, Option.map_some, hlists]
    split
    · simp [record, recast, SpanRecords.recast, titles, Span.shift]
    · rfl

theorem closeParagraph_recast : (d.recast r).closeParagraph = d.closeParagraph.recast r := by
  have hstart : (d.recast r).paragraphStart = d.paragraphStart.map (· + r.distance) := rfl
  simp only [closeParagraph, endLine_recast, extendOpenItem_recast, hstart, recordParagraph_recast]
  rfl

theorem openList_recast (kind : ListKind) :
    (d.recast r).openList kind = (d.openList kind).recast r := rfl

theorem recordListTail_recast : (d.recast r).recordListTail = d.recordListTail.recast r := by
  have hspan : ((d.recast r).records.items.toList.reverse.findSome? ListItem.span?) =
      (d.records.items.toList.reverse.findSome? ListItem.span?).map (·.shift r.distance) := by
    simp [recast, SpanRecords.recast, ← List.map_reverse, List.findSome?_map, Function.comp_def,
      ListItem.span?_shift]
  simp only [recordListTail, hspan]
  cases d.records.items.toList.reverse.findSome? ListItem.span? with
  | none => rfl
  | some span => simp [record, recast, SpanRecords.recast, titles]

theorem closeList_recast : (d.recast r).closeList = d.closeList.recast r := by
  have hlists : (d.recast r).lists = d.lists := rfl
  simp only [closeList.eq_def, hlists]
  split
  · rfl
  · rename_i outer _
    split
    · exact recordListTail_recast r { d with lists := outer }
    · rfl

theorem openItem_recast : (d.recast r).openItem = d.openItem.map (recast r) := by
  have hlists : (d.recast r).lists = d.lists := rfl
  simp only [openItem.eq_def, hlists]
  split
  · rfl
  · simp only [insertText_recast]
    split
    · simp [Except.map, addItem, record, recast, SpanRecords.recast, titles, ListItem.shift,
        insertText]
    · simp [Except.map, addItem, record, recast, SpanRecords.recast, titles, ListItem.shift]

theorem endItem_recast (index : Int) :
    (d.recast r).endItem index = (d.endItem index).recast r := by
  simp only [endItem, itemAt?_recast, contentEnd_recast]
  cases d.itemAt? index with
  | none => rfl
  | some entry =>
    obtain ⟨i, item⟩ := entry
    simp only [Option.map_some, ListItem.shift, Int.add_lt_add_iff_right, Option.isNone_map]
    split
    · exact d.modifyItem_recast r (fun _ => rfl) i
    · rfl

theorem closeItem_recast : (d.recast r).closeItem = d.closeItem.recast r := by
  have hopen : (d.recast r).openItems = d.openItems := rfl
  simp only [closeItem.eq_def, hopen]
  split
  · rfl
  · rename_i index rest _
    rw [endItem_recast]
    exact endLine_recast r { d.endItem index with openItems := rest }

theorem insertRule_recast : (d.recast r).insertRule = d.insertRule.recast r := by
  simp only [insertRule, endLine_recast, insertText_recast]
  simp [record, recast, SpanRecords.recast, titles, Span.shift, insertText, Int.add_right_comm]

theorem beginBlock_recast : (d.recast r).beginBlock = d.beginBlock.recast r := by
  have hempty : (d.recast r).insertions.isEmpty = d.insertions.isEmpty := by
    simp [recast, Array.isEmpty]
  simp only [beginBlock, hempty, endLine_recast]
  split <;> rfl

theorem insertCodeBlock_recast (content info : String) :
    (d.recast r).insertCodeBlock content info = (d.insertCodeBlock content info).recast r := by
  simp only [insertCodeBlock, beginBlock_recast]
  generalize d.beginBlock = e
  split <;>
    simp [insertTable, insertText, location, Insertion.relocate, Location.relocate, record, recast,
      SpanRecords.recast, titles, CodeBlock.shift, Span.shift, Int.add_right_comm]

/-- A token may be taken before a draft is recast or after it. -/
theorem step_recast {t : Token} (ht : t.IsAtom) :
    (d.recast r).step t = (d.step t).map (recast r) := by
  cases t with
  | inline children => exact ht.elim
  | text content => exact congrArg Except.ok (d.insertLeaf_recast r content)
  | codeSpan content => exact congrArg Except.ok (d.insertCode_recast r content)
  | openMark mark => exact congrArg Except.ok (d.openFormatting_recast r mark.frame)
  | closeMark mark => exact congrArg Except.ok (d.closeFormatting_recast r mark.kind)
  | openLink target => exact congrArg Except.ok (d.openLink_recast r target)
  | closeLink => exact congrArg Except.ok (d.closeFormatting_recast r .link)
  | softBreak => exact congrArg Except.ok (d.insertText_recast r " ")
  | hardBreak => exact congrArg Except.ok (d.insertText_recast r "\n")
  | openHeading tag => exact congrArg Except.ok (d.openHeading_recast r tag)
  | closeHeading => exact congrArg Except.ok (d.closeHeading_recast r)
  | openParagraph => exact congrArg Except.ok (d.openParagraph_recast r)
  | closeParagraph => exact congrArg Except.ok (d.closeParagraph_recast r)
  | openList kind => exact congrArg Except.ok (d.openList_recast r kind)
  | closeList kind => exact congrArg Except.ok (d.closeList_recast r)
  | openItem => exact d.openItem_recast r
  | closeItem => exact congrArg Except.ok (d.closeItem_recast r)
  | codeBlock content info => exact congrArg Except.ok (d.insertCodeBlock_recast r content info)
  | rule => exact congrArg Except.ok (d.insertRule_recast r)
  | skipped type children => rfl
  | malformed type words => rfl

theorem steps_recast (tokens : List Token) :
    (d.recast r).steps tokens = (d.steps tokens).map (recast r) := by
  rw [← steps_atomsOf, ← d.steps_atomsOf]
  have hatoms := Token.isAtom_of_mem_atomsOf tokens
  generalize Token.atomsOf tokens = atoms at hatoms
  induction atoms generalizing d with
  | nil => simp [Except.map]
  | cons t rest ih =>
    obtain ⟨ht, hrest⟩ := List.forall_mem_cons.mp hatoms
    simp only [steps, d.step_recast r ht]
    cases d.step t with
    | error e => rfl
    | ok next => exact ih next hrest

end Draft
end MarkdownEdits
