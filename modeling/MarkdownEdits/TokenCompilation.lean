import MarkdownEdits.Draft
import MarkdownEdits.TaskMarkers

/-!
# Compiling tokens

Each token changes the draft in its own way, and the children of inline content are taken in
turn. Only a list item outside every list and a malformed token make the pass fail.
-/
namespace MarkdownEdits

inductive ConversionError where
  | itemOutsideList
  /-- Something else went wrong at a token, and is told in words of its own. -/
  | malformedToken (type words : String)
  deriving DecidableEq, Repr

namespace ConversionError

def message : ConversionError → String
  | itemOutsideList => "List item found outside of list context"
  | malformedToken _ words => "Failed to convert markdown: " ++ words

/-- The type of the token at which the pass failed. -/
def tokenType : ConversionError → String
  | itemOutsideList => "list_item_open"
  | malformedToken type _ => type

end ConversionError

def NamedStyle.title : NamedStyle := ⟨"TITLE"⟩

def NamedStyle.heading : HeadingLevel → NamedStyle
  | .h1 => ⟨"HEADING_1"⟩
  | .h2 => ⟨"HEADING_2"⟩
  | .h3 => ⟨"HEADING_3"⟩
  | .h4 => ⟨"HEADING_4"⟩
  | .h5 => ⟨"HEADING_5"⟩
  | .h6 => ⟨"HEADING_6"⟩

def ListKind.preset : ListKind → BulletPreset
  | bullet => .unordered
  | ordered => .ordered

/-- The frame of formatting that a mark opens. -/
def Mark.frame : Mark → Formatting
  | strong => { bold := some true }
  | emphasis => { italic := some true }
  | strikethrough => { strikethrough := some true }

def Mark.kind : Mark → FormattingKind
  | strong => .bold
  | emphasis => .italic
  | strikethrough => .strikethrough

/-- The character by which the document reads the nesting of list items. -/
def listIndent : Char := '\t'

/-- A text without one line end behind it, if it has one. -/
def dropLineEnd (text : String) : String :=
  if endsLine text then String.ofList text.toList.dropLast else text

namespace Draft

/-- Inserts a text that is not empty, and records its span where its formatting is visible. -/
def insertStyled (d : Draft) (text : String) : Draft :=
  let next := d.insertText text
  if d.activeFormatting.isVisible then
    let text : StyledText := ⟨⟨d.cursor, next.cursor⟩, d.activeFormatting⟩
    next.record fun r => { r with styledTexts := r.styledTexts.push text }
  else next

/-- Looks for a task marker in the first text of the innermost open item. An item with a marker
becomes a task, and the marker is taken off the text. -/
def takeMarker (d : Draft) (text : String) : Draft × String :=
  match d.openItem? with
  | none => (d, text)
  | some (i, item) =>
    if item.markerChecked then (d, text)
    else match TaskMarkers.strip? text with
      | some rest =>
        (d.modifyItem i fun item => { item with markerChecked := true, preset := .checkbox }, rest)
      | none => (d.modifyItem i fun item => { item with markerChecked := true }, text)

/-- A leaf with text. An empty text leaves no trace. -/
def insertLeaf (d : Draft) (text : String) : Draft :=
  if text = "" then d
  else
    let (d, rest) := d.takeMarker text
    if rest = "" then d else d.insertStyled rest

/-- A code leaf, which has one frame of formatting to itself. -/
def insertCode (d : Draft) (text : String) : Draft :=
  ((d.openFormatting { code := some true }).insertLeaf text).closeFormatting .code

def openLink (d : Draft) : Option String → Draft
  | some target => if target = "" then d else d.openFormatting { link := some target }
  | none => d

def openHeading (d : Draft) (tag : String) : Draft :=
  match HeadingLevel.ofTag? tag with
  | some level => { d with headingLevel := some level, paragraphStart := some d.cursor }
  | none => d.warn (.unknownHeading tag)

/-- Records the heading and ends its line. The first heading of the first level is the title
where titles are wanted. -/
def closeHeading (d : Draft) : Draft :=
  match d.headingLevel, d.paragraphStart with
  | some level, some start =>
    let isTitle := d.headingAsTitle && !d.titleUsed && level == .h1
    let style := if isTitle then NamedStyle.title else NamedStyle.heading level
    let heading : Heading := ⟨⟨start, d.cursor⟩, some style⟩
    let recorded := d.record fun r => { r with headings := r.headings.push heading }
    { recorded.insertText "\n" with
      headingLevel := none
      paragraphStart := none
      titleUsed := d.titleUsed || isTitle }
  | _, _ => d.warn .strayHeadingClose

/-- A paragraph in a list belongs to its item and has no start of its own. -/
def openParagraph (d : Draft) : Draft :=
  if d.lists.isEmpty then { d with paragraphStart := some d.cursor } else d

/-- Moves the end of the innermost open item to the end of what is inserted. -/
def extendOpenItem (d : Draft) : Draft :=
  match d.openItem? with
  | some (i, item) =>
    if item.start < d.contentEnd then
      d.modifyItem i fun item => { item with stop := some d.contentEnd }
    else d
  | none => d

/-- Records a paragraph that began at a known place and lies outside lists. -/
def recordParagraph (d : Draft) (start : Option Int) : Draft :=
  match start with
  | some start =>
    if d.lists.isEmpty then
      d.record fun r => { r with paragraphs := r.paragraphs.push ⟨start, d.cursor⟩ }
    else d
  | none => d

def closeParagraph (d : Draft) : Draft :=
  { (d.endLine.extendOpenItem).recordParagraph d.paragraphStart with paragraphStart := none }

def openList (d : Draft) (kind : ListKind) : Draft :=
  { d with lists := ⟨kind, d.lists.length⟩ :: d.lists }

def recordListTail (d : Draft) : Draft :=
  match d.records.items.toList.reverse.findSome? ListItem.span? with
  | some span => d.record fun r => { r with listTails := r.listTails.push span }
  | none => d

/-- Closes the innermost list. The outermost one leaves its tail behind. -/
def closeList (d : Draft) : Draft :=
  match d.lists with
  | [] => d.warn .strayListClose
  | _ :: outer =>
    let closed := { d with lists := outer }
    if outer.isEmpty then closed.recordListTail else closed

/-- Opens an item of the innermost list and indents it by the list's level. -/
def openItem (d : Draft) : Except ConversionError Draft :=
  match d.lists with
  | [] => .error .itemOutsideList
  | list :: _ =>
    let indented :=
      if 0 < list.level then d.insertText (String.ofList (List.replicate list.level listIndent))
      else d
    let added := indented.addItem
      { start := d.cursor, level := list.level, preset := list.kind.preset }
    .ok { added with openItems := d.records.items.size :: d.openItems }

/-- Ends an item where what is inserted ends, if it has no end yet and this one is after its
start. -/
def endItem (d : Draft) (index : Int) : Draft :=
  match d.itemAt? index with
  | some (i, item) =>
    if item.stop.isNone && decide (item.start < d.contentEnd) then
      d.modifyItem i fun item => { item with stop := some d.contentEnd }
    else d
  | none => d

/-- Closes the innermost open item, which gets an end if no paragraph has set one, and ends the
line. -/
def closeItem (d : Draft) : Draft :=
  match d.openItems with
  | [] => d.warn .strayItemClose
  | index :: rest => { d.endItem index with openItems := rest }.endLine

/-- A rule is an empty paragraph, which is styled with a line below. -/
def insertRule (d : Draft) : Draft :=
  let before := d.endLine
  let after := before.insertText "\n"
  after.record fun r => { r with rules := r.rules.push ⟨before.cursor, after.cursor⟩ }

def beginBlock (d : Draft) : Draft := if d.insertions.isEmpty then d else d.endLine

/-- A code block is a table of one cell. Its text goes into the cell, the cursor behind the table,
and one more line end follows. -/
def insertCodeBlock (d : Draft) (content info : String) : Draft :=
  let body := dropLineEnd content
  let language := Whitespace.strip info
  let before := d.beginBlock
  let table := before.insertTable
  let start := before.cursor + cellContentOffset
  let width : Int := Utf16.length body
  let filled :=
    if body = "" then table
    else { table with insertions := table.insertions.push (.text ⟨start, table.tab⟩ body) }
  let block : CodeBlock :=
    ⟨before.cursor, ⟨start, start + width⟩, if language = "" then none else some language⟩
  let recorded := filled.record fun r => { r with codeBlocks := r.codeBlocks.push block }
  { recorded with cursor := before.cursor + emptyTableSize + width }.insertText "\n"

mutual

def step (d : Draft) : Token → Except ConversionError Draft
  | .inline children => d.steps children
  | .text content => .ok (d.insertLeaf content)
  | .codeSpan content => .ok (d.insertCode content)
  | .openMark mark => .ok (d.openFormatting mark.frame)
  | .closeMark mark => .ok (d.closeFormatting mark.kind)
  | .openLink target => .ok (d.openLink target)
  | .closeLink => .ok (d.closeFormatting .link)
  | .softBreak => .ok (d.insertText " ")
  | .hardBreak => .ok (d.insertText "\n")
  | .openHeading tag => .ok (d.openHeading tag)
  | .closeHeading => .ok d.closeHeading
  | .openParagraph => .ok d.openParagraph
  | .closeParagraph => .ok d.closeParagraph
  | .openList kind => .ok (d.openList kind)
  | .closeList _ => .ok d.closeList
  | .openItem => d.openItem
  | .closeItem => .ok d.closeItem
  | .codeBlock content info => .ok (d.insertCodeBlock content info)
  | .rule => .ok d.insertRule
  | .skipped .. => .ok d
  | .malformed type words => .error (.malformedToken type words)

def steps (d : Draft) : List Token → Except ConversionError Draft
  | [] => .ok d
  | token :: rest =>
    match d.step token with
    | .ok next => next.steps rest
    | .error e => .error e

end

@[simp] theorem steps_nil (d : Draft) : d.steps [] = .ok d := by simp [steps]

theorem steps_append (d : Draft) (ts us : List Token) :
    d.steps (ts ++ us) = (d.steps ts).bind fun next => next.steps us := by
  induction ts generalizing d with
  | nil => simp [Except.bind]
  | cons t ts ih =>
    simp only [List.cons_append, steps]
    cases d.step t with
    | error e => rfl
    | ok next => exact ih next

end Draft
end MarkdownEdits
