import MarkdownEdits.DocumentRequests
import MarkdownEdits.InlineFormatting
import MarkdownEdits.MarkdownToken
import MarkdownEdits.Utf16

/-!
# Drafts

A draft is what the pass over the tokens carries along: the cursor, the insertions made so far,
what is open, and records of the spans that are styled once the pass is over. The cursor is the
index after all that has been inserted.
-/
namespace MarkdownEdits

/-- An inserted text with visible formatting. -/
structure StyledText where
  span : Span
  formatting : Formatting
  deriving DecidableEq, Repr

/-- A heading with the style it gets, if it gets one. -/
structure Heading where
  span : Span
  style : Option NamedStyle
  deriving DecidableEq, Repr

/-- A list item. Its end is set when a paragraph in it closes, or when it closes itself. -/
structure ListItem where
  start : Int
  level : Nat
  preset : BulletPreset
  stop : Option Int := none
  /-- Whether the item's first text has been looked at for a task marker. -/
  markerChecked : Bool := false
  deriving DecidableEq, Repr, Inhabited

namespace ListItem

/-- The item's span, if it has an end after its start. -/
def span? (item : ListItem) : Option Span :=
  match item.stop with
  | some stop => if item.start < stop then some ⟨item.start, stop⟩ else none
  | none => none

def isValid (item : ListItem) : Bool := item.span?.isSome

end ListItem

/-- A code block: where its table was inserted, and its text inside the table. -/
structure CodeBlock where
  insertedAt : Int
  text : Span
  language : Option String
  deriving DecidableEq, Repr

namespace CodeBlock

def tableIndex (block : CodeBlock) : Int := block.insertedAt + tableElementOffset

end CodeBlock

/-- The spans that are styled after the pass, each kind in order of recording. -/
structure SpanRecords where
  styledTexts : Array StyledText := #[]
  headings : Array Heading := #[]
  paragraphs : Array Span := #[]
  listTails : Array Span := #[]
  codeBlocks : Array CodeBlock := #[]
  rules : Array Span := #[]
  items : Array ListItem := #[]
  deriving DecidableEq, Repr, Inhabited

structure OpenList where
  kind : ListKind
  level : Nat
  deriving DecidableEq, Repr, Inhabited

/-- A token without its counterpart, or of an unknown kind. The pass goes on. -/
inductive Warning where
  | unknownHeading (tag : String)
  | strayHeadingClose
  | strayListClose
  | strayItemClose
  deriving DecidableEq, Repr

def Warning.message : Warning → String
  | unknownHeading tag => "Unknown heading tag: " ++ tag
  | strayHeadingClose => "heading_close without matching heading_open"
  | strayListClose => "list_close without matching list_open"
  | strayItemClose => "list_item_close without matching list_item_open"

/-- The place that an index means among some number of entries, if there is such a place. A
negative index counts from their end. -/
def placeOf? (size : Nat) (index : Int) : Option Nat :=
  let place := if index < 0 then index + size else index
  if 0 ≤ place ∧ place < size then some place.toNat else none

theorem placeOf?_natCast (size n : Nat) :
    placeOf? size n = if n < size then some n else none := by
  have nonnegative : ¬(n : Int) < 0 := by omega
  simp [placeOf?, nonnegative]

/-- The state of the pass. Stacks hold the innermost entry first; an open item is given by its
index among the recorded ones. -/
structure Draft where
  cursor : Int
  tab : Option String
  headingAsTitle : Bool
  insertions : Array Insertion := #[]
  records : SpanRecords := {}
  formatting : List Formatting := []
  lists : List OpenList := []
  openItems : List Int := []
  paragraphStart : Option Int := none
  headingLevel : Option HeadingLevel := none
  titleUsed : Bool := false
  warnings : Array Warning := #[]
  deriving Repr

def endsLine (text : String) : Bool := text.toList.getLast? == some '\n'

namespace Draft

def start (cursor : Int) (tab : Option String) (headingAsTitle : Bool) : Draft where
  cursor := cursor
  tab := namedTab tab
  headingAsTitle := headingAsTitle

def location (d : Draft) : Location := ⟨d.cursor, d.tab⟩

/-- Inserts a text at the cursor and moves the cursor to its end. -/
def insertText (d : Draft) (text : String) : Draft :=
  { d with
    insertions := d.insertions.push (.text d.location text)
    cursor := d.cursor + Utf16.length text }

/-- Inserts an empty table of one cell at the cursor, which stays where it is. -/
def insertTable (d : Draft) : Draft :=
  { d with insertions := d.insertions.push (.table d.location 1 1) }

/-- Whether the last insertion is a text that ends a line. -/
def endsWithNewline (d : Draft) : Bool :=
  match d.insertions.back? with
  | some (.text _ content) => endsLine content
  | _ => false

/-- The cursor, or the index before it where the last insertion ends a line. -/
def contentEnd (d : Draft) : Int :=
  if d.endsWithNewline then d.cursor - 1 else d.cursor

/-- Ends the line unless the last insertion does. -/
def endLine (d : Draft) : Draft :=
  if d.endsWithNewline then d else d.insertText "\n"

def warn (d : Draft) (w : Warning) : Draft := { d with warnings := d.warnings.push w }

/-- The place and the record of the item of an index. -/
def itemAt? (d : Draft) (index : Int) : Option (Nat × ListItem) :=
  (placeOf? d.records.items.size index).bind fun i => d.records.items[i]?.map (i, ·)

theorem itemAt?_natCast (d : Draft) (n : Nat) :
    d.itemAt? n = d.records.items[n]?.map (n, ·) := by
  by_cases h : n < d.records.items.size <;> simp [itemAt?, placeOf?_natCast, h]

def openItem? (d : Draft) : Option (Nat × ListItem) :=
  match d.openItems with
  | [] => none
  | index :: _ => d.itemAt? index

/-- Changes the recorded spans and nothing else. -/
def record (d : Draft) (f : SpanRecords → SpanRecords) : Draft :=
  { d with records := f d.records }

def addItem (d : Draft) (item : ListItem) : Draft :=
  d.record fun r => { r with items := r.items.push item }

def modifyItem (d : Draft) (i : Nat) (f : ListItem → ListItem) : Draft :=
  d.record fun r => { r with items := r.items.modify i f }

def openFormatting (d : Draft) (f : Formatting) : Draft :=
  { d with formatting := f :: d.formatting }

def closeFormatting (d : Draft) (kind : FormattingKind) : Draft :=
  { d with formatting := Formatting.close kind d.formatting }

/-- The formatting that a text inserted now gets. -/
def activeFormatting (d : Draft) : Formatting := Formatting.merge d.formatting

@[simp] theorem cursor_insertText (d : Draft) (text : String) :
    (d.insertText text).cursor = d.cursor + Utf16.length text := rfl

@[simp] theorem insertions_insertText (d : Draft) (text : String) :
    (d.insertText text).insertions = d.insertions.push (.text d.location text) := rfl

@[simp] theorem cursor_record (d : Draft) (f : SpanRecords → SpanRecords) :
    (d.record f).cursor = d.cursor := rfl

@[simp] theorem insertions_record (d : Draft) (f : SpanRecords → SpanRecords) :
    (d.record f).insertions = d.insertions := rfl

theorem endsWithNewline_insertText (d : Draft) (text : String) :
    (d.insertText text).endsWithNewline = endsLine text := by
  simp [endsWithNewline]

theorem endsWithNewline_endLine (d : Draft) : d.endLine.endsWithNewline = true := by
  unfold endLine
  split
  · assumption
  · rw [endsWithNewline_insertText]; decide

end Draft
end MarkdownEdits
