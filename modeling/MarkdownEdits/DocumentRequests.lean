import MarkdownEdits.Color

/-!
# Requests to a document

Insertions place a text or a table at a position of the document as it stands at that moment.
Stylings address positions of the finished document. Each request has one target, which may name
a tab of the document.
-/
namespace MarkdownEdits

/-- The tab that is meant by an optional name; an empty name means none. -/
def namedTab (name : Option String) : Option String := name.filter (· != "")

/-- A position in UTF-16 units. -/
structure Location where
  index : Int
  tab : Option String
  deriving DecidableEq, Repr

/-- Positions from a first one up to, and without, a last one. -/
structure Span where
  start : Int
  stop : Int
  deriving DecidableEq, Repr, Inhabited

structure Range where
  span : Span
  tab : Option String
  deriving DecidableEq, Repr

def Span.inTab (s : Span) (tab : Option String) : Range := ⟨s, tab⟩

/-- A paragraph style that the document knows by name. -/
structure NamedStyle where
  name : String
  deriving DecidableEq, Repr, Inhabited

/-- A kind of list glyphs that the document knows by name. -/
structure BulletPreset where
  name : String
  deriving DecidableEq, Repr, Inhabited

namespace BulletPreset

def unordered : BulletPreset := ⟨"BULLET_DISC_CIRCLE_SQUARE"⟩

def ordered : BulletPreset := ⟨"NUMBERED_DECIMAL_ALPHA_ROMAN"⟩

def checkbox : BulletPreset := ⟨"BULLET_CHECKBOX"⟩

end BulletPreset

/-- The attributes of characters that a request sets. -/
structure TextStyle where
  bold : Option Bool := none
  italic : Option Bool := none
  strikethrough : Option Bool := none
  fontFamily : Option String := none
  foreground : Option Color := none
  background : Option Color := none
  link : Option String := none
  deriving DecidableEq, Repr

/-- The line below a paragraph; widths are in points. -/
structure Border where
  color : Color
  width : Number
  padding : Number
  deriving DecidableEq, Repr

/-- The one attribute of paragraphs that a request sets; spaces are in points. -/
inductive ParagraphStyle where
  | named (style : NamedStyle)
  | spaceBelow (space : Number)
  | borderBottom (border : Border)
  deriving DecidableEq, Repr

/-- Background, borders and paddings of a table cell; widths are in points. -/
structure CellStyle where
  background : Color
  border : Color
  borderWidth : Number
  paddingVertical : Number
  paddingHorizontal : Number
  deriving DecidableEq, Repr

inductive Insertion where
  | text (location : Location) (content : String)
  | table (location : Location) (rows columns : Int)
  deriving DecidableEq, Repr

namespace Insertion

def location : Insertion → Location
  | text location _ => location
  | table location _ _ => location

/-- The text that is inserted, if the insertion is one of text. -/
def text? : Insertion → Option String
  | text _ content => some content
  | table .. => none

end Insertion

inductive Styling where
  | text (range : Range) (style : TextStyle)
  | paragraph (range : Range) (style : ParagraphStyle)
  | bullets (range : Range) (preset : BulletPreset)
  | cell (table : Location) (row column : Int) (style : CellStyle)
  deriving DecidableEq, Repr

inductive Request where
  | insertion (insertion : Insertion)
  | styling (styling : Styling)
  deriving DecidableEq, Repr

def Request.kind : Request → String
  | insertion (.text ..) => "insertText"
  | insertion (.table ..) => "insertTable"
  | styling (.text ..) => "updateTextStyle"
  | styling (.paragraph ..) => "updateParagraphStyle"
  | styling (.bullets ..) => "createParagraphBullets"
  | styling (.cell ..) => "updateTableCellStyle"

/-- Units that an empty table of one cell takes: the line end before it, the table, the row and
the cell, and two units around the cell's text. -/
def emptyTableSize : Int := 6

/-- Where the table itself stands after the place it was inserted at. -/
def tableElementOffset : Int := 1

/-- Where the text of the only cell begins after the place the table was inserted at. -/
def cellContentOffset : Int := 4

end MarkdownEdits
