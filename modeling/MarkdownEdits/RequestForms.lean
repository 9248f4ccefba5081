import MarkdownEdits.Color

/-!
# Forms of requests

A request is an object of one field, which is named for the request's kind. A form sets given
values into such an object whatever they are, so that a number stays the number it was, and fixes
the order of the fields. The mask of a style names the attributes that the style holds.
-/
namespace MarkdownEdits

namespace RequestForms

/-- The tab that a value names, whatever its kind; a value that counts as false names none. -/
def tab? (value : Json) : Option Json := if value.isTruthy then some value else none

def location (index : Json) (tab : Option Json) : Json :=
  .objectOf [("index", some index), ("tabId", tab)]

def range (start stop : Json) (tab : Option Json) : Json :=
  .objectOf [("startIndex", some start), ("endIndex", some stop), ("tabId", tab)]

def points (magnitude : Json) : Json := .object [("magnitude", magnitude), ("unit", .text "PT")]

/-- The channels of a colour where one may also be absent. -/
def optionalColor (channels : Json) : Json :=
  .object [("color", .object [("rgbColor", channels)])]

def mask (entries : List (String × Json)) : Json :=
  .text (",".intercalate (entries.map (·.1)))

def insertText (location text : Json) : Json :=
  .object [("insertText", .object [("location", location), ("text", text)])]

def insertTable (location rows columns : Json) : Json :=
  .object [("insertTable",
    .object [("location", location), ("rows", rows), ("columns", columns)])]

def updateTextStyle (range : Json) (entries : List (String × Json)) : Json :=
  .object [("updateTextStyle", .object [("range", range), ("textStyle", .object entries),
    ("fields", mask entries)])]

def updateParagraphStyle (range : Json) (entry : String × Json) : Json :=
  .object [("updateParagraphStyle", .object [("range", range),
    ("paragraphStyle", .object [entry]), ("fields", mask [entry])])]

def createBullets (range preset : Json) : Json :=
  .object [("createParagraphBullets", .object [("range", range), ("bulletPreset", preset)])]

def updateCellStyle (table row column : Json) (entries : List (String × Json)) : Json :=
  .object [("updateTableCellStyle", .object [
    ("tableRange", .object [
      ("tableCellLocation", .object [("tableStartLocation", table), ("rowIndex", row),
        ("columnIndex", column)]),
      ("rowSpan", .integer 1), ("columnSpan", .integer 1)]),
    ("tableCellStyle", .object entries), ("fields", mask entries)])]

/-! ## Attributes -/

def link (url : Json) : String × Json := ("link", .object [("url", url)])

def namedStyle (name : Json) : String × Json := ("namedStyleType", name)

def spaceBelow (space : Json) : String × Json := ("spaceBelow", points space)

def borderBottom (channels width padding : Json) : String × Json :=
  ("borderBottom", .object [("color", optionalColor channels), ("width", points width),
    ("padding", points padding), ("dashStyle", .text "SOLID")])

def cell (background border borderWidth paddingVertical paddingHorizontal : Json) :
    List (String × Json) :=
  let border := Json.object [("color", optionalColor border), ("width", points borderWidth),
    ("dashStyle", .text "SOLID")]
  [("backgroundColor", optionalColor background),
    ("paddingTop", points paddingVertical), ("paddingBottom", points paddingVertical),
    ("paddingLeft", points paddingHorizontal), ("paddingRight", points paddingHorizontal),
    ("borderTop", border), ("borderBottom", border), ("borderLeft", border),
    ("borderRight", border)]

end RequestForms

/-- The attributes of characters as they are given; colours are given by their channels. -/
structure TextAttributes where
  bold : Option Json := none
  italic : Option Json := none
  strikethrough : Option Json := none
  fontFamily : Option Json := none
  foreground : Option Json := none
  background : Option Json := none
  deriving Repr

namespace TextAttributes

open RequestForms

def entries (a : TextAttributes) : List (String × Json) :=
  Json.present [("bold", a.bold), ("italic", a.italic), ("strikethrough", a.strikethrough),
    ("weightedFontFamily", a.fontFamily.map fun name => .object [("fontFamily", name)]),
    ("foregroundColor", a.foreground.map optionalColor),
    ("backgroundColor", a.background.map optionalColor)]

/-- The attributes with colours that are given in hexadecimal, the foreground read first. -/
def withHexColors (a : TextAttributes) (foreground background : Option Json) :
    Except ColorError TextAttributes := do
  let foreground ← foreground.mapM Color.ofJson
  let background ← background.mapM Color.ofJson
  return { a with
    foreground := foreground.map Color.toJson
    background := background.map Color.toJson }

def request? (a : TextAttributes) (range : Json) : Option Json :=
  if a.entries.isEmpty then none else some (updateTextStyle range a.entries)

end TextAttributes
end MarkdownEdits
