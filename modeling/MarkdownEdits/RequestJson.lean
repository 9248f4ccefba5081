import MarkdownEdits.DocumentRequests
import MarkdownEdits.RequestForms

/-!
# Requests as JSON

Each request fills the form of its kind. A tab is given only where one is named.
-/
namespace MarkdownEdits

def Location.toJson (l : Location) : Json :=
  RequestForms.location (.integer l.index) (l.tab.map .text)

def Range.toJson (r : Range) : Json :=
  RequestForms.range (.integer r.span.start) (.integer r.span.stop) (r.tab.map .text)

def TextStyle.entries (s : TextStyle) : List (String × Json) :=
  TextAttributes.entries {
    bold := s.bold.map .bool
    italic := s.italic.map .bool
    strikethrough := s.strikethrough.map .bool
    fontFamily := s.fontFamily.map .text
    foreground := s.foreground.map Color.toJson
    background := s.background.map Color.toJson } ++
  (s.link.map fun url => RequestForms.link (.text url)).toList

def ParagraphStyle.entry : ParagraphStyle → String × Json
  | named style => RequestForms.namedStyle (.text style.name)
  | spaceBelow space => RequestForms.spaceBelow (.number space)
  | borderBottom border =>
    RequestForms.borderBottom border.color.toJson (.number border.width) (.number border.padding)

def CellStyle.entries (s : CellStyle) : List (String × Json) :=
  RequestForms.cell s.background.toJson s.border.toJson (.number s.borderWidth)
    (.number s.paddingVertical) (.number s.paddingHorizontal)

open RequestForms in
def Request.toJson : Request → Json
  | insertion (.text location content) => insertText location.toJson (.text content)
  | insertion (.table location rows columns) =>
    insertTable location.toJson (.integer rows) (.integer columns)
  | styling (.text range style) => updateTextStyle range.toJson style.entries
  | styling (.paragraph range style) => updateParagraphStyle range.toJson style.entry
  | styling (.bullets range preset) => createBullets range.toJson (.text preset.name)
  | styling (.cell table row column style) =>
    updateCellStyle table.toJson (.integer row) (.integer column) style.entries

end MarkdownEdits
