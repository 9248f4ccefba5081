import MarkdownEdits.BulletMerging
import MarkdownEdits.Configuration

/-!
# Styling a draft

The recorded spans become stylings, kind after kind: characters, headings, spaces, code blocks,
rules and bullets. Bullets come from the end of the document to its start.
-/
namespace MarkdownEdits

namespace Color

/-- Code in running text. -/
def codeText : Color := ofBytes 0x18 0x80 0x38

def codeBackground : Color := ofBytes 0xF1 0xF3 0xF4

def codeBlockBackground : Color := ofThousandths 937 945 953

def codeBlockBorder : Color := ofThousandths 855 863 878

def rule : Color := ofThousandths 750 750 750

end Color

def CellStyle.codeBlock : CellStyle where
  background := .codeBlockBackground
  border := .codeBlockBorder
  borderWidth := .real (Binary64.ofRatio false 1 2)
  paddingVertical := .integer 8
  paddingHorizontal := .integer 12

def Border.rule : Border where
  color := .rule
  width := .real (Binary64.ofRatio false 1 1)
  padding := .integer 6

namespace Formatting

/-- The attributes of characters under some formatting, links apart. Code has its font and its
colours. -/
def textStyle (f : Formatting) (codeFont : String) : TextStyle where
  bold := f.bold
  italic := f.italic
  strikethrough := f.strikethrough
  fontFamily := if f.code == some true then some codeFont else none
  foreground := if f.code == some true then some .codeText else none
  background := if f.code == some true then some .codeBackground else none

end Formatting

namespace SpanRecords

variable (tab : Option String) (config : Config)

/-- The styles of one text: its attributes, and its link in a request of its own. -/
def styleText (text : StyledText) : List Styling :=
  (if text.formatting.hasStyle then
    [.text (text.span.inTab tab) (text.formatting.textStyle config.codeFont)] else []) ++
  match text.formatting.link with
  | some url => if url = "" then [] else [.text (text.span.inTab tab) { link := some url }]
  | none => []

def styleHeading (heading : Heading) : List Styling :=
  match heading.style with
  | some style =>
    if style.name = "" then [] else [.paragraph (heading.span.inTab tab) (.named style)]
  | none => []

def spaceBelow (span : Span) : Styling :=
  .paragraph (span.inTab tab) (.spaceBelow (.real config.paragraphSpacing))

/-- The font of a code block's text, if there is text, and the style of its cell. -/
def styleCodeBlock (block : CodeBlock) : List Styling :=
  (if block.text.start < block.text.stop then
    [.text (block.text.inTab tab) { fontFamily := some config.codeFont }] else []) ++
  [.cell ⟨block.tableIndex, tab⟩ 0 0 .codeBlock]

def drawRule (span : Span) : Styling := .paragraph (span.inTab tab) (.borderBottom .rule)

def addBullets (bullets : BulletSpan) : Styling := .bullets (bullets.span.inTab tab) bullets.preset

def stylings (records : SpanRecords) : List Styling :=
  records.styledTexts.toList.flatMap (styleText tab config) ++
  records.headings.toList.flatMap (styleHeading tab) ++
  (records.paragraphs.toList ++ records.listTails.toList).map (spaceBelow tab config) ++
  records.codeBlocks.toList.flatMap (styleCodeBlock tab config) ++
  records.rules.toList.map (drawRule tab) ++
  (BulletSpan.descending (BulletSpan.ofItems records.items.toList)).map (addBullets tab)

end SpanRecords

def Draft.stylings (d : Draft) (config : Config) : List Styling := d.records.stylings d.tab config

end MarkdownEdits
