import MarkdownEdits.MarkdownToken

/-!
# Well-nested streams

The streams of blocks in which whatever is opened is closed, in turn. Items stand in lists and
nowhere else, and paragraphs and headings hold inline content. A reader of Markdown gives no other
streams.
-/
namespace MarkdownEdits.Token

/-- Inline content that neither opens nor closes anything. -/
def IsLeaf : Token → Prop
  | text _ | codeSpan _ | softBreak | hardBreak | skipped .. => True
  | _ => False

/-- Inline content whose marks and links are closed in turn. Inside a link no link is opened. -/
inductive WellMarked : Bool → List Token → Prop
  | nil {linked} : WellMarked linked []
  | leaf {linked t rest} (ht : t.IsLeaf) (hrest : WellMarked linked rest) :
      WellMarked linked (t :: rest)
  | mark {linked inner rest} (mark : Mark) (hinner : WellMarked linked inner)
      (hrest : WellMarked linked rest) :
      WellMarked linked (openMark mark :: inner ++ closeMark mark :: rest)
  | link {inner rest} (target : Option String) (hinner : WellMarked true inner)
      (hrest : WellMarked false rest) :
      WellMarked false (openLink target :: inner ++ closeLink :: rest)

/-- The tokens between the start and the end of a table. The cells hold inline content. -/
inductive TableRows : List Token → Prop
  | nil : TableRows []
  | markup {rest} (type : String) (hrest : TableRows rest) : TableRows (skipped type [] :: rest)
  | cell {children rest} (hchildren : WellMarked false children) (hrest : TableRows rest) :
      TableRows (inline children :: rest)

/-- What stands next to each other: blocks, or the items of one list. -/
inductive Siblings where
  | blocks
  | items

open Siblings in
inductive WellNested : Siblings → List Token → Prop
  | nil {siblings} : WellNested siblings []
  | heading {children rest} (level : HeadingLevel) (hchildren : WellMarked false children)
      (hrest : WellNested blocks rest) :
      WellNested blocks (openHeading level.tag :: inline children :: closeHeading :: rest)
  | paragraph {children rest} (hchildren : WellMarked false children)
      (hrest : WellNested blocks rest) :
      WellNested blocks (openParagraph :: inline children :: closeParagraph :: rest)
  | rule {rest} (hrest : WellNested blocks rest) : WellNested blocks (rule :: rest)
  | codeBlock {rest} (content info : String) (hrest : WellNested blocks rest) :
      WellNested blocks (codeBlock content info :: rest)
  | markup {type rest} (htype : type = "html_block" ∨ type = "front_matter")
      (hrest : WellNested blocks rest) : WellNested blocks (skipped type [] :: rest)
  | quote {body rest} (hbody : WellNested blocks body) (hrest : WellNested blocks rest) :
      WellNested blocks
        (skipped "blockquote_open" [] :: body ++ skipped "blockquote_close" [] :: rest)
  | table {rows rest} (hrows : TableRows rows) (hrest : WellNested blocks rest) :
      WellNested blocks (skipped "table_open" [] :: rows ++ skipped "table_close" [] :: rest)
  | list {body rest} (kind : ListKind) (hbody : WellNested items body)
      (hrest : WellNested blocks rest) :
      WellNested blocks (openList kind :: body ++ closeList kind :: rest)
  | item {body rest} (hbody : WellNested blocks body) (hrest : WellNested items rest) :
      WellNested items (openItem :: body ++ closeItem :: rest)

end MarkdownEdits.Token
