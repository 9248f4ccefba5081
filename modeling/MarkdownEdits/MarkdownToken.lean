/-!
# Markdown tokens

A document comes as a stream of tokens. Blocks are opened and closed by tokens of their own, and
the inline content of a block is one token with children.
-/
namespace MarkdownEdits

inductive ListKind where
  | bullet
  | ordered
  deriving DecidableEq, Repr, Inhabited

/-- The marks that open and close around inline content, links apart. -/
inductive Mark where
  | strong
  | emphasis
  | strikethrough
  deriving DecidableEq, Repr

inductive Token where
  | inline (children : List Token)
  | text (content : String)
  | codeSpan (content : String)
  | openMark (mark : Mark)
  | closeMark (mark : Mark)
  /-- A link without a target opens no frame of formatting. -/
  | openLink (target : Option String)
  | closeLink
  | softBreak
  | hardBreak
  | openHeading (tag : String)
  | closeHeading
  | openParagraph
  | closeParagraph
  | openList (kind : ListKind)
  | closeList (kind : ListKind)
  | openItem
  | closeItem
  | codeBlock (content info : String)
  | rule
  /-- A token without a counterpart in a document; its children are not looked at. -/
  | skipped (type : String) (children : List Token)
  /-- A token that lacks what its type needs, and the words in which that is told. -/
  | malformed (type words : String)
  deriving Repr, Inhabited

/-- The six levels of headings. -/
inductive HeadingLevel where
  | h1
  | h2
  | h3
  | h4
  | h5
  | h6
  deriving DecidableEq, Repr

namespace HeadingLevel

def all : List HeadingLevel := [h1, h2, h3, h4, h5, h6]

def number : HeadingLevel → Nat
  | h1 => 1
  | h2 => 2
  | h3 => 3
  | h4 => 4
  | h5 => 5
  | h6 => 6

def tag : HeadingLevel → String
  | h1 => "h1"
  | h2 => "h2"
  | h3 => "h3"
  | h4 => "h4"
  | h5 => "h5"
  | h6 => "h6"

def ofTag? (tag : String) : Option HeadingLevel := all.find? (·.tag == tag)

theorem ofTag?_tag (level : HeadingLevel) : ofTag? level.tag = some level := by
  cases level <;> decide

end HeadingLevel

/-- The types that are known to have no counterpart in a document, in alphabetical order. -/
def skippedTypes : List String :=
  ["blockquote_close", "blockquote_open", "front_matter", "html_block", "html_inline", "image",
    "table_close", "table_open", "tbody_close", "tbody_open", "td_close", "td_open", "th_close",
    "th_open", "thead_close", "thead_open", "tr_close", "tr_open"]

end MarkdownEdits
