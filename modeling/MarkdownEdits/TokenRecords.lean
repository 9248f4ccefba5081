import MarkdownEdits.JsonDisplay
import MarkdownEdits.MarkdownToken

/-!
# Tokens from records

A record names the type of its token by a text and holds what this type needs in other fields. A
field that is missing has an empty value. A record whose content is of the wrong kind gives a
malformed token. In a target, a tag and the information of a code block, which are not counted in
units, half of a surrogate pair is as it is shown.
-/
namespace MarkdownEdits.Token

/-- What is told of a record that lacks what its type needs. These words are not the converter's
own, and a star stands for them. -/
def foreignWords : String := "*"

def ofDefect (type : String) : Token := .malformed type foreignWords

/-- The target that a value is shown by, unless it is empty. -/
def targetText? (value : Json) : Option String :=
  if value.isTruthy then some value.display else none

/-- The target that a record's attributes name, where attributes are there at all. -/
def linkToken (type : String) (attributes : Option Json) : Token :=
  match attributes with
  | none => .openLink none
  | some (.object fields) => .openLink (targetText? (.field "href" (.object fields)))
  | some _ => ofDefect type

/-- A tag of another kind is named as it is shown. What has parts cannot be looked up. -/
def headingToken (type : String) (tag : Option Json) : Token :=
  match tag with
  | none => .openHeading ""
  | some (.array _) | some (.object _) => ofDefect type
  | some value => .openHeading value.display

/-- A leaf with the record's content. An empty value of another kind counts as the empty text, and
a text must have units. -/
def leaf (type : String) (make : String → Token) (content : Option Json) : Token :=
  match content with
  | none => make ""
  | some (.text s) => make s
  | some value => if value.isTruthy then ofDefect type else make ""

/-- A code block, whose content and information must be texts. The content must have units. -/
def codeToken (type : String) (content info : Option Json) : Token :=
  match content.getD (.text ""), (info.getD (.text "")).shownText? with
  | .text content, some info => .codeBlock content info
  | _, _ => ofDefect type

def assemble (record : Json) (children : List Token) : Token :=
  let type := ((record.field "type").text?).getD ""
  match type with
  | "inline" => .inline children
  | "text" => leaf type .text (record.field? "content")
  | "code_inline" => leaf type .codeSpan (record.field? "content")
  | "strong_open" => .openMark .strong
  | "strong_close" => .closeMark .strong
  | "em_open" => .openMark .emphasis
  | "em_close" => .closeMark .emphasis
  | "s_open" => .openMark .strikethrough
  | "s_close" => .closeMark .strikethrough
  | "link_open" => linkToken type (record.field? "attrs")
  | "link_close" => .closeLink
  | "softbreak" => .softBreak
  | "hardbreak" => .hardBreak
  | "heading_open" => headingToken type (record.field? "tag")
  | "heading_close" => .closeHeading
  | "paragraph_open" => .openParagraph
  | "paragraph_close" => .closeParagraph
  | "bullet_list_open" => .openList .bullet
  | "ordered_list_open" => .openList .ordered
  | "bullet_list_close" => .closeList .bullet
  | "ordered_list_close" => .closeList .ordered
  | "list_item_open" => .openItem
  | "list_item_close" => .closeItem
  | "fence" | "code_block" => codeToken type (record.field? "content") (record.field? "info")
  | "hr" => .rule
  | _ => .skipped type children

mutual

def ofRecord : Json → Token
  | .object fields => assemble (.object fields) ((childrenOf fields).getD [])
  | _ => ofDefect ""

def childrenOf : List (String × Json) → Option (List Token)
  | [] => none
  | (name, value) :: rest =>
    match childrenOf rest with
    | some children => some children
    | none => if name = "children" then some (ofRecords value) else none

/-- The tokens of an array of records; any other value holds none. -/
def ofRecords : Json → List Token
  | .array items => ofItems items
  | _ => []

def ofItems : List Json → List Token
  | [] => []
  | item :: rest => ofRecord item :: ofItems rest

end

/-- The types without a counterpart are read as skipped tokens, whatever else a record holds. -/
theorem assemble_of_mem_skippedTypes {record : Json} {type : String} (h : type ∈ skippedTypes)
    (ht : record.field "type" = .text type) (children : List Token) :
    assemble record children = .skipped type children := by
  simp only [skippedTypes, List.mem_cons, List.not_mem_nil, or_false] at h
  rcases h with rfl | rfl | rfl | rfl | rfl | rfl | rfl | rfl | rfl | rfl | rfl | rfl | rfl | rfl |
    rfl | rfl | rfl | rfl <;> simp [assemble, ht, Json.text?]

end MarkdownEdits.Token
