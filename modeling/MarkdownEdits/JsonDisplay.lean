import MarkdownEdits.JsonValue
import MarkdownEdits.QuotedText

/-!
# Values as they are shown

A text is shown as it is, and any other value like a literal: words with a capital, numbers by
their digits, arrays in brackets and objects in braces. The texts within are in quotes.
-/
namespace MarkdownEdits.Json

def listed (shown : List String) : String := ", ".intercalate shown

/-- A field in the place of an earlier one of its name, or behind all others. -/
def settle (fields : List (String × String)) (field : String × String) : List (String × String) :=
  if fields.any (·.1 == field.1) then
    fields.map fun earlier => if earlier.1 = field.1 then field else earlier
  else fields ++ [field]

mutual

def quoted : Json → String
  | null => "None"
  | bool b => if b then "True" else "False"
  | number n => n.text
  | text s => QuotedText.quoted s
  | brokenText t => QuotedText.quotedPoints t.points
  | array items => "[" ++ listed (quotedItems items) ++ "]"
  | object fields =>
    let settled := (quotedFields fields).foldl settle []
    "\x7b" ++ listed (settled.map fun (name, value) => QuotedText.quoted name ++ ": " ++ value) ++
      "\x7d"

def quotedItems : List Json → List String
  | [] => []
  | item :: rest => quoted item :: quotedItems rest

def quotedFields : List (String × Json) → List (String × String)
  | [] => []
  | (name, value) :: rest => (name, quoted value) :: quotedFields rest

end

def display (value : Json) : String := value.shownText?.getD value.quoted

end MarkdownEdits.Json
