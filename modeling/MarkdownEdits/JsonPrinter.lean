import MarkdownEdits.JsonValue
import MarkdownEdits.QuotedText

/-!
# Printing JSON

Fields stand in their own order. Control characters and halves of surrogate pairs are escaped and
all other characters stand for themselves. An indented value has one item or field a line.
-/
namespace MarkdownEdits.JsonPrinter

/-- How a value is laid out: `step` is the indentation of one level, or nothing where all stands
on one line. -/
structure Layout where
  step : Option Nat
  colon : String

namespace Layout

def compact : Layout := ⟨none, ":"⟩

def indented : Layout := ⟨some 2, ": "⟩

def lineBreak (layout : Layout) (depth : Nat) : String :=
  match layout.step with
  | none => ""
  | some n => "\n" ++ String.ofList (List.replicate (n * depth) ' ')

end Layout

/-- The spelling of numbers that JSON has no numeral for. -/
def spelling : ShortestDecimal.Spelling := ⟨"NaN", "Infinity"⟩

def escape (c : Char) : String :=
  if c = '"' then "\\\""
  else if c = '\\' then "\\\\"
  else if c = '\n' then "\\n"
  else if c = '\r' then "\\r"
  else if c = '\t' then "\\t"
  else if c = '\x08' then "\\b"
  else if c = '\x0C' then "\\f"
  else if c.toNat < 0x20 then "\\u" ++ QuotedText.hexDigits 4 c.toNat
  else String.singleton c

def escapePoint : CodePoint → String
  | .char c => escape c
  | point@(.half _) => "\\u" ++ QuotedText.hexDigits 4 point.number

def writePoints (points : List CodePoint) : String :=
  points.foldl (fun out point => out ++ escapePoint point) "\"" ++ "\""

def writeText (s : String) : String := writePoints (s.toList.map .char)

mutual

def write (layout : Layout) (depth : Nat) : Json → String
  | .null => "null"
  | .bool b => if b then "true" else "false"
  | .number n => n.write spelling
  | .text s => writeText s
  | .brokenText t => writePoints t.points
  | .array [] => "[]"
  | .array (item :: rest) =>
    writeItems layout (depth + 1) ("[" ++ layout.lineBreak (depth + 1) ++
      write layout (depth + 1) item) rest ++ layout.lineBreak depth ++ "]"
  | .object [] => "\x7b\x7d"
  | .object ((name, value) :: rest) =>
    writeFields layout (depth + 1) ("\x7b" ++ layout.lineBreak (depth + 1) ++ writeText name ++
      layout.colon ++ write layout (depth + 1) value) rest ++ layout.lineBreak depth ++ "\x7d"

/-- The items after the first one, added to what is written so far. -/
def writeItems (layout : Layout) (depth : Nat) (out : String) : List Json → String
  | [] => out
  | item :: rest =>
    writeItems layout depth (out ++ "," ++ layout.lineBreak depth ++ write layout depth item) rest

/-- The fields after the first one, added to what is written so far. -/
def writeFields (layout : Layout) (depth : Nat) (out : String) : List (String × Json) → String
  | [] => out
  | (name, value) :: rest =>
    writeFields layout depth (out ++ "," ++ layout.lineBreak depth ++ writeText name ++
      layout.colon ++ write layout depth value) rest

end

def print (layout : Layout) (value : Json) : String := write layout 0 value

end MarkdownEdits.JsonPrinter
