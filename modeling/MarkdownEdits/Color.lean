import MarkdownEdits.JsonValue
import MarkdownEdits.NumeralReading
import MarkdownEdits.QuotedText

/-!
# Colours

A colour holds the channels that are given, each as a number between 0 and 1. A hexadecimal
colour gives all three, one byte each, after any number of number signs.
-/
namespace MarkdownEdits

structure Color where
  red : Option Number := none
  green : Option Number := none
  blue : Option Number := none
  deriving DecidableEq, Repr, Inhabited

inductive ColorError where
  /-- A text that is not a hexadecimal colour. -/
  | malformed (text : String)
  | broken (text : BrokenText)
  | notText
  deriving DecidableEq, Repr

def ColorError.message : ColorError → String
  | malformed text => "Invalid hex color: " ++ QuotedText.quoted text
  | broken text => "Invalid hex color: " ++ QuotedText.quotedPoints text.points
  | notText => "the color must be a string"

namespace Color

/-- A byte as a part of 255. -/
def channel (byte : Int) : Number := .real (Binary64.ofQuotient byte 255)

def ofBytes (red green blue : Int) : Color :=
  ⟨some (channel red), some (channel green), some (channel blue)⟩

/-- A colour of decimal fractions with three places. -/
def ofThousandths (red green blue : Nat) : Color :=
  let part (n : Nat) : Number := .real (Binary64.ofDecimal false n (-3))
  ⟨some (part red), some (part green), some (part blue)⟩

def bytes? (cs : List Char) : Option (Int × Int × Int) :=
  match cs.dropWhile (· == '#') with
  | [a, b, c, d, e, f] => do
    let red ← NumeralReading.readHexPair? a b
    let green ← NumeralReading.readHexPair? c d
    let blue ← NumeralReading.readHexPair? e f
    return (red, green, blue)
  | _ => none

def ofHex (s : String) : Except ColorError Color :=
  match bytes? s.toList with
  | some (red, green, blue) => .ok (ofBytes red green blue)
  | none => .error (.malformed s)

def ofJson : Json → Except ColorError Color
  | .text s => ofHex s
  | .brokenText t => .error (.broken t)
  | _ => .error .notText

def toJson (c : Color) : Json :=
  .objectOf [("red", c.red.map .number), ("green", c.green.map .number),
    ("blue", c.blue.map .number)]

end Color
end MarkdownEdits
