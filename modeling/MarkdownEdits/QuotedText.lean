import MarkdownEdits.CodePoints
import MarkdownEdits.PrintableCharacters

/-!
# Texts in quotes

A text is shown between apostrophes, or between quotation marks when it holds an apostrophe and
no quotation mark. The mark in use and the backslash are escaped, line ends and tabs have short
escapes, and a character that does not print is given by its code point in hexadecimal, like half
of a surrogate pair.
-/
namespace MarkdownEdits.QuotedText

/-- Lower-case hexadecimal digits of a number, filled up with zeros to a least count. -/
def hexDigits (count n : Nat) : String :=
  let digits := Nat.toDigits 16 n
  String.ofList (List.replicate (count - digits.length) '0' ++ digits)

def mark (s : String) : Char :=
  if s.toList.contains '\'' && !s.toList.contains '"' then '"' else '\''

def escape (quote c : Char) : String :=
  if c = quote || c = '\\' then String.ofList ['\\', c]
  else if c = '\n' then "\\n"
  else if c = '\r' then "\\r"
  else if c = '\t' then "\\t"
  else if PrintableCharacters.isPrintable c then String.singleton c
  else if c.toNat < 0x100 then "\\x" ++ hexDigits 2 c.toNat
  else if c.toNat < 0x10000 then "\\u" ++ hexDigits 4 c.toNat
  else "\\U" ++ hexDigits 8 c.toNat

def escapePoint (quote : Char) : CodePoint → String
  | .char c => escape quote c
  | point@(.half _) => "\\u" ++ hexDigits 4 point.number

def quotedPoints (points : List CodePoint) : String :=
  let q := mark (CodePoint.showAll points)
  String.singleton q ++ String.join (points.map (escapePoint q)) ++ String.singleton q

def quoted (s : String) : String := quotedPoints (s.toList.map .char)

end MarkdownEdits.QuotedText
