import MarkdownEdits.Binary64
import MarkdownEdits.DecimalDigits
import MarkdownEdits.Whitespace

/-!
# Numerals in texts

A real numeral is a sign, digits with an optional point, and an optional exponent, or one of the
words for infinity and for no number. Digits of every script count, single low lines may stand
between digits, and blank characters may stand around the numeral. The information separators
are not among those blank characters. A byte in hexadecimal is a pair of digits, or one digit
beside a sign or a blank character.
-/
namespace MarkdownEdits.NumeralReading

def isPadding (c : Char) : Bool :=
  Whitespace.isBlank c && !(0x1C ≤ c.toNat && c.toNat ≤ 0x1F)

def unpad (cs : List Char) : List Char :=
  ((cs.dropWhile isPadding).reverse.dropWhile isPadding).reverse

/-- Digits that go on a run, where a low line must stand between two digits. -/
def moreDigits : List Char → List Nat × List Char
  | [] => ([], [])
  | '_' :: c :: rest =>
    match DecimalDigits.digit? c with
    | some d => let (ds, after) := moreDigits rest; (d :: ds, after)
    | none => ([], '_' :: c :: rest)
  | c :: rest =>
    match DecimalDigits.digit? c with
    | some d => let (ds, after) := moreDigits rest; (d :: ds, after)
    | none => ([], c :: rest)

/-- The longest run of digits at the front, and what follows it. -/
def digitRun : List Char → List Nat × List Char
  | [] => ([], [])
  | c :: rest =>
    match DecimalDigits.digit? c with
    | some d => let (ds, after) := moreDigits rest; (d :: ds, after)
    | none => ([], c :: rest)

def ofDigits (ds : List Nat) : Nat := ds.foldl (fun n d => 10 * n + d) 0

/-- A sign at the front: whether it is a minus, and the rest. -/
def takeSign : List Char → Bool × List Char
  | '-' :: rest => (true, rest)
  | '+' :: rest => (false, rest)
  | cs => (false, cs)

/-- The digits after a point at the front, if one stands there. -/
def takeFraction : List Char → List Nat × List Char
  | '.' :: rest => digitRun rest
  | cs => ([], cs)

/-- The exponent that the rest of a numeral gives; the rest must end with it. -/
def readExponent? : List Char → Option Int
  | [] => some 0
  | c :: rest =>
    if c = 'e' || c = 'E' then
      let (negative, rest) := takeSign rest
      match digitRun rest with
      | ([], _) => none
      | (ds, []) => some (if negative then -(ofDigits ds : Int) else ofDigits ds)
      | _ => none
    else none

def readDecimal? (negative : Bool) (cs : List Char) : Option Binary64 :=
  let (whole, rest) := digitRun cs
  let (fraction, rest) := takeFraction rest
  if whole.isEmpty && fraction.isEmpty then none
  else (readExponent? rest).map fun e =>
    Binary64.ofDecimal negative (ofDigits (whole ++ fraction)) (e - fraction.length)

def readSigned? (cs : List Char) : Option Binary64 :=
  let (negative, rest) := takeSign cs
  let word := String.ofList (rest.map Char.toLower)
  if word = "inf" || word = "infinity" then some (.infinite negative)
  else if word = "nan" then some .nan
  else readDecimal? negative rest

/-- The number nearest to what a real numeral stands for. -/
def readReal? (s : String) : Option Binary64 := readSigned? (unpad s.toList)

/-- The value of a hexadecimal digit: an ASCII letter or a decimal digit of any script. -/
def hexDigit? (c : Char) : Option Nat :=
  if 'a' ≤ c ∧ c ≤ 'f' then some (c.toNat - 'a'.toNat + 10)
  else if 'A' ≤ c ∧ c ≤ 'F' then some (c.toNat - 'A'.toNat + 10)
  else DecimalDigits.digit? c

/-- The value of two characters as a hexadecimal numeral. -/
def readHexPair? (a b : Char) : Option Int :=
  if a = '-' then (hexDigit? b).map fun n => -(n : Int)
  else if a = '+' || isPadding a then (hexDigit? b).map Int.ofNat
  else match hexDigit? a with
    | none => none
    | some high =>
      if isPadding b then some high
      else (hexDigit? b).map fun low => (16 * high + low : Nat)

end MarkdownEdits.NumeralReading
