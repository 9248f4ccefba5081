import MarkdownEdits.JsonValue
import MarkdownEdits.NumeralReading

/-!
# Reading JSON

A reader takes what it understands from the front of the characters and gives the rest back. A
numeral without a fraction and an exponent is an integer, every other one a binary number.
-/
namespace MarkdownEdits.JsonReader

def isSpace (c : Char) : Bool := c == ' ' || c == '\n' || c == '\r' || c == '\t'

def skipSpace (cs : List Char) : List Char := cs.dropWhile isSpace

def hexValue? (c : Char) : Option Nat :=
  if c.toNat < 0x80 then NumeralReading.hexDigit? c else none

def hexQuad? (a b c d : Char) : Option Nat := do
  let a ← hexValue? a
  let b ← hexValue? b
  let c ← hexValue? c
  let d ← hexValue? d
  return ((a * 16 + b) * 16 + c) * 16 + d

/-- The code point of a unit that is no part of a pair. -/
def ofUnit (unit : Nat) : CodePoint :=
  if h : 0xD800 ≤ unit ∧ unit < 0xE000 then .half ⟨unit - 0xD800, by omega⟩
  else .char (Char.ofNat unit)

/-- The code point of a unit and, where the unit opens a pair, of the unit that follows it. -/
def ofUnits (first : Nat) (second : Option Nat) : CodePoint × Bool :=
  match second with
  | some low =>
    if 0xD800 ≤ first ∧ first < 0xDC00 ∧ 0xDC00 ≤ low ∧ low < 0xE000 then
      (.char (Char.ofNat (0x10000 + (first - 0xD800) * 0x400 + (low - 0xDC00))), true)
    else (ofUnit first, false)
  | none => (ofUnit first, false)

def shortEscape? : Char → Option Char
  | '"' => some '"'
  | '\\' => some '\\'
  | '/' => some '/'
  | 'b' => some '\x08'
  | 'f' => some '\x0C'
  | 'n' => some '\n'
  | 'r' => some '\r'
  | 't' => some '\t'
  | _ => none

/-- The rest of a text after its opening mark; the code points read so far are in reverse. -/
def readText (done : List CodePoint) : List Char → Option (List CodePoint × List Char)
  | [] => none
  | '"' :: rest => some (done.reverse, rest)
  | '\\' :: 'u' :: a :: b :: c :: d :: '\\' :: 'u' :: e :: f :: g :: h :: rest =>
    match hexQuad? a b c d with
    | none => none
    | some first =>
      match ofUnits first (hexQuad? e f g h) with
      | (point, true) => readText (point :: done) rest
      | (point, false) => readText (point :: done) ('\\' :: 'u' :: e :: f :: g :: h :: rest)
  | '\\' :: 'u' :: a :: b :: c :: d :: rest =>
    match hexQuad? a b c d with
    | none => none
    | some unit => readText (ofUnit unit :: done) rest
  | '\\' :: c :: rest =>
    match shortEscape? c with
    | none => none
    | some c => readText (.char c :: done) rest
  | c :: rest => if c.toNat < 0x20 then none else readText (.char c :: done) rest

def textOf (points : List CodePoint) : Json :=
  if broken : Utf16.lengthOf? points = none then .brokenText ⟨points, broken⟩
  else .text (CodePoint.showAll points)

theorem textOf_char (s : String) : textOf (s.toList.map .char) = .text s := by
  have hunits : Utf16.lengthOf? (s.toList.map .char) ≠ none := by
    rw [Utf16.lengthOf?_char]
    exact Option.some_ne_none _
  rw [textOf, dif_neg hunits, CodePoint.showAll_char]

/-- Half of a pair is kept where it stands. -/
theorem textOf_of_half {points : List CodePoint} {place : Fin 0x800}
    (h : .half place ∈ points) : ∃ t : BrokenText, t.points = points ∧
      textOf points = .brokenText t := by
  have hbroken := (Utf16.lengthOf?_eq_none_iff points).mpr ⟨place, h⟩
  exact ⟨⟨points, hbroken⟩, rfl, dif_pos hbroken⟩

def digits (cs : List Char) : List Char := cs.takeWhile Char.isDigit

def ofDigits (cs : List Char) : Nat := cs.foldl (fun n c => 10 * n + (c.toNat - '0'.toNat)) 0

/-- A point and the digits after it, if they stand at the front. -/
def takeFraction? : List Char → Option (List Char × List Char)
  | '.' :: rest =>
    let ds := digits rest
    if ds.isEmpty then none else some (ds, rest.drop ds.length)
  | _ => none

def takeExponent? : List Char → Option (Int × List Char)
  | [] => none
  | c :: rest =>
    if c = 'e' || c = 'E' then
      let (negative, rest) := NumeralReading.takeSign rest
      let ds := digits rest
      if ds.isEmpty then none
      else some (if negative then -(ofDigits ds : Int) else ofDigits ds, rest.drop ds.length)
    else none

/-- A numeral at the front. A leading zero stands alone. -/
def readNumber (cs : List Char) : Option (Number × List Char) :=
  let negative := cs.head? == some '-'
  let unsigned := if negative then cs.drop 1 else cs
  let whole := if unsigned.head? == some '0' then ['0'] else digits unsigned
  if whole.isEmpty then none
  else
    let rest := unsigned.drop whole.length
    let fraction := takeFraction? rest
    let afterFraction := (fraction.map (·.2)).getD rest
    let exponent := takeExponent? afterFraction
    match fraction, exponent with
    | none, none =>
      let n : Int := ofDigits whole
      some (.integer (if negative then -n else n), rest)
    | _, _ =>
      let places := (fraction.map (·.1)).getD []
      let e := (exponent.map (·.1)).getD 0
      let x := Binary64.ofDecimal negative (ofDigits (whole ++ places)) (e - places.length)
      some (.real x, (exponent.map (·.2)).getD afterFraction)

/-- What follows a given word, if it stands at the front. -/
def afterWord? (word : String) (cs : List Char) : Option (List Char) :=
  if word.toList.isPrefixOf cs then some (cs.drop word.toList.length) else none

mutual

/-- A value at the front. The first argument bounds the steps; every step takes a character. -/
def readValue : Nat → List Char → Option (Json × List Char)
  | 0, _ => none
  | n + 1, cs =>
    match skipSpace cs with
    | '"' :: rest => (readText [] rest).map fun (points, rest) => (textOf points, rest)
    | '[' :: rest =>
      match skipSpace rest with
      | ']' :: rest => some (.array [], rest)
      | rest => (readItems n [] rest).map fun (items, rest) => (.array items, rest)
    | '\x7b' :: rest =>
      match skipSpace rest with
      | '\x7d' :: rest => some (.object [], rest)
      | rest => (readFields n [] rest).map fun (fields, rest) => (.object fields, rest)
    | 't' :: rest => (afterWord? "rue" rest).map fun rest => (.bool true, rest)
    | 'f' :: rest => (afterWord? "alse" rest).map fun rest => (.bool false, rest)
    | 'n' :: rest => (afterWord? "ull" rest).map fun rest => (.null, rest)
    | cs => (readNumber cs).map fun (number, rest) => (.number number, rest)

/-- The items of an array up to its closing bracket; those read so far are in reverse. -/
def readItems : Nat → List Json → List Char → Option (List Json × List Char)
  | 0, _, _ => none
  | n + 1, done, cs =>
    match readValue n cs with
    | none => none
    | some (item, rest) =>
      match skipSpace rest with
      | ',' :: rest => readItems n (item :: done) rest
      | ']' :: rest => some ((item :: done).reverse, rest)
      | _ => none

/-- The fields of an object up to its closing brace; those read so far are in reverse. Half of a
pair in a name is read as what it is shown by. -/
def readFields : Nat → List (String × Json) → List Char →
    Option (List (String × Json) × List Char)
  | 0, _, _ => none
  | n + 1, done, cs =>
    match skipSpace cs with
    | '"' :: rest =>
      match readText [] rest with
      | none => none
      | some (points, rest) =>
        let name := CodePoint.showAll points
        match skipSpace rest with
        | ':' :: rest =>
          match readValue n rest with
          | none => none
          | some (value, rest) =>
            match skipSpace rest with
            | ',' :: rest => readFields n ((name, value) :: done) rest
            | '\x7d' :: rest => some (((name, value) :: done).reverse, rest)
            | _ => none
        | _ => none
    | _ => none

end

def read? (s : String) : Option Json :=
  let cs := s.toList
  match readValue (cs.length + 1) cs with
  | some (value, rest) => if (skipSpace rest).isEmpty then some value else none
  | none => none

end MarkdownEdits.JsonReader
