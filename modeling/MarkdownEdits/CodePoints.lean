import MarkdownEdits.Utf16

/-!
# Texts of code points

A text that comes from elsewhere may hold half of a surrogate pair without the other half. No
character stands for it, and such a text has no UTF-16 units.
-/
namespace MarkdownEdits

inductive CodePoint where
  | char (c : Char)
  /-- Half of a surrogate pair, by its place among all halves. -/
  | half (place : Fin 0x800)
  deriving DecidableEq, Repr

namespace CodePoint

def number : CodePoint → Nat
  | char c => c.toNat
  | half place => 0xD800 + place

/-- The character that a code point is shown by. -/
def shown : CodePoint → Char
  | char c => c
  | half _ => '\uFFFD'

/-- A text of code points as it is shown. -/
def showAll (points : List CodePoint) : String := String.ofList (points.map shown)

theorem showAll_char (s : String) : showAll (s.toList.map char) = s := by
  simp [showAll, Function.comp_def, shown]

end CodePoint

namespace Utf16

/-- How many units a text of code points takes, where it has units. -/
def lengthOf? : List CodePoint → Option Nat
  | [] => some 0
  | .char c :: rest => (lengthOf? rest).map (width c + ·)
  | .half _ :: _ => none

theorem lengthOf?_char (s : String) : lengthOf? (s.toList.map .char) = some (length s) := by
  rw [length]
  induction s.toList with
  | nil => rfl
  | cons c cs ih => rw [List.map_cons, lengthOf?, ih, Option.map_some, widthOf_cons]

theorem lengthOf?_eq_none_iff (points : List CodePoint) :
    lengthOf? points = none ↔ ∃ place, .half place ∈ points := by
  induction points with
  | nil => simp [lengthOf?]
  | cons point rest ih =>
    cases point with
    | char c => simp [lengthOf?, ih]
    | half place => exact iff_of_true rfl ⟨place, List.mem_cons_self⟩

end Utf16

/-- A text that has no UTF-16 units. -/
structure BrokenText where
  points : List CodePoint
  broken : Utf16.lengthOf? points = none
  deriving DecidableEq, Repr

namespace BrokenText

def shown (text : BrokenText) : String := CodePoint.showAll text.points

/-- Half of a pair, and nothing else. -/
def ofHalf (place : Fin 0x800) : BrokenText := ⟨[.half place], rfl⟩

end BrokenText
end MarkdownEdits
