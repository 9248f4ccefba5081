/-!
# UTF-16 code units of a text

Positions in a document count UTF-16 code units. A character of the basic multilingual
plane is one unit, every other character is a pair of surrogates.
-/
namespace MarkdownEdits.Utf16

/-- Units that one character takes. -/
def width (c : Char) : Nat := if c.toNat < 0x10000 then 1 else 2

/-- The units of one character, the high surrogate first. -/
def charUnits (c : Char) : List UInt16 :=
  if c.toNat < 0x10000 then [UInt16.ofNat c.toNat]
  else [UInt16.ofNat (0xD800 + (c.toNat - 0x10000) / 0x400),
    UInt16.ofNat (0xDC00 + (c.toNat - 0x10000) % 0x400)]

def units (s : String) : List UInt16 := s.toList.flatMap charUnits

def widthOf (cs : List Char) : Nat := cs.foldr (fun c total => width c + total) 0

def length (s : String) : Nat := widthOf s.toList

@[simp] theorem widthOf_nil : widthOf [] = 0 := rfl

@[simp] theorem widthOf_cons (c : Char) (cs : List Char) :
    widthOf (c :: cs) = width c + widthOf cs := rfl

@[simp] theorem widthOf_append (cs ds : List Char) :
    widthOf (cs ++ ds) = widthOf cs + widthOf ds := by
  induction cs with
  | nil => simp
  | cons c cs ih => rw [List.cons_append, widthOf_cons, widthOf_cons, ih, Nat.add_assoc]

theorem width_pos (c : Char) : 0 < width c := by
  unfold width
  split <;> decide

theorem length_charUnits (c : Char) : (charUnits c).length = width c := by
  unfold charUnits width
  split <;> rfl

theorem length_units (s : String) : (units s).length = length s := by
  unfold units length
  induction s.toList with
  | nil => rfl
  | cons c cs ih => simp [length_charUnits, ih]

theorem widthOf_eq_zero_iff (cs : List Char) : widthOf cs = 0 ↔ cs = [] := by
  cases cs with
  | nil => simp
  | cons c cs => have := width_pos c; simp; omega

end MarkdownEdits.Utf16
