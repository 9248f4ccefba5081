import MarkdownEdits.ShortestDecimal

/-! # Numbers as they were given -/
namespace MarkdownEdits

/-- An integer of any size or a binary number. The two kinds are kept apart, so that a number is
handed on in the form in which it came. -/
inductive Number where
  | integer (value : Int)
  | real (value : Binary64)
  deriving DecidableEq, Repr, Inhabited

namespace Number

def isZero : Number → Bool
  | integer n => n == 0
  | real x => x.isZero

/-- Whether a number is less than an integer. The comparison is exact. -/
def isLess (limit : Number) (n : Int) : Bool :=
  match limit with
  | integer m => decide (m < n)
  | real x => x.isLess n

/-- The digits of a number, as few as tell it from others of its kind. -/
def write (spelling : ShortestDecimal.Spelling) : Number → String
  | integer n => toString n
  | real x => ShortestDecimal.write spelling x

def plainSpelling : ShortestDecimal.Spelling := ⟨"nan", "inf"⟩

def text (n : Number) : String := n.write plainSpelling

end Number
end MarkdownEdits
