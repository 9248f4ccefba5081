/-!
# Binary floating-point numbers of 64 bits

A finite number is a sign, a significand below 2 ^ 53 and an exponent of two not below −1074;
either the exponent is −1074 or the significand is at least 2 ^ 52, so each number has one form.
Quotients and decimals are rounded to the nearest number in exact arithmetic, a tie to the even
significand.
-/
namespace MarkdownEdits

inductive Binary64 where
  | nan
  | infinite (negative : Bool)
  | finite (negative : Bool) (significand : Nat) (exponent : Int)
  deriving DecidableEq, Repr, Inhabited

namespace Binary64

def leastExponent : Int := -1074

def greatestExponent : Int := 971

/-- The quotient of two numbers rounded to an integer, halves to the even one. -/
def roundQuotient (num den : Nat) : Nat :=
  let q := num / den
  let twice := 2 * (num % den)
  if twice < den then q
  else if den < twice then q + 1
  else if q % 2 = 0 then q else q + 1

/-- The rounded quotient is off by half a unit at most. -/
theorem roundQuotient_error (num : Nat) {den : Nat} (h : 0 < den) :
    2 * num ≤ 2 * (den * roundQuotient num den) + den ∧
      2 * (den * roundQuotient num den) ≤ 2 * num + den := by
  have hdiv := Nat.div_add_mod num den
  have hmod := Nat.mod_lt num h
  have hsucc : den * (num / den + 1) = den * (num / den) + den := Nat.mul_succ ..
  unfold roundQuotient
  dsimp only
  split
  · omega
  · split
    · rw [hsucc]; omega
    · split
      · omega
      · rw [hsucc]; omega

/-- Numerator and denominator of `num / den / 2 ^ e`. -/
def scaleTwo (num den : Nat) (e : Int) : Nat × Nat :=
  if e < 0 then (num * Nat.pow 2 (-e).toNat, den) else (num, den * Nat.pow 2 e.toNat)

/-- The exponent at which `num / den` has a significand of 53 bits, or the least one. -/
def exponentOf (num den : Nat) : Int :=
  let low : Int := (num.log2 : Int) - den.log2 - 53
  let scaled := scaleTwo num den low
  max leastExponent (if Nat.pow 2 53 * scaled.2 ≤ scaled.1 then low + 1 else low)

/-- The number with a given magnitude on the grid; a significand of 54 bits is halved. -/
def ofGrid (negative : Bool) (significand : Nat) (exponent : Int) : Binary64 :=
  let carried := significand == Nat.pow 2 53
  let m := if carried then Nat.pow 2 52 else significand
  let e := if carried then exponent + 1 else exponent
  if greatestExponent < e then infinite negative else finite negative m e

/-- The number nearest to `num / den`. -/
def ofRatio (negative : Bool) (num den : Nat) : Binary64 :=
  if num = 0 then finite negative 0 leastExponent
  else
    let e := exponentOf num den
    let scaled := scaleTwo num den e
    ofGrid negative (roundQuotient scaled.1 scaled.2) e

/-- Number of decimal digits; zero has none. -/
def digitCount (n : Nat) : Nat := if n = 0 then 0 else (Nat.toDigits 10 n).length

/-- The number nearest to `coefficient * 10 ^ exponent`. The magnitude is compared with the range
first, so that no power of ten is taken whose value could not matter. -/
def ofDecimal (negative : Bool) (coefficient : Nat) (exponent : Int) : Binary64 :=
  let top := exponent + digitCount coefficient
  if coefficient = 0 || top < -330 then finite negative 0 leastExponent
  else if 310 < top then infinite negative
  else if exponent < 0 then ofRatio negative coefficient (Nat.pow 10 (-exponent).toNat)
  else ofRatio negative (coefficient * Nat.pow 10 exponent.toNat) 1

def ofQuotient (num : Int) (den : Nat) : Binary64 := ofRatio (decide (num < 0)) num.natAbs den

def isPositive : Binary64 → Bool
  | nan => false
  | infinite negative => !negative
  | finite negative m _ => !negative && m != 0

/-- Whether the number is at most zero. A number that is not a number is not. -/
def isAtMostZero : Binary64 → Bool
  | nan => false
  | infinite negative => negative
  | finite negative m _ => negative || m == 0

def isZero : Binary64 → Bool
  | finite _ m _ => m == 0
  | _ => false

/-- Whether the number is less than an integer. Both are scaled to integers, so that nothing is
rounded. -/
def isLess (x : Binary64) (n : Int) : Bool :=
  match x with
  | nan => false
  | infinite negative => negative
  | finite negative m e =>
    let signed : Int := if negative then -m else m
    decide (signed * Nat.pow 2 e.toNat < n * Nat.pow 2 (-e).toNat)

/-- The interchange encoding: sign, eleven bits of biased exponent, 52 bits of fraction. -/
def toBits : Binary64 → Nat
  | nan => 0x7FF8000000000000
  | infinite negative => (if negative then Nat.pow 2 63 else 0) + 0x7FF0000000000000
  | finite negative m e =>
    let hidden := Nat.pow 2 52
    (if negative then Nat.pow 2 63 else 0) +
      (if m < hidden then m else (e + 1075).toNat * hidden + (m - hidden))

@[simp] theorem isAtMostZero_nan : isAtMostZero nan = false := rfl

theorem isPositive_eq_not_isAtMostZero {x : Binary64} (h : x ≠ nan) :
    x.isPositive = !x.isAtMostZero := by
  cases x with
  | nan => exact absurd rfl h
  | infinite negative => rfl
  | finite negative m e => cases negative <;> simp [isPositive, isAtMostZero, bne]

end Binary64
end MarkdownEdits
