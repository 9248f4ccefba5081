import MarkdownEdits.Binary64

/-!
# Shortest decimals of binary numbers

The digits of a number are the fewest that read back as the same number, and of those the
nearest to it, a tie to the even last digit. Numbers from 10 ^ −4 to below 10 ^ 16 are written
positionally and keep a fraction, all others with an exponent of at least two digits.
-/
namespace MarkdownEdits.ShortestDecimal

def ratio (m : Nat) (e : Int) : Nat × Nat :=
  if e < 0 then (m, Nat.pow 2 (-e).toNat) else (m * Nat.pow 2 e.toNat, 1)

/-- Numerator and denominator of `num / den / 10 ^ e`. -/
def scaleTen (num den : Nat) (e : Int) : Nat × Nat :=
  if e < 0 then (num * Nat.pow 10 (-e).toNat, den) else (num, den * Nat.pow 10 e.toNat)

/-- The exponent of the leading decimal digit of `num / den`. The binary logarithm gives an
estimate that is off by two at most. -/
def leadingExponent (num den : Nat) : Int :=
  let estimate := (((num.log2 : Int) - den.log2) * 1233) / 4096
  let reached (p : Int) : Bool :=
    let scaled := scaleTen num den p
    decide (scaled.2 ≤ scaled.1)
  ([estimate + 2, estimate + 1, estimate, estimate - 1].find? reached).getD (estimate - 2)

/-- The better of the two neighbours with `count` digits, if one reads back as `x`. -/
def candidate? (x : Binary64) (num den : Nat) (lead : Int) (count : Nat) : Option (Nat × Int) :=
  let unit := lead + 1 - count
  let scaled := scaleTen num den unit
  let below := scaled.1 / scaled.2
  let twice := 2 * (scaled.1 % scaled.2)
  let readsBack (d : Nat) : Bool := Binary64.ofDecimal false d unit == x
  let upper := if twice = scaled.2 then below % 2 = 1 else scaled.2 < twice
  if readsBack below && readsBack (below + 1) then
    some (if upper then below + 1 else below, unit)
  else if readsBack below then some (below, unit)
  else if readsBack (below + 1) then some (below + 1, unit)
  else none

/-- Trailing zeros moved into the exponent; the first argument bounds their number. -/
def trimZeros : Nat → Nat → Int → Nat × Int
  | 0, d, e => (d, e)
  | n + 1, d, e => if d % 10 = 0 then trimZeros n (d / 10) (e + 1) else (d, e)

/-- Digits and exponent of the shortest decimal of a positive number. -/
def shortest (m : Nat) (e : Int) : Nat × Int :=
  let value := ratio m e
  let lead := leadingExponent value.1 value.2
  let counts := (List.range 17).map (· + 1)
  let found := counts.findSome? (candidate? (.finite false m e) value.1 value.2 lead)
  let (d, unit) := found.getD (0, 0)
  trimZeros 18 d unit

/-- The digits with a point after the first `whole` of them. -/
def positional (digits : List Char) (whole : Int) : List Char :=
  if whole ≤ 0 then '0' :: '.' :: (List.replicate (-whole).toNat '0' ++ digits)
  else
    let n := whole.toNat
    let fraction := digits.drop n
    digits.take n ++ List.replicate (n - digits.length) '0' ++
      '.' :: (if fraction.isEmpty then ['0'] else fraction)

/-- The digits with a point after the first and an exponent. -/
def scientific (digits : List Char) (exponent : Int) : List Char :=
  let size := Nat.toDigits 10 exponent.natAbs
  let mantissa := match digits with
    | first :: second :: rest => first :: '.' :: second :: rest
    | short => short
  mantissa ++ 'e' :: (if exponent < 0 then '-' else '+') ::
    (List.replicate (2 - size.length) '0' ++ size)

def magnitude (m : Nat) (e : Int) : List Char :=
  if m = 0 then ['0', '.', '0']
  else
    let (d, unit) := shortest m e
    let digits := Nat.toDigits 10 d
    let whole := unit + digits.length
    if -4 < whole ∧ whole ≤ 16 then positional digits whole else scientific digits (whole - 1)

/-- How the numbers without digits are spelled. -/
structure Spelling where
  nan : String
  infinity : String

def write (spelling : Spelling) : Binary64 → String
  | .nan => spelling.nan
  | .infinite negative => (if negative then "-" else "") ++ spelling.infinity
  | .finite negative m e => (if negative then "-" else "") ++ String.ofList (magnitude m e)

end MarkdownEdits.ShortestDecimal
