import Mathlib.Algebra.Order.Field.Power
import Mathlib.Data.Rat.Cast.Order
import Mathlib.Tactic.FieldSimp
import Mathlib.Tactic.Linarith
import Mathlib.Tactic.NormNum
import Mathlib.Tactic.Positivity
import Mathlib.Tactic.Ring
import MarkdownEdits.Binary64

/-!
# Nearest numbers

A quotient is rounded to a number of the grid that no other one is nearer to. It is rounded to
zero exactly where it is at most half of the least number above zero.
-/
namespace MarkdownEdits.Binary64

/-- What a sign makes of a magnitude. -/
def signed (negative : Bool) (magnitude : ℚ) : ℚ :=
  if negative then -magnitude else magnitude

/-- The rational number that a finite number stands for. -/
def value? : Binary64 → Option ℚ
  | finite negative m e => some (signed negative (m * 2 ^ e))
  | _ => none

/-- The rational has a significand of at most 53 bits at an exponent that is not below the least. -/
def OnGrid (r : ℚ) : Prop :=
  ∃ (m : ℕ) (e : ℤ), m < 2 ^ 53 ∧ leastExponent ≤ e ∧ |r| = m * 2 ^ e

/-- The number is on the grid, and no number on the grid is nearer. -/
def IsNearest (x q : ℚ) : Prop := OnGrid x ∧ ∀ r, OnGrid r → |x - q| ≤ |r - q|

theorem OnGrid.neg {r : ℚ} (h : OnGrid r) : OnGrid (-r) := by
  obtain ⟨m, e, hm, he, hr⟩ := h
  exact ⟨m, e, hm, he, by rw [abs_neg, hr]⟩

theorem onGrid_pow {e : ℤ} (h : leastExponent ≤ e) : OnGrid (2 ^ e) :=
  ⟨1, e, by norm_num, h, by rw [abs_of_pos (by positivity), Nat.cast_one, one_mul]⟩

theorem onGrid_zero : OnGrid 0 := ⟨0, 0, by norm_num, by decide, by simp⟩

theorem onGrid_one : OnGrid 1 := onGrid_pow (e := 0) (by decide)

theorem IsNearest.neg {x q : ℚ} (h : IsNearest x q) : IsNearest (-x) (-q) := by
  refine ⟨h.1.neg, fun r hr => ?_⟩
  calc |-x - -q| = |x - q| := by rw [← abs_neg]; ring_nf
    _ ≤ |-r - q| := h.2 (-r) hr.neg
    _ = |r - -q| := by rw [← abs_neg]; ring_nf

/-- Rounding does not go below a number on the grid. -/
theorem IsNearest.le {x q a : ℚ} (h : IsNearest x q) (ha : OnGrid a) (haq : a ≤ q) : a ≤ x := by
  by_contra hlt
  have hle := h.2 a ha
  rw [abs_of_nonpos (by linarith), abs_of_nonpos (by linarith)] at hle
  linarith

theorem IsNearest.ge {x q a : ℚ} (h : IsNearest x q) (ha : OnGrid a) (hqa : q ≤ a) : x ≤ a := by
  have hle := h.neg.le ha.neg (by linarith)
  linarith

/-! ## Rounding to an integer -/

theorem abs_roundQuotient_sub_le (num : ℕ) {den : ℕ} (hden : 0 < den) :
    |(roundQuotient num den : ℚ) - num / den| ≤ 1 / 2 := by
  have hpos : (0 : ℚ) < den := by exact_mod_cast hden
  obtain ⟨hlow, hhigh⟩ := roundQuotient_error num hden
  have hlow : (2 : ℚ) * num ≤ 2 * (den * roundQuotient num den) + den := by exact_mod_cast hlow
  have hhigh : (2 : ℚ) * (den * roundQuotient num den) ≤ 2 * num + den := by
    exact_mod_cast hhigh
  have hdiv : (den : ℚ) * (num / den) = num := by field_simp
  rw [abs_le]
  constructor <;> nlinarith

theorem roundQuotient_eq_zero_iff (num : ℕ) {den : ℕ} (hden : 0 < den) :
    roundQuotient num den = 0 ↔ 2 * num ≤ den := by
  have hdiv := Nat.div_add_mod num den
  have hmod := Nat.mod_lt num hden
  simp only [roundQuotient]
  generalize num / den = q at hdiv ⊢
  generalize num % den = r at hdiv hmod ⊢
  rcases Nat.eq_zero_or_pos q with rfl | hq
  · rw [Nat.mul_zero, Nat.zero_add] at hdiv
    split
    · omega
    · rw [if_pos (Nat.zero_mod 2)]
      split <;> omega
  · have hle : den ≤ den * q := Nat.le_mul_of_pos_right den hq
    have hnonzero : ∀ n, n = q ∨ n = q + 1 → ¬n = 0 := by omega
    have hlarge : ¬2 * num ≤ den := by omega
    refine iff_of_false (hnonzero _ ?_) hlarge
    split
    · exact .inl rfl
    · split
      · exact .inr rfl
      · split
        · exact .inl rfl
        · exact .inr rfl

theorem abs_sub_le_of_half {k : ℕ} {x : ℚ} (h : |(k : ℚ) - x| ≤ 1 / 2) (j : ℤ) :
    |(k : ℚ) - x| ≤ |(j : ℚ) - x| := by
  by_cases hj : j = k
  · rw [hj, Int.cast_natCast]
  · have hone : (1 : ℚ) ≤ |(j : ℚ) - k| := by
      exact_mod_cast Int.one_le_abs (sub_ne_zero.mpr hj)
    have htriangle := abs_sub_le (j : ℚ) x k
    rw [abs_sub_comm x] at htriangle
    linarith

/-! ## Scaling -/

theorem scaleTwo_pos (num : ℕ) {den : ℕ} (hden : 0 < den) (e : ℤ) : 0 < (scaleTwo num den e).2 := by
  unfold scaleTwo
  split
  · exact hden
  · exact Nat.mul_pos hden (Nat.pow_pos (by decide))

theorem scaleTwo_div (num den : ℕ) (e : ℤ) :
    ((scaleTwo num den e).1 : ℚ) / (scaleTwo num den e).2 = num / den / 2 ^ e := by
  unfold scaleTwo
  split
  · obtain ⟨n, hn⟩ := Int.eq_ofNat_of_zero_le (a := -e) (by omega)
    obtain rfl : e = -n := by omega
    simp only [neg_neg, Int.toNat_natCast, Nat.pow_eq, Nat.cast_mul, Nat.cast_pow,
      Nat.cast_ofNat, zpow_neg, zpow_natCast, div_inv_eq_mul]
    ring
  · obtain ⟨n, rfl⟩ := Int.eq_ofNat_of_zero_le (a := e) (by omega)
    simp only [Int.toNat_natCast, Nat.pow_eq, Nat.cast_mul, Nat.cast_pow, Nat.cast_ofNat,
      zpow_natCast, div_div]

theorem two_zpow_log2_le {n : ℕ} (h : n ≠ 0) : (2 : ℚ) ^ (n.log2 : ℤ) ≤ n := by
  rw [zpow_natCast]
  exact_mod_cast Nat.log2_self_le h

theorem lt_two_zpow_log2 (n : ℕ) : (n : ℚ) < 2 ^ (n.log2 + 1 : ℤ) := by
  rw [← Nat.cast_one, ← Nat.cast_add, zpow_natCast]
  exact_mod_cast Nat.lt_log2_self

theorem div_two_zpow_mono {q : ℚ} (hq : 0 ≤ q) {e f : ℤ} (h : e ≤ f) : q / 2 ^ f ≤ q / 2 ^ e :=
  div_le_div_of_nonneg_left hq (by positivity) (zpow_le_zpow_right₀ (by norm_num) h)

theorem div_two_zpow_add_one (q : ℚ) (e : ℤ) : q / 2 ^ (e + 1) = q / 2 ^ e / 2 := by
  rw [zpow_add₀ (by norm_num), zpow_one, div_mul_eq_div_div]

/-- A quotient lies between the powers of two that the lengths of its parts give. -/
theorem div_log2_bounds {num den : ℕ} (hnum : num ≠ 0) (hden : 0 < den) :
    (2 : ℚ) ^ (num.log2 - den.log2 - 1 : ℤ) < num / den ∧
      (num : ℚ) / den < 2 ^ (num.log2 - den.log2 + 1 : ℤ) := by
  have hpos : (0 : ℚ) < den := by exact_mod_cast hden
  constructor
  · rw [lt_div_iff₀ hpos]
    calc (2 : ℚ) ^ (num.log2 - den.log2 - 1 : ℤ) * den
        < 2 ^ (num.log2 - den.log2 - 1 : ℤ) * 2 ^ (den.log2 + 1 : ℤ) := by
          gcongr
          exact lt_two_zpow_log2 den
      _ = 2 ^ (num.log2 : ℤ) := by rw [← zpow_add₀ (by norm_num)]; ring_nf
      _ ≤ num := two_zpow_log2_le hnum
  · rw [div_lt_iff₀ hpos]
    calc (num : ℚ) < 2 ^ (num.log2 + 1 : ℤ) := lt_two_zpow_log2 num
      _ = 2 ^ (num.log2 - den.log2 + 1 : ℤ) * 2 ^ (den.log2 : ℤ) := by
          rw [← zpow_add₀ (by norm_num)]; ring_nf
      _ ≤ 2 ^ (num.log2 - den.log2 + 1 : ℤ) * den := by
          gcongr
          exact two_zpow_log2_le hden.ne'

/-- The first guess of an exponent leaves 53 bits of the quotient or 54. -/
theorem div_two_zpow_bounds {num den : ℕ} (hnum : num ≠ 0) (hden : 0 < den) :
    (2 : ℚ) ^ 52 < num / den / 2 ^ (num.log2 - den.log2 - 53 : ℤ) ∧
      (num : ℚ) / den / 2 ^ (num.log2 - den.log2 - 53 : ℤ) < 2 ^ 54 := by
  obtain ⟨hlow, hhigh⟩ := div_log2_bounds hnum hden
  generalize hl : (num.log2 - den.log2 - 53 : ℤ) = low
  constructor
  · rw [lt_div_iff₀ (by positivity)]
    calc (2 : ℚ) ^ 52 * 2 ^ low = 2 ^ (num.log2 - den.log2 - 1 : ℤ) := by
          rw [← zpow_natCast, ← zpow_add₀ (by norm_num), ← hl]; congr 1; push_cast; ring
      _ < num / den := hlow
  · rw [div_lt_iff₀ (by positivity)]
    calc (num : ℚ) / den < 2 ^ (num.log2 - den.log2 + 1 : ℤ) := hhigh
      _ = 2 ^ 54 * 2 ^ low := by
          rw [← zpow_natCast, ← zpow_add₀ (by norm_num), ← hl]; congr 1; push_cast; ring

/-- At the exponent of a quotient its significand has 53 bits, or fewer at the least exponent. -/
theorem exponentOf_bounds {num den : ℕ} (hnum : num ≠ 0) (hden : 0 < den) :
    leastExponent ≤ exponentOf num den ∧
      (num : ℚ) / den / 2 ^ exponentOf num den < 2 ^ 53 ∧
      (exponentOf num den = leastExponent ∨
        2 ^ 52 ≤ (num : ℚ) / den / 2 ^ exponentOf num den) := by
  obtain ⟨hleast, hmost⟩ := div_two_zpow_bounds hnum hden
  have hq : (0 : ℚ) ≤ num / den := by positivity
  have hscaled := scaleTwo_div num den (num.log2 - den.log2 - 53)
  have hpos := scaleTwo_pos num hden (num.log2 - den.log2 - 53)
  simp only [exponentOf]
  generalize scaleTwo num den (num.log2 - den.log2 - 53) = scaled at hscaled hpos ⊢
  generalize (num.log2 - den.log2 - 53 : ℤ) = low at hscaled hleast hmost ⊢
  have hposQ : (0 : ℚ) < scaled.2 := by exact_mod_cast hpos
  have hwide : Nat.pow 2 53 * scaled.2 ≤ scaled.1 ↔ (2 : ℚ) ^ 53 ≤ num / den / 2 ^ low := by
    rw [← hscaled, le_div_iff₀ hposQ, Nat.pow_eq]
    exact_mod_cast Iff.rfl
  -- One exponent further the quotient has 53 bits if it had 54.
  obtain ⟨e, he, hbits⟩ : ∃ e, (if Nat.pow 2 53 * scaled.2 ≤ scaled.1 then low + 1 else low) = e ∧
      (2 : ℚ) ^ 52 ≤ num / den / 2 ^ e ∧ (num : ℚ) / den / 2 ^ e < 2 ^ 53 := by
    refine ⟨_, rfl, ?_⟩
    split
    · rename_i hle
      have hle := hwide.mp hle
      rw [div_two_zpow_add_one]
      constructor <;> linarith
    · rename_i hnot
      have hlt := lt_of_not_ge (mt hwide.mpr hnot)
      exact ⟨hleast.le, hlt⟩
  rw [he]
  refine ⟨le_max_left .., (div_two_zpow_mono hq (le_max_right ..)).trans_lt hbits.2, ?_⟩
  rcases le_total e leastExponent with h | h
  · exact .inl (max_eq_left h)
  · rw [max_eq_right h]
    exact .inr hbits.1

/-! ## Rounding to the grid -/

/-- A carry out of the significand goes into the exponent. -/
theorem onGrid_mul_pow {k : ℕ} {e : ℤ} (hk : k ≤ 2 ^ 53) (he : leastExponent ≤ e) :
    OnGrid (k * 2 ^ e) := by
  have hnonneg : (0 : ℚ) ≤ k * 2 ^ e := by positivity
  rcases Nat.lt_or_eq_of_le hk with hlt | rfl
  · exact ⟨k, e, hlt, he, abs_of_nonneg hnonneg⟩
  · have hcarry : ((2 ^ 53 : ℕ) : ℚ) * 2 ^ e = 2 ^ (53 + e) := by
      rw [zpow_add₀ (by norm_num)]
      norm_num
    rw [hcarry]
    exact onGrid_pow (by omega)

/-- On a coarser part of the grid a number is a multiple of the power, too. -/
theorem exists_int_mul_pow {r : ℚ} {m : ℕ} {e f : ℤ} (hr : |r| = m * 2 ^ f) (h : e ≤ f) :
    ∃ j : ℤ, r = j * 2 ^ e := by
  obtain ⟨n, hn⟩ := Int.eq_ofNat_of_zero_le (a := f - e) (by omega)
  have hmagnitude : |r| = ((m * 2 ^ n : ℕ) : ℤ) * 2 ^ e := by
    rw [hr, show f = n + e by omega, zpow_add₀ (by norm_num), zpow_natCast]
    push_cast
    ring
  rcases abs_choice r with hsign | hsign
  · exact ⟨(m * 2 ^ n : ℕ), by rw [← hmagnitude, hsign]⟩
  · exact ⟨-(m * 2 ^ n : ℕ), by rw [Int.cast_neg, neg_mul, ← hmagnitude, hsign, neg_neg]⟩

/-- On a finer part a number is at most the least multiple of the power that has 53 bits. -/
theorem le_of_finer {r : ℚ} {m : ℕ} {e f : ℤ} (hr : |r| = m * 2 ^ f) (hm : m < 2 ^ 53)
    (h : f < e) : r ≤ 2 ^ 52 * 2 ^ e := by
  calc r ≤ m * 2 ^ f := (le_abs_self r).trans_eq hr
    _ ≤ 2 ^ 53 * 2 ^ (e - 1) := by
        gcongr
        · exact_mod_cast hm.le
        · norm_num
        · omega
    _ = 2 ^ 52 * 2 ^ e := by rw [zpow_sub_one₀ (by norm_num)]; ring

/-- A multiple of a power of two that is off by half of it at most is nearest, where the multiple
has 53 bits or the power is the least one. -/
theorem isNearest_of_half {k : ℕ} {e : ℤ} {q : ℚ} (hk : |(k : ℚ) - q / 2 ^ e| ≤ 1 / 2)
    (he : leastExponent ≤ e) (hhigh : q / 2 ^ e < 2 ^ 53)
    (hlow : e = leastExponent ∨ 2 ^ 52 ≤ q / 2 ^ e) : IsNearest (k * 2 ^ e) q := by
  have hpow : (0 : ℚ) < 2 ^ e := by positivity
  have hscale (r : ℚ) : |r * 2 ^ e - q| = |r - q / 2 ^ e| * 2 ^ e := by
    rw [show r * 2 ^ e - q = (r - q / 2 ^ e) * 2 ^ e by field_simp, abs_mul, abs_of_pos hpow]
  have hmultiple (j : ℤ) : |k * 2 ^ e - q| ≤ |j * 2 ^ e - q| := by
    rw [hscale, hscale]
    exact mul_le_mul_of_nonneg_right (abs_sub_le_of_half hk j) hpow.le
  constructor
  · have hlt : (k : ℚ) < 2 ^ 53 + 1 := by linarith [(abs_le.mp hk).2]
    exact onGrid_mul_pow (Nat.lt_succ_iff.mp (by exact_mod_cast hlt)) he
  rintro r ⟨m, f, hm, hf, hr⟩
  rcases le_or_gt e f with hle | hlt
  · obtain ⟨j, rfl⟩ := exists_int_mul_pow hr hle
    exact hmultiple j
  · -- What is finer lies below a multiple that is not above the quotient.
    have hlow : (2 : ℚ) ^ 52 * 2 ^ e ≤ q := by
      rw [← le_div_iff₀ hpow]
      exact hlow.resolve_left (by omega)
    have hfine := le_of_finer hr hm hlt
    have hnear := hmultiple (2 ^ 52)
    rw [Int.cast_pow, Int.cast_ofNat] at hnear
    calc |k * 2 ^ e - q| ≤ |2 ^ 52 * 2 ^ e - q| := hnear
      _ = q - 2 ^ 52 * 2 ^ e := by rw [abs_sub_comm, abs_of_nonneg (by linarith)]
      _ ≤ q - r := by linarith
      _ ≤ |r - q| := by rw [abs_sub_comm]; exact le_abs_self _

theorem value?_ofGrid {negative : Bool} {k : ℕ} {e : ℤ} {x : ℚ}
    (h : (ofGrid negative k e).value? = some x) : x = signed negative (k * 2 ^ e) := by
  have hfinite {m : ℕ} {f : ℤ}
      (h : (if greatestExponent < f then infinite negative else finite negative m f).value? =
        some x) : x = signed negative (m * 2 ^ f) := by
    split at h
    · cases h
    · exact (Option.some.inj h).symm
  simp only [ofGrid, Nat.pow_eq, beq_iff_eq] at h
  by_cases hcarry : k = 2 ^ 53
  · rw [if_pos hcarry, if_pos hcarry] at h
    rw [hfinite h, hcarry, zpow_add_one₀ (by norm_num)]
    congr 1
    norm_num
    ring
  · rw [if_neg hcarry, if_neg hcarry] at h
    exact hfinite h

theorem isNearest_ofRatio {negative : Bool} {num den : ℕ} (hden : 0 < den) {x : ℚ}
    (h : (ofRatio negative num den).value? = some x) :
    IsNearest x (signed negative (num / den)) := by
  have hmagnitude : ∃ m : ℚ, x = signed negative m ∧ IsNearest m (num / den) := by
    by_cases hnum : num = 0
    · rw [ofRatio, if_pos hnum, value?, Option.some.injEq] at h
      refine ⟨_, h.symm, ?_⟩
      simp only [hnum, Nat.cast_zero, zero_mul, zero_div]
      exact ⟨onGrid_zero, fun r _ => by simp⟩
    · rw [ofRatio, if_neg hnum] at h
      obtain ⟨hleast, hhigh, hlow⟩ := exponentOf_bounds hnum hden
      have hround := abs_roundQuotient_sub_le (scaleTwo num den (exponentOf num den)).1
        (scaleTwo_pos num hden (exponentOf num den))
      rw [scaleTwo_div] at hround
      exact ⟨_, value?_ofGrid h, isNearest_of_half hround hleast hhigh hlow⟩
  obtain ⟨m, rfl, hm⟩ := hmagnitude
  cases negative with
  | false => exact hm
  | true => exact hm.neg

/-- A quotient of at most one has an exponent at which it is finite. -/
theorem exists_value?_ofRatio (negative : Bool) {num den : ℕ} (hden : 0 < den) (h : num ≤ den) :
    ∃ x, (ofRatio negative num den).value? = some x := by
  by_cases hnum : num = 0
  · rw [ofRatio, if_pos hnum]
    exact ⟨_, rfl⟩
  · have hlog : num.log2 ≤ den.log2 :=
      (Nat.le_log2 hden.ne').mpr ((Nat.log2_self_le hnum).trans h)
    have hexponent : exponentOf num den ≤ 0 := by
      have hleast : leastExponent ≤ 0 := by decide
      simp only [exponentOf]
      split <;> omega
    have hgreatest : greatestExponent = 971 := rfl
    rw [ofRatio, if_neg hnum]
    simp only [ofGrid]
    rw [if_neg (by split <;> omega)]
    exact ⟨_, rfl⟩

theorem isPositive_ofGrid (negative : Bool) (k : ℕ) (e : ℤ) :
    (ofGrid negative k e).isPositive = true ↔
      negative = false ∧ (k ≠ 0 ∨ greatestExponent < e) := by
  by_cases hcarry : k = 2 ^ 53
  · simp only [ofGrid, Nat.pow_eq, beq_iff_eq, if_pos hcarry]
    split <;> simp [isPositive, hcarry]
  · simp only [ofGrid, Nat.pow_eq, beq_iff_eq, if_neg hcarry]
    split
    · rename_i hlarge
      simp [isPositive, hlarge]
    · rename_i hsmall
      simp [isPositive, hsmall]

/-- A quotient is rounded to zero where it is at most half of the least number above zero. -/
theorem isPositive_ofRatio (negative : Bool) (num : ℕ) {den : ℕ} (hden : 0 < den) :
    (ofRatio negative num den).isPositive = true ↔
      negative = false ∧ 2 ^ (leastExponent - 1) < (num : ℚ) / den := by
  by_cases hnum : num = 0
  · have hnot : ¬(2 : ℚ) ^ (leastExponent - 1) < (num : ℚ) / den := by
      rw [hnum, Nat.cast_zero, zero_div, not_lt]
      positivity
    rw [ofRatio, if_pos hnum]
    simp [isPositive, hnot]
  obtain ⟨hleast, -, hlow⟩ := exponentOf_bounds hnum hden
  have hscaled := scaleTwo_div num den (exponentOf num den)
  have hpos := scaleTwo_pos num hden (exponentOf num den)
  rw [ofRatio, if_neg hnum, isPositive_ofGrid, Ne, roundQuotient_eq_zero_iff _ hpos, not_le]
  generalize exponentOf num den = e at *
  generalize scaleTwo num den e = scaled at *
  have hposQ : (0 : ℚ) < scaled.2 := by exact_mod_cast hpos
  have hpow : (0 : ℚ) < 2 ^ e := by positivity
  have hrounds : scaled.2 < 2 * scaled.1 ↔ (2 : ℚ) ^ (e - 1) < num / den := by
    calc scaled.2 < 2 * scaled.1 ↔ (scaled.2 : ℚ) < 2 * scaled.1 := by norm_cast
      _ ↔ 1 / 2 < (scaled.1 : ℚ) / scaled.2 := by
          rw [lt_div_iff₀ hposQ]
          constructor <;> intro h <;> linarith
      _ ↔ (2 : ℚ) ^ (e - 1) < num / den := by
          rw [hscaled, lt_div_iff₀ hpow, zpow_sub_one₀ (by norm_num)]
          ring_nf
  rw [hrounds]
  rcases hlow with rfl | hlow
  · simp [leastExponent, greatestExponent]
  · -- With 53 bits the quotient is far above the least number, and so is what it is rounded to.
    have hlarge : (2 : ℚ) ^ e < num / den := by
      rw [le_div_iff₀ hpow] at hlow
      linarith
    have habove {f : ℤ} (hf : f ≤ e) : (2 : ℚ) ^ f < num / den :=
      (zpow_le_zpow_right₀ (by norm_num) hf).trans_lt hlarge
    simp only [habove (show e - 1 ≤ e by omega), habove (show leastExponent - 1 ≤ e by omega),
      true_or]

/-! ## Decimals -/

theorem digitCount_bounds {n : ℕ} (h : n ≠ 0) :
    (10 : ℚ) ^ (digitCount n - 1 : ℤ) ≤ n ∧ (n : ℚ) < 10 ^ (digitCount n : ℤ) := by
  have hcount : digitCount n = (Nat.toDigits 10 n).length := if_neg h
  have hpos : 0 < (Nat.toDigits 10 n).length := Nat.length_toDigits_pos
  rw [hcount, zpow_natCast]
  constructor
  · obtain ⟨k, hk⟩ : ∃ k, (Nat.toDigits 10 n).length = k + 1 := Nat.exists_eq_add_one.mpr hpos
    rw [hk, Nat.cast_add, Nat.cast_one, add_sub_cancel_right, zpow_natCast]
    have hle : 10 ^ k ≤ n := by
      rcases Nat.eq_zero_or_pos k with rfl | hkpos
      · exact Nat.one_le_iff_ne_zero.mpr h
      · by_contra hlt
        have := (Nat.length_toDigits_le_iff (by decide) hkpos).mpr (not_le.mp hlt)
        omega
    exact_mod_cast hle
  · exact_mod_cast (Nat.length_toDigits_le_iff (by decide) hpos).mp le_rfl

/-- What is below the range of decimals is at most half of the least number. -/
theorem ten_zpow_le_half_least {e : ℤ} (h : e < -330) :
    (10 : ℚ) ^ e ≤ 2 ^ (leastExponent - 1) := by
  have hpow : (2 : ℕ) ^ 1075 ≤ 10 ^ 331 := by decide +kernel
  calc (10 : ℚ) ^ e ≤ 10 ^ (-331 : ℤ) := zpow_le_zpow_right₀ (by norm_num) (by omega)
    _ = (10 ^ 331 : ℚ)⁻¹ := by rw [← zpow_natCast, ← zpow_neg]; rfl
    _ ≤ (2 ^ 1075 : ℚ)⁻¹ := inv_anti₀ (by positivity) (by exact_mod_cast hpow)
    _ = 2 ^ (leastExponent - 1) := by rw [← zpow_natCast, ← zpow_neg]; rfl

theorem decimal_le_half_least {coefficient : ℕ} {exponent : ℤ}
    (h : coefficient = 0 ∨ exponent + digitCount coefficient < -330) :
    (coefficient : ℚ) * 10 ^ exponent ≤ 2 ^ (leastExponent - 1) := by
  by_cases hzero : coefficient = 0
  · rw [hzero, Nat.cast_zero, zero_mul]
    positivity
  · calc (coefficient : ℚ) * 10 ^ exponent
        ≤ 10 ^ (digitCount coefficient : ℤ) * 10 ^ exponent := by
          gcongr
          exact (digitCount_bounds hzero).2.le
      _ = 10 ^ (digitCount coefficient + exponent) := (zpow_add₀ (by norm_num) _ _).symm
      _ ≤ 2 ^ (leastExponent - 1) := ten_zpow_le_half_least (by omega)

theorem half_least_lt_decimal {coefficient : ℕ} {exponent : ℤ} (hzero : coefficient ≠ 0)
    (h : 0 < exponent + digitCount coefficient) :
    (2 : ℚ) ^ (leastExponent - 1) < coefficient * 10 ^ exponent := by
  calc (2 : ℚ) ^ (leastExponent - 1) < 2 ^ (0 : ℤ) :=
        zpow_lt_zpow_right₀ (by norm_num) (by decide)
    _ = 10 ^ (0 : ℤ) := by norm_num
    _ ≤ 10 ^ (digitCount coefficient - 1 + exponent) :=
        zpow_le_zpow_right₀ (by norm_num) (by omega)
    _ = 10 ^ (digitCount coefficient - 1 : ℤ) * 10 ^ exponent := zpow_add₀ (by norm_num) _ _
    _ ≤ coefficient * 10 ^ exponent := by
        gcongr
        exact (digitCount_bounds hzero).1

/-- A decimal is above zero once it is rounded exactly where it is above half of the least number.
The decimals that are not scaled at all lie outside the range. -/
theorem isPositive_ofDecimal (negative : Bool) (coefficient : ℕ) (exponent : ℤ) :
    (ofDecimal negative coefficient exponent).isPositive = true ↔
      negative = false ∧ 2 ^ (leastExponent - 1) < (coefficient : ℚ) * 10 ^ exponent := by
  simp only [ofDecimal, Bool.or_eq_true, decide_eq_true_eq, Nat.pow_eq]
  split
  · rename_i hsmall
    simp [isPositive, decimal_le_half_least hsmall]
  · rename_i hrange
    split
    · rename_i hlarge
      have hlt := half_least_lt_decimal (not_or.mp hrange).1 (by omega : 0 < exponent + _)
      simp [isPositive, hlt]
    · split
      · obtain ⟨n, hn⟩ := Int.eq_ofNat_of_zero_le (a := -exponent) (by omega)
        obtain rfl : exponent = -n := by omega
        rw [isPositive_ofRatio _ _ (Nat.pow_pos (by decide)), neg_neg, Int.toNat_natCast, zpow_neg,
          zpow_natCast, Nat.cast_pow, Nat.cast_ofNat, div_eq_mul_inv]
      · obtain ⟨n, rfl⟩ := Int.eq_ofNat_of_zero_le (a := exponent) (by omega)
        rw [isPositive_ofRatio _ _ Nat.one_pos, Nat.cast_one, div_one, Int.toNat_natCast,
          Nat.cast_mul, Nat.cast_pow, Nat.cast_ofNat, zpow_natCast]

end MarkdownEdits.Binary64
