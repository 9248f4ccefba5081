import MarkdownEdits.Color
import MarkdownEdits.Failures
import MarkdownEdits.Proofs.NearestNumbers
import MarkdownEdits.Proofs.NumeralSpellings

/-!
# Hexadecimal colours

A colour is three pairs of characters behind any number of number signs. A pair is two hexadecimal
digits, or one digit beside a sign or a blank character, and the digits of all scripts count.
Where a text keeps to the digits of ASCII, it is a colour exactly if it has six of them, and the
channels lie between 0 and 1.
-/
namespace MarkdownEdits
namespace Color
open NumeralReading

def hexAlphabet : List Char :=
  ['0', '1', '2', '3', '4', '5', '6', '7', '8', '9', 'a', 'b', 'c', 'd', 'e', 'f']

/-- The place of a hexadecimal digit of ASCII in the alphabet, a letter in either case. -/
def hexValue? (c : Char) : Option Nat := hexAlphabet.idxOf? c.toLower

/-- A hexadecimal digit with its value: one of the alphabet, or a decimal digit of any script. -/
def IsHexDigit (c : Char) (n : Nat) : Prop :=
  hexValue? c = some n ∨ DecimalDigits.digit? c = some n

theorem forall_ascii {P : Char → Prop} (h : ∀ k < 0x80, P (Char.ofNat k)) {c : Char}
    (hc : c.toNat < 0x80) : P c := by
  have hP := h c.toNat hc
  rwa [Char.ofNat_toNat] at hP

theorem hexDigit?_of_ascii {c : Char} (h : c.toNat < 0x80) : hexDigit? c = hexValue? c :=
  forall_ascii (P := fun c => hexDigit? c = hexValue? c) (by decide +kernel) h

theorem hexValue?_of_not_ascii {c : Char} (h : 0x80 ≤ c.toNat) : hexValue? c = none := by
  have halphabet : hexAlphabet.all (·.toNat < 0x80) = true := by decide
  rw [hexValue?, Numeral.toLower_eq_self (by omega), List.idxOf?_eq_none_iff]
  intro hmem
  have hascii := List.all_eq_true.mp halphabet c hmem
  rw [decide_eq_true_eq] at hascii
  omega

theorem hexDigit?_of_not_ascii {c : Char} (h : 0x80 ≤ c.toNat) :
    hexDigit? c = DecimalDigits.digit? c := by
  have hletter : ∀ last : Char, last.toNat < 0x80 → ¬c ≤ last := by
    intro last hlast hle
    have hle : c.toNat ≤ last.toNat := UInt32.le_iff_toNat_le.mp hle
    omega
  rw [hexDigit?, if_neg (fun hc => hletter 'f' (by decide) hc.2),
    if_neg (fun hc => hletter 'F' (by decide) hc.2)]

theorem hexValue?_of_digit? {c : Char} {n : Nat} (hascii : c.toNat < 0x80)
    (h : DecimalDigits.digit? c = some n) : hexValue? c = some n := by
  have hall := forall_ascii (c := c)
    (P := fun c => DecimalDigits.digit? c = none ∨ hexValue? c = DecimalDigits.digit? c)
    (by decide +kernel) hascii
  rcases hall with hnone | heq
  · rw [hnone] at h
    cases h
  · rw [heq, h]

theorem hexDigit?_eq_some_iff (c : Char) (n : Nat) : hexDigit? c = some n ↔ IsHexDigit c n := by
  rcases Nat.lt_or_ge c.toNat 0x80 with hascii | hascii
  · rw [hexDigit?_of_ascii hascii]
    exact ⟨.inl, fun h => h.elim id (hexValue?_of_digit? hascii)⟩
  · rw [hexDigit?_of_not_ascii hascii, IsHexDigit, hexValue?_of_not_ascii hascii]
    simp

/-- A hexadecimal digit is neither a sign nor blank. -/
theorem IsHexDigit.is_plain {c : Char} {n : Nat} (h : IsHexDigit c n) :
    c ≠ '-' ∧ c ≠ '+' ∧ isPadding c = false := by
  rcases h with hvalue | hdigit
  · have hascii : c.toNat < 0x80 := by
      by_contra hnot
      rw [hexValue?_of_not_ascii (by omega)] at hvalue
      cases hvalue
    have hall := forall_ascii (c := c)
      (P := fun c => hexValue? c = none ∨ c ≠ '-' ∧ c ≠ '+' ∧ isPadding c = false)
      (by decide +kernel) hascii
    exact hall.resolve_left (by simp [hvalue])
  · exact ⟨Numeral.ne_of_digit? hdigit (by decide), Numeral.ne_of_digit? hdigit (by decide),
      Numeral.isPadding_of_digit? hdigit⟩

theorem IsHexDigit.lt {c : Char} {n : Nat} (h : IsHexDigit c n) : n < 16 := by
  rcases h with hvalue | hdigit
  · exact (List.idxOf?_eq_some_iff.mp hvalue).1
  · have := DecimalDigits.digit?_lt_ten hdigit
    omega

/-! ## Pairs -/

/-- A pair of characters that stands for a byte, or for the negative of a digit. -/
inductive SpellsByte : Char → Char → ℤ → Prop
  | digits {a b : Char} {high low : ℕ} (hhigh : IsHexDigit a high) (hlow : IsHexDigit b low) :
    SpellsByte a b (16 * high + low)
  | plus {b : Char} {low : ℕ} (hlow : IsHexDigit b low) : SpellsByte '+' b low
  | minus {b : Char} {low : ℕ} (hlow : IsHexDigit b low) : SpellsByte '-' b (-low)
  | blankBefore {a b : Char} {low : ℕ} (hblank : isPadding a = true) (hlow : IsHexDigit b low) :
    SpellsByte a b low
  | blankBehind {a b : Char} {low : ℕ} (hlow : IsHexDigit a low) (hblank : isPadding b = true) :
    SpellsByte a b low

theorem SpellsByte.bounds {a b : Char} {n : ℤ} (h : SpellsByte a b n) : -15 ≤ n ∧ n ≤ 255 := by
  cases h with
  | digits hhigh hlow =>
    have := hhigh.lt
    have := hlow.lt
    omega
  | plus hlow | minus hlow | blankBefore _ hlow | blankBehind hlow =>
    have := hlow.lt
    omega

theorem readHexPair?_minus (b : Char) :
    readHexPair? '-' b = (hexDigit? b).map fun low : ℕ => -(low : ℤ) := by
  rw [readHexPair?, if_pos rfl]
  cases hexDigit? b <;> rfl

theorem spellsByte_of_readHexPair? {a b : Char} {n : ℤ} (h : readHexPair? a b = some n) :
    SpellsByte a b n := by
  by_cases hminus : a = '-'
  · rw [hminus, readHexPair?_minus] at h
    obtain ⟨low, hlow, rfl⟩ := Option.map_eq_some_iff.mp h
    rw [hminus]
    exact .minus ((hexDigit?_eq_some_iff b low).mp hlow)
  · rw [readHexPair?, if_neg hminus] at h
    split at h
    · rename_i hfront
      obtain ⟨low, hlow, rfl⟩ := Option.map_eq_some_iff.mp h
      have hlow := (hexDigit?_eq_some_iff b low).mp hlow
      rw [Bool.or_eq_true, decide_eq_true_eq] at hfront
      rcases hfront with hplus | hblank
      · rw [hplus]
        exact .plus hlow
      · exact .blankBefore hblank hlow
    · split at h
      · cases h
      · rename_i high hhigh
        have hhigh := (hexDigit?_eq_some_iff a high).mp hhigh
        split at h
        · rename_i hblank
          cases h
          exact .blankBehind hhigh hblank
        · obtain ⟨low, hlow, rfl⟩ := Option.map_eq_some_iff.mp h
          exact .digits hhigh ((hexDigit?_eq_some_iff b low).mp hlow)

theorem SpellsByte.readHexPair? {a b : Char} {n : ℤ} (h : SpellsByte a b n) :
    readHexPair? a b = some n := by
  cases h with
  | digits hhigh hlow =>
    obtain ⟨hminus, hplus, hblank⟩ := hhigh.is_plain
    simp [NumeralReading.readHexPair?, hminus, hplus, hblank, hlow.is_plain.2.2,
      (hexDigit?_eq_some_iff _ _).mpr hhigh, (hexDigit?_eq_some_iff _ _).mpr hlow]
  | plus hlow =>
    simp [NumeralReading.readHexPair?, (hexDigit?_eq_some_iff _ _).mpr hlow]
  | minus hlow =>
    simp [NumeralReading.readHexPair?, (hexDigit?_eq_some_iff _ _).mpr hlow]
  | @blankBefore a _ _ hblank hlow =>
    have hminus : a ≠ '-' := by
      rintro rfl
      cases hblank
    simp [NumeralReading.readHexPair?, hminus, hblank, (hexDigit?_eq_some_iff _ _).mpr hlow]
  | blankBehind hlow hbehind =>
    obtain ⟨hminus, hplus, hblank⟩ := hlow.is_plain
    simp [NumeralReading.readHexPair?, hminus, hplus, hblank, hbehind,
      (hexDigit?_eq_some_iff _ _).mpr hlow]

theorem readHexPair?_eq_some_iff (a b : Char) (n : ℤ) :
    readHexPair? a b = some n ↔ SpellsByte a b n :=
  ⟨spellsByte_of_readHexPair?, SpellsByte.readHexPair?⟩

/-! ## Channels -/

/-- The channel is the number nearest to a byte as a part of 255. It is at most 1, and below zero
exactly if the byte is. -/
def IsChannel (channel : Option Number) (byte : ℤ) : Prop :=
  ∃ x v, channel = some (.real x) ∧ x.value? = some v ∧ Binary64.IsNearest v (byte / 255) ∧
    v ≤ 1 ∧ (0 ≤ v ↔ 0 ≤ byte)

theorem isChannel_channel {byte : ℤ} (h : -15 ≤ byte ∧ byte ≤ 255) :
    IsChannel (some (channel byte)) byte := by
  obtain ⟨v, hv⟩ := Binary64.exists_value?_ofRatio (decide (byte < 0))
    (show 0 < 255 by decide) (show byte.natAbs ≤ 255 by omega)
  have hsigned : Binary64.signed (decide (byte < 0)) ((byte.natAbs : ℚ) / 255) = byte / 255 := by
    have habs : (byte.natAbs : ℚ) = |(byte : ℚ)| := by rw [Nat.cast_natAbs, Int.cast_abs]
    rcases lt_or_ge byte 0 with hneg | hnonneg
    · have hneg' : (byte : ℚ) < 0 := by exact_mod_cast hneg
      rw [habs, abs_of_neg hneg', decide_eq_true hneg, Binary64.signed, if_pos rfl, neg_div,
        neg_neg]
    · have hnonneg' : (0 : ℚ) ≤ byte := by exact_mod_cast hnonneg
      rw [habs, abs_of_nonneg hnonneg', decide_eq_false (not_lt.mpr hnonneg), Binary64.signed,
        if_neg Bool.false_ne_true]
  have hnearest : Binary64.IsNearest v (byte / 255) := by
    have hratio := Binary64.isNearest_ofRatio (by decide) hv
    rwa [Nat.cast_ofNat, hsigned] at hratio
  have hbyte : (byte : ℚ) ≤ 255 := by exact_mod_cast h.2
  refine ⟨_, v, rfl, hv, hnearest, hnearest.ge Binary64.onGrid_one ?_, ?_, ?_⟩
  · linarith
  · -- A negative byte stays apart from zero, since there are numbers in between.
    intro hv
    by_contra hneg
    have hbyte : (byte : ℚ) ≤ -1 := by exact_mod_cast show byte ≤ -1 by omega
    have hle := hnearest.ge (Binary64.onGrid_pow (e := -9) (by decide)).neg (by norm_num; linarith)
    norm_num at hle
    linarith
  · intro hnonneg
    have hbyte : (0 : ℚ) ≤ byte := by exact_mod_cast hnonneg
    exact hnearest.le Binary64.onGrid_zero (by positivity)

/-! ## Colours -/

/-- The characters of a colour: all behind the number signs at the front. -/
def digitsOf (s : String) : List Char := s.toList.dropWhile (· == '#')

/-- The text is three pairs of characters behind its number signs. -/
def SpellsBytes (s : String) (red green blue : ℤ) : Prop :=
  ∃ a b c d e f, digitsOf s = [a, b, c, d, e, f] ∧ SpellsByte a b red ∧ SpellsByte c d green ∧
    SpellsByte e f blue

theorem bytes?_eq_some_iff (s : String) (red green blue : ℤ) :
    bytes? s.toList = some (red, green, blue) ↔ SpellsBytes s red green blue := by
  simp only [SpellsBytes, digitsOf, ← readHexPair?_eq_some_iff]
  unfold bytes?
  constructor
  · intro h
    split at h
    · rename_i a b c d e f hdigits
      simp only [Option.bind_eq_bind, Option.bind_eq_some_iff, Option.pure_def,
        Option.some.injEq, Prod.mk.injEq] at h
      obtain ⟨_, hred, _, hgreen, _, hblue, rfl, rfl, rfl⟩ := h
      exact ⟨a, b, c, d, e, f, hdigits, hred, hgreen, hblue⟩
    · cases h
  · rintro ⟨a, b, c, d, e, f, hdigits, hred, hgreen, hblue⟩
    simp [hdigits, hred, hgreen, hblue]

theorem ofHex_eq_ok_iff (s : String) (color : Color) : ofHex s = .ok color ↔
    ∃ red green blue, SpellsBytes s red green blue ∧ color = ofBytes red green blue := by
  simp only [← bytes?_eq_some_iff]
  rw [ofHex]
  split
  · rename_i red green blue hbytes
    simp [hbytes, eq_comm]
  · rename_i hnone
    simp [hnone]

/-- A character that means the same whether leniently or strictly taken: neither a sign nor blank
nor a digit of another script than ASCII. -/
def IsStrict (c : Char) : Prop :=
  c ≠ '+' ∧ c ≠ '-' ∧ isPadding c = false ∧ (c.toNat < 0x80 ∨ DecimalDigits.digit? c = none)

theorem SpellsByte.of_isStrict {a b : Char} {n : ℤ} (h : SpellsByte a b n) (ha : IsStrict a)
    (hb : IsStrict b) :
    ∃ high low, hexValue? a = some high ∧ hexValue? b = some low ∧ n = 16 * high + low := by
  have hvalue {c : Char} {n : ℕ} (hc : IsStrict c) (h : IsHexDigit c n) : hexValue? c = some n := by
    rcases h with hvalue | hdigit
    · exact hvalue
    · rcases hc.2.2.2 with hascii | hnone
      · exact hexValue?_of_digit? hascii hdigit
      · rw [hnone] at hdigit
        cases hdigit
  cases h with
  | digits hhigh hlow => exact ⟨_, _, hvalue ha hhigh, hvalue hb hlow, rfl⟩
  | plus => exact absurd rfl ha.1
  | minus => exact absurd rfl ha.2.1
  | blankBefore hblank => simp [ha.2.2.1] at hblank
  | blankBehind _ hblank => simp [hb.2.2.1] at hblank

/-- How a hexadecimal colour is read. -/
structure ReadsHex (s : String) : Prop where
  /-- Accepted are exactly three pairs of characters, and each gives its channel. -/
  accepted : ∀ color, ofHex s = .ok color ↔
    ∃ red green blue, SpellsBytes s red green blue ∧ color = ofBytes red green blue
  channels : ∀ red green blue, SpellsBytes s red green blue →
    IsChannel (ofBytes red green blue).red red ∧ IsChannel (ofBytes red green blue).green green ∧
      IsChannel (ofBytes red green blue).blue blue
  /-- Every other text is refused as a malformed one. -/
  refused : ∀ cause, ofHex s = .error cause ↔
    cause = .malformed s ∧ ∀ red green blue, ¬SpellsBytes s red green blue
  kind : ∀ cause, ofHex s = .error cause → (Failure.color cause).kind = .value
  /-- Where no character is lenient, accepted are exactly six digits of the alphabet. -/
  strict : (∀ c ∈ digitsOf s, IsStrict c) → ∀ color, ofHex s = .ok color ↔
    ∃ r₁ r₂ g₁ g₂ b₁ b₂ : ℕ,
      (digitsOf s).map hexValue? = [some r₁, some r₂, some g₁, some g₂, some b₁, some b₂] ∧
        color = ofBytes (16 * r₁ + r₂) (16 * g₁ + g₂) (16 * b₁ + b₂)

theorem ofHex_eq_error_iff (s : String) (cause : ColorError) : ofHex s = .error cause ↔
    cause = .malformed s ∧ ∀ red green blue, ¬SpellsBytes s red green blue := by
  simp only [← bytes?_eq_some_iff]
  rw [ofHex]
  split
  · rename_i red green blue hbytes
    simp [hbytes]
  · rename_i hnone
    simp [hnone, eq_comm]

theorem ofHex_reads (s : String) : ReadsHex s := by
  constructor
  case accepted => exact ofHex_eq_ok_iff s
  case channels =>
    rintro red green blue ⟨_, _, _, _, _, _, -, hred, hgreen, hblue⟩
    exact ⟨isChannel_channel hred.bounds, isChannel_channel hgreen.bounds,
      isChannel_channel hblue.bounds⟩
  case refused => exact ofHex_eq_error_iff s
  case kind =>
    intro cause hcause
    rw [((ofHex_eq_error_iff s cause).mp hcause).1]
    rfl
  case strict =>
    intro hstrict color
    rw [ofHex_eq_ok_iff]
    constructor
    · rintro ⟨red, green, blue, ⟨a, b, c, d, e, f, hdigits, hred, hgreen, hblue⟩, rfl⟩
      rw [hdigits] at hstrict ⊢
      obtain ⟨r₁, r₂, hr₁, hr₂, rfl⟩ := hred.of_isStrict (hstrict a (by simp)) (hstrict b (by simp))
      obtain ⟨g₁, g₂, hg₁, hg₂, rfl⟩ :=
        hgreen.of_isStrict (hstrict c (by simp)) (hstrict d (by simp))
      obtain ⟨b₁, b₂, hb₁, hb₂, rfl⟩ :=
        hblue.of_isStrict (hstrict e (by simp)) (hstrict f (by simp))
      exact ⟨r₁, r₂, g₁, g₂, b₁, b₂, by simp [hr₁, hr₂, hg₁, hg₂, hb₁, hb₂], rfl⟩
    · rintro ⟨r₁, r₂, g₁, g₂, b₁, b₂, hvalues, rfl⟩
      simp only [List.map_eq_cons_iff, List.map_eq_nil_iff] at hvalues
      obtain ⟨a, _, hdigits, ha, b, _, rfl, hb, c, _, rfl, hc, d, _, rfl, hd, e, _, rfl, he, f, _,
        rfl, hf, rfl⟩ := hvalues
      exact ⟨_, _, _, ⟨a, b, c, d, e, f, hdigits, .digits (.inl ha) (.inl hb),
        .digits (.inl hc) (.inl hd), .digits (.inl he) (.inl hf)⟩, rfl⟩

/-- A sign, a blank character or a digit of another script passes for a part of a colour. -/
theorem not_forall_ofHex_digits :
    ¬∀ s color, ofHex s = .ok color →
      (digitsOf s).length = 6 ∧ ∀ c ∈ digitsOf s, (hexValue? c).isSome = true := by
  intro hall
  have hread : ofHex "#-1+2 3" = .ok (ofBytes (-1) 2 3) := by decide +kernel
  have hminus := (hall _ _ hread).2 '-' (by decide)
  exact absurd hminus (by decide)

end Color
end MarkdownEdits
