import MarkdownEdits.NumeralReading

/-!
# Spellings of numerals

The spellings of real numerals as a grammar: blank characters around a sign and a word, or around a
sign, digits with or without a point, and an exponent. None of the parts has a blank character in
it, so a text leaves no choice of where its numeral begins and ends.
-/
namespace MarkdownEdits

/-- What a real numeral stands for. -/
inductive Numeral where
  | nan
  | infinite (negative : Bool)
  | decimal (negative : Bool) (coefficient : Nat) (exponent : Int)
  deriving DecidableEq, Repr

namespace Numeral
open NumeralReading

def rounded : Numeral → Binary64
  | nan => .nan
  | infinite negative => .infinite negative
  | decimal negative coefficient exponent => .ofDecimal negative coefficient exponent

/-! ## The grammar -/

inductive SpellsSign : List Char → Bool → Prop
  | none : SpellsSign [] false
  | plus : SpellsSign ['+'] false
  | minus : SpellsSign ['-'] true

/-- The letters of a word, each in either case. -/
def SpellsWord (word : String) (cs : List Char) : Prop := cs.map Char.toLower = word.toList

instance (word : String) (cs : List Char) : Decidable (SpellsWord word cs) :=
  inferInstanceAs (Decidable (cs.map Char.toLower = word.toList))

/-- One digit or more, with a single low line between two of them or none. -/
inductive SpellsDigits : List Char → List Nat → Prop
  | single {c : Char} {d : Nat} (hdigit : DecimalDigits.digit? c = some d) : SpellsDigits [c] [d]
  | next {c : Char} {d : Nat} {cs : List Char} {ds : List Nat}
      (hdigit : DecimalDigits.digit? c = some d) (hrest : SpellsDigits cs ds) :
      SpellsDigits (c :: cs) (d :: ds)
  | apart {c : Char} {d : Nat} {cs : List Char} {ds : List Nat}
      (hdigit : DecimalDigits.digit? c = some d) (hrest : SpellsDigits cs ds) :
      SpellsDigits (c :: '_' :: cs) (d :: ds)

/-- Digits with a point at most, and how many of them stand behind it. -/
inductive SpellsMantissa : List Char → List Nat → Nat → Prop
  | whole {cs : List Char} {ds : List Nat} (h : SpellsDigits cs ds) : SpellsMantissa cs ds 0
  | pointBehind {cs : List Char} {ds : List Nat} (h : SpellsDigits cs ds) :
      SpellsMantissa (cs ++ ['.']) ds 0
  | pointBefore {cs : List Char} {ds : List Nat} (h : SpellsDigits cs ds) :
      SpellsMantissa ('.' :: cs) ds ds.length
  | pointAmid {cs fs : List Char} {ds es : List Nat} (h : SpellsDigits cs ds)
      (hfraction : SpellsDigits fs es) :
      SpellsMantissa (cs ++ '.' :: fs) (ds ++ es) es.length

inductive SpellsExponent : List Char → Int → Prop
  | none : SpellsExponent [] 0
  | given {mark : Char} {sign cs : List Char} {negative : Bool} {ds : List Nat}
      (hmark : mark = 'e' ∨ mark = 'E') (hsign : SpellsSign sign negative)
      (hdigits : SpellsDigits cs ds) :
      SpellsExponent (mark :: (sign ++ cs))
        (if negative then -(ofDigits ds : Int) else ofDigits ds)

inductive Spells : List Char → Numeral → Prop
  | nan {sign word : List Char} {negative : Bool} (hsign : SpellsSign sign negative)
      (hword : SpellsWord "nan" word) : Spells (sign ++ word) nan
  | infinite {sign word : List Char} {negative : Bool} (hsign : SpellsSign sign negative)
      (hword : SpellsWord "inf" word ∨ SpellsWord "infinity" word) :
      Spells (sign ++ word) (infinite negative)
  | decimal {sign mantissa exponent : List Char} {negative : Bool} {ds : List Nat} {places : Nat}
      {e : Int} (hsign : SpellsSign sign negative)
      (hmantissa : SpellsMantissa mantissa ds places) (hexponent : SpellsExponent exponent e) :
      Spells (sign ++ (mantissa ++ exponent)) (decimal negative (ofDigits ds) (e - places))

/-- The text spells the numeral, with blank characters around it. -/
def IsSpelledBy (n : Numeral) (text : String) : Prop :=
  ∃ front body behind, text.toList = front ++ (body ++ behind) ∧ (∀ c ∈ front, isPadding c) ∧
    (∀ c ∈ behind, isPadding c) ∧ Spells body n

/-! ## Characters -/

/-- Where the digits of all scripts lie: among neither blank characters nor capital letters. -/
theorem toNat_of_digit? {c : Char} {d : Nat} (h : DecimalDigits.digit? c = some d) :
    (0x20 < c.toNat ∧ c.toNat < 0x41) ∨ (0x5A < c.toNat ∧ c.toNat < 0x85) ∨
      (0xA0 < c.toNat ∧ c.toNat < 0x1680) ∨ (0x1680 < c.toNat ∧ c.toNat < 0x2000) ∨
      (0x205F < c.toNat ∧ c.toNat < 0x3000) ∨ 0x3000 < c.toNat := by
  unfold DecimalDigits.digit? at h
  obtain ⟨z, hz, rfl⟩ := Option.map_eq_some_iff.mp h
  have hrange := List.find?_some hz
  have hzeros : ∀ z ∈ DecimalDigits.zeros,
      (0x20 < z ∧ z + 9 < 0x41) ∨ (0x5A < z ∧ z + 9 < 0x85) ∨ (0xA0 < z ∧ z + 9 < 0x1680) ∨
        (0x1680 < z ∧ z + 9 < 0x2000) ∨ (0x205F < z ∧ z + 9 < 0x3000) ∨ 0x3000 < z := by
    decide
  have hz := hzeros z (List.mem_of_find?_eq_some hz)
  simp only [decide_eq_true_eq] at hrange
  omega

theorem isPadding_of_digit? {c : Char} {d : Nat} (h : DecimalDigits.digit? c = some d) :
    isPadding c = false := by
  have hrange := toNat_of_digit? h
  rw [Bool.eq_false_iff]
  simp only [isPadding, Whitespace.isBlank, Ne, Bool.and_eq_true, Bool.or_eq_true,
    decide_eq_true_eq, beq_iff_eq]
  omega

theorem toLower_eq_self {c : Char} (h : c.toNat < 0x41 ∨ 0x5A < c.toNat) : c.toLower = c := by
  have hupper : ¬(c.val ≥ 'A'.val ∧ c.val ≤ 'Z'.val) := by
    simp only [UInt32.le_iff_toNat_le, ge_iff_le]
    have : c.toNat = c.val.toNat := rfl
    have hA : 'A'.val.toNat = 0x41 := rfl
    have hZ : 'Z'.val.toNat = 0x5A := rfl
    omega
  exact dif_neg hupper

theorem toLower_of_digit? {c : Char} {d : Nat} (h : DecimalDigits.digit? c = some d) :
    c.toLower = c := by
  have hrange := toNat_of_digit? h
  exact toLower_eq_self (by omega)

theorem toLower_of_isBlank {c : Char} (h : Whitespace.isBlank c = true) : c.toLower = c := by
  simp only [Whitespace.isBlank, Bool.and_eq_true, Bool.or_eq_true, decide_eq_true_eq,
    beq_iff_eq] at h
  exact toLower_eq_self (by omega)

/-- A character that is not a digit of any script differs from all digits. -/
theorem ne_of_digit? {c other : Char} {d : Nat} (h : DecimalDigits.digit? c = some d)
    (hother : DecimalDigits.digit? other = none) : c ≠ other := by
  rintro rfl
  simp [h] at hother

/-! ## No blank characters -/

theorem SpellsSign.not_padding {sign : List Char} {negative : Bool}
    (h : SpellsSign sign negative) : ∀ c ∈ sign, isPadding c = false := by
  cases h with
  | none => simp
  | plus | minus =>
    intro c hc
    rw [List.mem_singleton.mp hc]
    decide

/-- The words of numerals. -/
def words : List String := ["inf", "infinity", "nan"]

theorem SpellsWord.not_blank {word : String} {cs : List Char} (h : SpellsWord word cs)
    (hword : word ∈ words) : ∀ c ∈ cs, Whitespace.isBlank c = false := by
  have hletter : ∀ word ∈ words, word.toList.all (!Whitespace.isBlank ·) = true := by decide
  intro c hc
  rw [Bool.eq_false_iff]
  intro hblank
  have hlower : c.toLower ∈ word.toList := by
    rw [← h]
    exact List.mem_map_of_mem hc
  rw [toLower_of_isBlank hblank] at hlower
  simpa [hblank] using List.all_eq_true.mp (hletter word hword) c hlower

theorem SpellsWord.not_padding {word : String} {cs : List Char} (h : SpellsWord word cs)
    (hword : word ∈ words) : ∀ c ∈ cs, isPadding c = false := by
  intro c hc
  rw [isPadding, h.not_blank hword c hc, Bool.false_and]

theorem SpellsDigits.not_padding {run : List Char} {ds : List Nat} (h : SpellsDigits run ds) :
    ∀ c ∈ run, isPadding c = false := by
  induction h with
  | single hdigit => simpa using isPadding_of_digit? hdigit
  | next hdigit _ ih => exact List.forall_mem_cons.mpr ⟨isPadding_of_digit? hdigit, ih⟩
  | apart hdigit _ ih =>
    have hline : isPadding '_' = false := by decide
    exact List.forall_mem_cons.mpr
      ⟨isPadding_of_digit? hdigit, List.forall_mem_cons.mpr ⟨hline, ih⟩⟩

theorem SpellsMantissa.not_padding {mantissa : List Char} {ds : List Nat} {places : Nat}
    (h : SpellsMantissa mantissa ds places) : ∀ c ∈ mantissa, isPadding c = false := by
  have hpoint : isPadding '.' = false := by decide
  cases h with
  | whole h => exact h.not_padding
  | pointBehind h =>
    exact List.forall_mem_append.mpr ⟨h.not_padding, by simpa using hpoint⟩
  | pointBefore h => exact List.forall_mem_cons.mpr ⟨hpoint, h.not_padding⟩
  | pointAmid h hfraction =>
    exact List.forall_mem_append.mpr
      ⟨h.not_padding, List.forall_mem_cons.mpr ⟨hpoint, hfraction.not_padding⟩⟩

theorem SpellsExponent.not_padding {cs : List Char} {e : Int} (h : SpellsExponent cs e) :
    ∀ c ∈ cs, isPadding c = false := by
  cases h with
  | none => simp
  | given hmark hsign hdigits =>
    have hletter : ∀ c, c = 'e' ∨ c = 'E' → isPadding c = false := by
      rintro c (rfl | rfl) <;> decide
    exact List.forall_mem_cons.mpr
      ⟨hletter _ hmark, List.forall_mem_append.mpr ⟨hsign.not_padding, hdigits.not_padding⟩⟩

theorem Spells.not_padding {cs : List Char} {n : Numeral} (h : Spells cs n) :
    ∀ c ∈ cs, isPadding c = false := by
  cases h with
  | nan hsign hword =>
    exact List.forall_mem_append.mpr ⟨hsign.not_padding, hword.not_padding (by decide)⟩
  | infinite hsign hword =>
    have hletters := hword.elim (·.not_padding (by decide)) (·.not_padding (by decide))
    exact List.forall_mem_append.mpr ⟨hsign.not_padding, hletters⟩
  | decimal hsign hmantissa hexponent =>
    exact List.forall_mem_append.mpr ⟨hsign.not_padding,
      List.forall_mem_append.mpr ⟨hmantissa.not_padding, hexponent.not_padding⟩⟩

/-- A text that spells no number is not blank. -/
theorem isEmpty_of_nan {text : String} (h : nan.IsSpelledBy text) :
    Whitespace.isEmpty text = false := by
  obtain ⟨front, body, behind, hsplit, -, -, hbody⟩ := h
  cases hbody with
  | @nan sign word _ _ hword =>
    have hne : word ≠ [] := by
      rintro rfl
      cases hword
    obtain ⟨c, hc⟩ := List.exists_mem_of_ne_nil word hne
    rw [Whitespace.isEmpty, List.all_eq_false]
    refine ⟨c, ?_, by rw [hword.not_blank (by decide) c hc]; decide⟩
    simp [hsplit, hc]

end Numeral
end MarkdownEdits
