import MarkdownEdits.Proofs.ConfigurationLifecycle
import MarkdownEdits.Proofs.NearestNumbers
import MarkdownEdits.Proofs.ReadNumerals

/-!
# Checked spacings

An environment is refused if the spacing that it gives spells no numeral, or a numeral that is not
above zero once it is rounded. What stands for no number at all compares with nothing, so it passes
the check, and then the spacing is not above zero.
-/
namespace MarkdownEdits

theorem Binary64.ofDecimal_ne_nan (negative : Bool) (coefficient : ℕ) (exponent : ℤ) :
    ofDecimal negative coefficient exponent ≠ nan := by
  have hratio (num den : ℕ) : ofRatio negative num den ≠ nan := by
    simp only [ofRatio, ofGrid]
    split_ifs <;> simp
  simp only [ofDecimal]
  split_ifs
  · simp
  · simp
  · exact hratio _ _
  · exact hratio _ _

namespace Numeral

/-- The numeral is above zero, and far enough for a number above zero to be nearest to it. -/
def IsPositive : Numeral → Prop
  | nan => False
  | infinite negative => negative = false
  | decimal negative coefficient exponent =>
    negative = false ∧ 2 ^ (Binary64.leastExponent - 1) < (coefficient : ℚ) * 10 ^ exponent

theorem isPositive_rounded (n : Numeral) : n.rounded.isPositive = true ↔ n.IsPositive := by
  cases n with
  | nan => simp [rounded, Binary64.isPositive, IsPositive]
  | infinite negative => simp [rounded, Binary64.isPositive, IsPositive]
  | decimal negative coefficient exponent => exact Binary64.isPositive_ofDecimal ..

theorem rounded_eq_nan_iff (n : Numeral) : n.rounded = .nan ↔ n = nan := by
  cases n with
  | nan => simp [rounded]
  | infinite negative => simp [rounded]
  | decimal negative coefficient exponent =>
    simp [rounded, Binary64.ofDecimal_ne_nan negative coefficient exponent]

theorem isAtMostZero_rounded (n : Numeral) :
    n.rounded.isAtMostZero = true ↔ n ≠ nan ∧ ¬n.IsPositive := by
  by_cases hnan : n = nan
  · simp [hnan, rounded]
  · have hrounded : n.rounded ≠ .nan := mt (rounded_eq_nan_iff n).mp hnan
    rw [← isPositive_rounded, Binary64.isPositive_eq_not_isAtMostZero hrounded]
    simp [hnan]

/-- No numeral is spelled where nothing is read. -/
theorem readReal?_eq_none_iff (text : String) :
    NumeralReading.readReal? text = none ↔ ∀ n : Numeral, ¬n.IsSpelledBy text := by
  rw [Option.eq_none_iff_forall_ne_some]
  constructor
  · intro h n hn
    exact h n.rounded ((readReal?_eq_some_iff text _).mpr ⟨n, hn, rfl⟩)
  · intro h x hx
    obtain ⟨n, hn, -⟩ := (readReal?_eq_some_iff text x).mp hx
    exact h n hn

end Numeral

namespace Config

theorem spacing_of_unspelled {text : String} (h : Whitespace.isEmpty text = false)
    (hunspelled : ∀ n : Numeral, ¬n.IsSpelledBy text) :
    spacing (some text) = .error (.spacingNotNumber text) := by
  rw [spacing, if_neg (Bool.eq_false_iff.mp h),
    (Numeral.readReal?_eq_none_iff text).mpr hunspelled]

theorem spacing_of_spelled {text : String} (h : Whitespace.isEmpty text = false) {n : Numeral}
    (hn : n.IsSpelledBy text) : spacing (some text) =
      if n.rounded.isAtMostZero then .error .spacingNotPositive else .ok n.rounded := by
  rw [spacing, if_neg (Bool.eq_false_iff.mp h),
    (Numeral.readReal?_eq_some_iff text _).mpr ⟨n, hn, rfl⟩]

/-- A setting that is absent or blank has the default, any other one spells a numeral or not. -/
theorem spacing_cases (setting : Option String) :
    spacing setting = .ok defaultSpacing ∨
      ∃ text, setting = some text ∧ Whitespace.isEmpty text = false ∧
        ((∀ n : Numeral, ¬n.IsSpelledBy text) ∨ ∃ n : Numeral, n.IsSpelledBy text) := by
  cases setting with
  | none => exact .inl rfl
  | some text =>
    cases hblank : Whitespace.isEmpty text with
    | true =>
      left
      rw [spacing, hblank, if_pos rfl]
    | false =>
      right
      by_cases h : ∃ n : Numeral, n.IsSpelledBy text
      · exact ⟨text, rfl, hblank, .inr h⟩
      · exact ⟨text, rfl, hblank, .inl (not_exists.mp h)⟩

theorem spacing_eq_error_iff (setting : Option String) (cause : ConfigError) :
    spacing setting = .error cause ↔ ∃ text, setting = some text ∧
      Whitespace.isEmpty text = false ∧
        ((∀ n : Numeral, ¬n.IsSpelledBy text) ∧ cause = .spacingNotNumber text ∨
          (∃ n : Numeral, n.IsSpelledBy text ∧ n ≠ .nan ∧ ¬n.IsPositive) ∧
            cause = .spacingNotPositive) := by
  constructor
  · intro h
    rcases spacing_cases setting with hdefault | ⟨text, rfl, hblank, hnone | ⟨n, hn⟩⟩
    · rw [hdefault] at h
      cases h
    · rw [spacing_of_unspelled hblank hnone] at h
      cases h
      exact ⟨text, rfl, hblank, .inl ⟨hnone, rfl⟩⟩
    · rw [spacing_of_spelled hblank hn] at h
      split at h
      · rename_i hzero
        cases h
        exact ⟨text, rfl, hblank, .inr ⟨⟨n, hn, (Numeral.isAtMostZero_rounded n).mp hzero⟩, rfl⟩⟩
      · cases h
  · rintro ⟨text, rfl, hblank, ⟨hnone, rfl⟩ | ⟨⟨n, hn, hvalue⟩, rfl⟩⟩
    · exact spacing_of_unspelled hblank hnone
    · rw [spacing_of_spelled hblank hn, if_pos ((Numeral.isAtMostZero_rounded n).mpr hvalue)]

-- The numeral is above zero, but no number above zero is nearest to it.
example : spacing (some " +2e-3_24\n") = .error .spacingNotPositive := by decide +kernel

theorem spacing_of_nan {text : String} (h : Numeral.nan.IsSpelledBy text) :
    spacing (some text) = .ok .nan := by
  rw [spacing_of_spelled (Numeral.isEmpty_of_nan h) h]
  rfl

/-- A spacing that is not refused is above zero, or its text spells no number. -/
theorem isPositive_of_spacing {setting : Option String} {x : Binary64}
    (h : spacing setting = .ok x) :
    x.isPositive = true ∨ ∃ text, setting = some text ∧ Numeral.nan.IsSpelledBy text := by
  rcases spacing_cases setting with hdefault | ⟨text, rfl, hblank, hnone | ⟨n, hn⟩⟩
  · rw [hdefault] at h
    cases h
    exact .inl (by decide +kernel)
  · rw [spacing_of_unspelled hblank hnone] at h
    cases h
  · rw [spacing_of_spelled hblank hn] at h
    split at h
    · cases h
    · rename_i hzero
      cases h
      rw [Numeral.isAtMostZero_rounded, not_and_or, not_not, not_not] at hzero
      rcases hzero with rfl | hpositive
      · exact .inr ⟨text, rfl, hn⟩
      · exact .inl ((Numeral.isPositive_rounded n).mpr hpositive)

end Config

/-! ## Configurations -/

theorem configuration_eq (env : Environment) :
    configuration env = match Config.spacing (env .paragraphSpacing) with
      | .ok space => .ok {
          headingAsTitle := Config.flag false (env .headingAsTitle)
          codeFont := Config.fontName "Roboto Mono" (env .codeFont)
          paragraphSpacing := space
          linkify := Config.flag true (env .linkify)
          frontMatter := Config.flag false (env .frontMatter) }
      | .error cause => .error (.setting cause) := by
  rw [configuration, Config.ofEnvironment]
  cases Config.spacing (env .paragraphSpacing) <;> rfl

theorem configuration_eq_error_iff (env : Environment) (failure : Failure) :
    configuration env = .error failure ↔
      ∃ cause, Config.spacing (env .paragraphSpacing) = .error cause ∧
        failure = .setting cause := by
  rw [configuration_eq]
  cases Config.spacing (env .paragraphSpacing) <;> simp [eq_comm]

theorem spacing_of_configuration {env : Environment} {config : Config}
    (h : configuration env = .ok config) :
    Config.spacing (env .paragraphSpacing) = .ok config.paragraphSpacing := by
  rw [configuration_eq] at h
  cases hspacing : Config.spacing (env .paragraphSpacing) with
  | error cause => simp [hspacing] at h
  | ok x =>
    rw [hspacing] at h
    cases h
    rfl

theorem exists_configuration {env : Environment} {x : Binary64}
    (h : Config.spacing (env .paragraphSpacing) = .ok x) :
    ∃ config, configuration env = .ok config ∧ config.paragraphSpacing = x := by
  rw [configuration_eq, h]
  exact ⟨_, rfl, rfl⟩

/-- How the paragraph spacing of an environment is checked. -/
structure ChecksSpacing (env : Environment) : Prop where
  /-- Refused is exactly what is given and spells no numeral, or one that is not above zero. -/
  refused : ∀ failure, configuration env = .error failure ↔
    ∃ text, env .paragraphSpacing = some text ∧ Whitespace.isEmpty text = false ∧
      ((∀ n : Numeral, ¬n.IsSpelledBy text) ∧ failure = .setting (.spacingNotNumber text) ∨
        (∃ n : Numeral, n.IsSpelledBy text ∧ n ≠ .nan ∧ ¬n.IsPositive) ∧
          failure = .setting .spacingNotPositive)
  kind : ∀ failure, configuration env = .error failure → failure.kind = .value
  /-- The spacing of a configuration is above zero exactly where its text spells a number. -/
  positive : ∀ config, configuration env = .ok config →
    (config.paragraphSpacing.isPositive = true ↔
      ∀ text, env .paragraphSpacing = some text → ¬Numeral.nan.IsSpelledBy text)
  /-- What spells no number is never refused. -/
  unordered : ∀ text, env .paragraphSpacing = some text → Numeral.nan.IsSpelledBy text →
    ∃ config, configuration env = .ok config ∧ config.paragraphSpacing = .nan

theorem configuration_checksSpacing (env : Environment) : ChecksSpacing env := by
  constructor
  case refused =>
    intro failure
    rw [configuration_eq_error_iff]
    constructor
    · rintro ⟨cause, hcause, rfl⟩
      obtain ⟨text, hsetting, hblank, hrefused⟩ := (Config.spacing_eq_error_iff _ _).mp hcause
      refine ⟨text, hsetting, hblank, hrefused.imp ?_ ?_⟩
      · rintro ⟨hnone, rfl⟩
        exact ⟨hnone, rfl⟩
      · rintro ⟨hvalue, rfl⟩
        exact ⟨hvalue, rfl⟩
    · rintro ⟨text, hsetting, hblank, ⟨hnone, rfl⟩ | ⟨hvalue, rfl⟩⟩
      · exact ⟨_, (Config.spacing_eq_error_iff _ _).mpr
          ⟨text, hsetting, hblank, .inl ⟨hnone, rfl⟩⟩, rfl⟩
      · exact ⟨_, (Config.spacing_eq_error_iff _ _).mpr
          ⟨text, hsetting, hblank, .inr ⟨hvalue, rfl⟩⟩, rfl⟩
  case kind => exact fun failure => Session.kind_of_configuration
  case positive =>
    intro config hconfig
    have hspacing := spacing_of_configuration hconfig
    constructor
    · intro hpositive text hsetting hnan
      rw [hsetting, Config.spacing_of_nan hnan] at hspacing
      rw [← Except.ok.inj hspacing] at hpositive
      cases hpositive
    · intro hnumber
      rcases Config.isPositive_of_spacing hspacing with hpositive | ⟨text, hsetting, hnan⟩
      · exact hpositive
      · exact absurd hnan (hnumber text hsetting)
  case unordered =>
    intro text hsetting hnan
    exact exists_configuration (by rw [hsetting, Config.spacing_of_nan hnan])

/-- An environment that gives one text for the spacing. -/
def Environment.withSpacing (text : String) : Environment :=
  empty.set .paragraphSpacing (some text)

/-- A spacing that is no number is taken, so a configuration can have one that is not above
zero. -/
theorem not_forall_spacing_positive :
    ¬∀ env config, configuration env = .ok config →
      config.paragraphSpacing.isPositive = true := by
  intro hall
  have hnan : configuration (.withSpacing "nan") =
      .ok { Config.standard with paragraphSpacing := .nan } := by decide +kernel
  have hpositive := hall _ _ hnan
  cases hpositive

end MarkdownEdits
