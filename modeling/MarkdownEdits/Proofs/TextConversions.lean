import MarkdownEdits.ConfigurationSession
import MarkdownEdits.Proofs.RelocatedConversions

/-!
# Conversions of texts

A text is converted by way of its tokens. Its conversion checks the arguments before it looks at the
text and hands on what the checks have made of them, to be checked once more. The second check
passes and changes nothing, so a text that is not blank is converted as its tokens are.
-/
namespace MarkdownEdits
namespace Whitespace

theorem trim_trim (cs : List Char) : trim (trim cs) = trim cs := by
  have htrim : trim cs = (cs.dropWhile isBlank).rdropWhile isBlank := rfl
  -- What is left begins as it did when only the front was stripped, so with no blank character.
  have hfront : (trim cs).dropWhile isBlank = trim cs := by
    obtain ⟨tail, htail⟩ := List.rdropWhile_prefix isBlank (cs.dropWhile isBlank)
    rw [← htrim] at htail
    have hhead := List.head?_dropWhile_not isBlank cs
    cases hcs : trim cs with
    | nil => rfl
    | cons c rest =>
      rw [hcs] at htail
      rw [← htail] at hhead
      exact List.dropWhile_cons_of_neg (by simpa using hhead)
  have hagain : trim (trim cs) = ((trim cs).dropWhile isBlank).rdropWhile isBlank := rfl
  rw [hagain, hfront, htrim, List.rdropWhile_idempotent]

theorem strip_strip (s : String) : strip (strip s) = strip s := by
  rw [strip, strip_toList, trim_trim, strip]

theorem isEmpty_strip (s : String) : isEmpty (strip s) = isEmpty s := by
  have hblank (s : String) : isEmpty s = true ↔ trim s.toList = [] := by
    rw [isEmpty, List.all_eq_true, trim_eq_nil_iff]
  rw [Bool.eq_iff_iff, hblank, hblank, strip_toList, trim_trim]

end Whitespace

/-! ## Checks made twice -/

namespace ArgumentChecks

theorem positiveInteger_again {name : String} {value : Json} {n : Int}
    (h : positiveInteger name value none = .ok n) :
    positiveInteger name (.integer n) none = .ok n := by
  cases value with
  | number number =>
    cases number with
    | integer m =>
      simp only [positiveInteger] at h
      split at h
      · cases h
      · rename_i hpositive
        cases h
        simp [positiveInteger, Json.integer, hpositive]
    | real x => cases h
  | _ => cases h

theorem stripped_again {name text : String} {tab : Option String} (h : stripped name text = .ok tab) :
    tabIdentifier name ((tab.map .text).getD .null) = .ok tab := by
  rw [stripped] at h
  split at h
  · cases h
  · rename_i hblank
    cases h
    have hagain : Whitespace.isEmpty (Whitespace.strip text) = false := by
      rw [Whitespace.isEmpty_strip]
      exact Bool.eq_false_iff.mpr hblank
    simp [tabIdentifier, stripped, hagain, Whitespace.strip_strip]

theorem tabIdentifier_again {name : String} {value : Json} {tab : Option String}
    (h : tabIdentifier name value = .ok tab) :
    tabIdentifier name ((tab.map .text).getD .null) = .ok tab := by
  cases value with
  | null =>
    cases h
    rfl
  | text s => exact stripped_again h
  | brokenText t => exact stripped_again h
  | _ => cases h

end ArgumentChecks

namespace Options

/-- The arguments with what the checks have made of the start and of the tab. -/
def checked (o : Options) (start : Int) (tab : Option String) : Options :=
  { o with start := .integer start, tab := (tab.map .text).getD .null }

/-- The start is checked before the tab. -/
theorem place_eq_mapError (o : Options) : o.place =
    ((ArgumentChecks.positiveInteger "start_index" o.start none).bind fun start =>
      (ArgumentChecks.tabIdentifier "tab_id" o.tab).map (start, ·)).mapError .argument := by
  simp only [place, startIndex, tabIdentifier, bind, Except.bind, pure, Except.pure]
  cases ArgumentChecks.positiveInteger "start_index" o.start none with
  | error cause => rfl
  | ok start => cases ArgumentChecks.tabIdentifier "tab_id" o.tab <;> rfl

theorem place_eq_ok {o : Options} {start : Int} {tab : Option String} :
    o.place = .ok (start, tab) ↔
      ArgumentChecks.positiveInteger "start_index" o.start none = .ok start ∧
        ArgumentChecks.tabIdentifier "tab_id" o.tab = .ok tab := by
  rw [place_eq_mapError]
  cases ArgumentChecks.positiveInteger "start_index" o.start none with
  | error cause => simp [Except.bind, Except.mapError]
  | ok n =>
    cases ArgumentChecks.tabIdentifier "tab_id" o.tab <;>
      simp [Except.bind, Except.map, Except.mapError]

theorem place_checked {o : Options} {start : Int} {tab : Option String}
    (h : o.place = .ok (start, tab)) : (o.checked start tab).place = .ok (start, tab) := by
  obtain ⟨hstart, htab⟩ := place_eq_ok.mp h
  exact place_eq_ok.mpr
    ⟨ArgumentChecks.positiveInteger_again hstart, ArgumentChecks.tabIdentifier_again htab⟩

theorem exists_argument_of_place {o : Options} {failure : Failure}
    (h : o.place = .error failure) : ∃ cause, failure = .argument cause := by
  rw [place_eq_mapError] at h
  generalize Except.bind _ _ = checks at h
  cases checks with
  | error cause => exact ⟨cause, (Except.error.inj h).symm⟩
  | ok place => cases h

end Options

/-! ## Conversions -/

theorem convert_eq_bind (tokenize : Tokenizer) (config : Config) (markdown : String)
    (o : Options) : convert tokenize config (.text markdown) o = o.place.bind fun (start, tab) =>
      if Whitespace.isEmpty markdown then .ok .empty
      else convertTokens config (tokenize config markdown) (o.checked start tab) := by
  simp only [convert, Options.place, bind, Except.bind]
  cases o.startIndex with
  | error failure => rfl
  | ok start => cases o.tabIdentifier <;> rfl

/-- The arguments that a conversion refuses do not depend on its tokens. -/
theorem convertTokens_eq_argument {config : Config} {tokens : List Token} {o : Options}
    {cause : ArgumentError} : convertTokens config tokens o = .error (.argument cause) ↔
      o.place = .error (.argument cause) := by
  rw [convertTokens_eq_bind]
  cases o.place with
  | error failure => simp [Except.bind]
  | ok place =>
    simp only [Except.bind, Draft.conversion]
    cases (Draft.start place.1 place.2 (o.wantsTitle config)).steps tokens <;>
      simp [Except.map, Except.mapError]

theorem convert_of_not_blank (tokenize : Tokenizer) (config : Config) {markdown : String}
    (h : Whitespace.isEmpty markdown = false) (o : Options) :
    convert tokenize config (.text markdown) o =
      convertTokens config (tokenize config markdown) o := by
  rw [convert_eq_bind, h]
  cases hplace : o.place with
  | error failure => rw [convertTokens_eq_bind, hplace]; rfl
  | ok place =>
    have htitle : (o.checked place.1 place.2).wantsTitle config = o.wantsTitle config := rfl
    rw [convertTokens_eq_bind _ _ o, hplace]
    simp only [Except.bind, Bool.false_eq_true, if_false]
    rw [convertTokens_eq_bind, Options.place_checked hplace, htitle]
    rfl

theorem convert_of_blank (tokenize : Tokenizer) (config : Config) {markdown : String}
    (h : Whitespace.isEmpty markdown = true) (o : Options) :
    convert tokenize config (.text markdown) o = o.place.map fun _ => .empty := by
  rw [convert_eq_bind, h]
  cases o.place <;> rfl

theorem Session.current_of_obtain {s after : Session} {held : Instance}
    (h : s.obtain = .ok (held, after)) : after.current = some held := by
  rw [obtain] at h
  split at h
  · rename_i hcurrent
    cases h
    exact hcurrent
  · rw [install] at h
    split at h
    · cases h
      rfl
    · cases h

/-- A text that is not blank is converted as its tokens are, whatever the arguments, and one that is
blank is refused for the same arguments as any tokens and has no requests otherwise. The conversion
under the current configuration of a session is that under this configuration. -/
theorem convert_agrees (tokenize : Tokenizer) (markdown : String) (o : Options) :
    (Whitespace.isEmpty markdown = false → ∀ config,
      convert tokenize config (.text markdown) o =
        convertTokens config (tokenize config markdown) o) ∧
    (Whitespace.isEmpty markdown = true → ∀ config tokens,
      (∀ cause, convert tokenize config (.text markdown) o = .error (.argument cause) ↔
        convertTokens config tokens o = .error (.argument cause)) ∧
      ((∃ cause, convert tokenize config (.text markdown) o = .error (.argument cause)) ∨
        (convert tokenize config (.text markdown) o).map Conversion.requests = .ok [])) ∧
    ∀ (s after : Session) held, s.obtain = .ok (held, after) →
      after.current = some held ∧
        s.convertMarkdown tokenize (.text markdown) o =
          (convert tokenize held.config (.text markdown) o, after) := by
  refine ⟨fun h config => convert_of_not_blank tokenize config h o, fun h config tokens => ?_,
    fun s after held hobtain => ⟨Session.current_of_obtain hobtain, ?_⟩⟩
  · rw [convert_of_blank tokenize config h]
    constructor
    · intro cause
      rw [convertTokens_eq_argument]
      cases o.place <;> simp [Except.map]
    · cases hplace : o.place with
      | error failure =>
        obtain ⟨cause, rfl⟩ := Options.exists_argument_of_place hplace
        exact .inl ⟨cause, rfl⟩
      | ok place => exact .inr rfl
  · rw [Session.convertMarkdown, hobtain]

/-- The tokens of a text that is one letter on a line. -/
def tokenizeLetter : Tokenizer := fun _ _ =>
  [.openParagraph, .inline [.text "a"], .closeParagraph]

/-- Arguments with a tab among blank characters of several kinds. -/
def spacedTab : Options := ⟨.integer 3, .text "\u2003\u3000t 1\u00a0\x1f", .null⟩

/-- Arguments with a tab that is refused. -/
def blankTab : Options := ⟨.integer 3, .text "\u2003", .null⟩

theorem convert_agrees_tokenizeLetter :
    Whitespace.isEmpty "a\n" = false ∧
      (convert tokenizeLetter .standard (.text "a\n") spacedTab).toOption.map
        (·.requests.map Request.tab) = some [some "t 1", some "t 1", some "t 1"] ∧
      convert tokenizeLetter .standard (.text "a\n") spacedTab =
        convertTokens .standard (tokenizeLetter .standard "a\n") spacedTab ∧
      Whitespace.isEmpty "\u205f\x1c\n" = true ∧
      convertTokens .standard (tokenizeLetter .standard "a\n") blankTab =
        .error (.argument (.blankText "tab_id")) ∧
      convert tokenizeLetter .standard (.text "\u205f\x1c\n") blankTab =
        .error (.argument (.blankText "tab_id")) ∧
      ∃ after held, (Session.start .empty).obtain = .ok (held, after) ∧ held.config = .standard ∧
        (Session.start .empty).convertMarkdown tokenizeLetter (.text "a\n") spacedTab =
          (convert tokenizeLetter .standard (.text "a\n") spacedTab, after) := by
  have hletter : Whitespace.isEmpty "a\n" = false := by decide
  have hblank : Whitespace.isEmpty "\u205f\x1c\n" = true := by decide
  have hrefused : convertTokens .standard (tokenizeLetter .standard "a\n") blankTab =
      .error (.argument (.blankText "tab_id")) := rfl
  have htabs : (convert tokenizeLetter .standard (.text "a\n") spacedTab).toOption.map
      (·.requests.map Request.tab) = some [some "t 1", some "t 1", some "t 1"] := by
    decide +kernel
  obtain ⟨hagree, -, hsession⟩ := convert_agrees tokenizeLetter "a\n" spacedTab
  obtain ⟨-, hrefuse, -⟩ := convert_agrees tokenizeLetter "\u205f\x1c\n" blankTab
  have hobtain : (Session.start .empty).obtain =
      .ok (⟨0, .standard⟩, ⟨.empty, some ⟨0, .standard⟩, 1, []⟩) := rfl
  exact ⟨hletter, htabs, hagree hletter .standard, hblank, hrefused,
    ((hrefuse hblank .standard _).1 _).mpr hrefused, _, _, hobtain, rfl,
    (hsession _ _ _ hobtain).2⟩

end MarkdownEdits
