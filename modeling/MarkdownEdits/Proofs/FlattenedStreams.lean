import MarkdownEdits.Proofs.RunFailures

/-!
# Flattened streams

Inline content is nothing but its children, and a skipped token is nothing at all: a stream without
both is converted just as the stream with them, and where it fails, it fails the same way. A failure
is caught at its own token and again at each token around it, and still it is reported once, with
the type of the innermost token.
-/
namespace MarkdownEdits

/-! ## Flattening -/

namespace Token

def isSkipped : Token → Bool
  | skipped .. => true
  | _ => false

/-- The stream with the children of inline content in its place, at whatever depth, and without the
tokens that are skipped. -/
def flattened (tokens : List Token) : List Token := (atomsOf tokens).filter (!·.isSkipped)

theorem isAtom_of_mem_flattened {tokens : List Token} : ∀ t ∈ flattened tokens, t.IsAtom :=
  fun t ht => isAtom_of_mem_atomsOf tokens t (List.mem_filter.mp ht).1

end Token

namespace Draft

theorem steps_filter_isSkipped (d : Draft) (tokens : List Token) :
    d.steps (tokens.filter (!·.isSkipped)) = d.steps tokens := by
  induction tokens generalizing d with
  | nil => rfl
  | cons t rest ih =>
    cases hskipped : t.isSkipped with
    | true =>
      obtain ⟨type, children, rfl⟩ : ∃ type children, t = .skipped type children := by
        cases t <;> first | exact ⟨_, _, rfl⟩ | cases hskipped
      have hstep : d.step (.skipped type children) = .ok d := rfl
      rw [List.filter_cons_of_neg (by simp [hskipped]), ih, steps, hstep]
    | false =>
      rw [List.filter_cons_of_pos (by simp [hskipped]), steps, steps]
      cases d.step t with
      | error e => rfl
      | ok next => exact ih next

theorem steps_flattened (d : Draft) (tokens : List Token) :
    d.steps (Token.flattened tokens) = d.steps tokens :=
  (d.steps_filter_isSkipped _).trans (d.steps_atomsOf tokens)

end Draft

/-! ## Reports of failures -/

/-- The type of a token. Code blocks of either kind go by one name. -/
def Token.typeName : Token → String
  | inline _ => "inline"
  | text _ => "text"
  | codeSpan _ => "code_inline"
  | openMark .strong => "strong_open"
  | openMark .emphasis => "em_open"
  | openMark .strikethrough => "s_open"
  | closeMark .strong => "strong_close"
  | closeMark .emphasis => "em_close"
  | closeMark .strikethrough => "s_close"
  | openLink _ => "link_open"
  | closeLink => "link_close"
  | softBreak => "softbreak"
  | hardBreak => "hardbreak"
  | openHeading _ => "heading_open"
  | closeHeading => "heading_close"
  | openParagraph => "paragraph_open"
  | closeParagraph => "paragraph_close"
  | openList .bullet => "bullet_list_open"
  | openList .ordered => "ordered_list_open"
  | closeList .bullet => "bullet_list_close"
  | closeList .ordered => "ordered_list_close"
  | openItem => "list_item_open"
  | closeItem => "list_item_close"
  | codeBlock .. => "fence"
  | rule => "hr"
  | skipped type _ => type
  | malformed type _ => type

/-- What a token throws: a report, or a failure in other words. -/
inductive Thrown where
  | report (message type : String)
  | other (text : String)
  deriving DecidableEq, Repr

/-- What a token of some type throws on. A report stays what it is, and any other failure is
reported with the token's type. -/
def Thrown.caughtAt (type : String) : Thrown → Thrown
  | report message origin => report message origin
  | other text => report ("Failed to convert markdown: " ++ text) type

def ConversionError.report (e : ConversionError) : Thrown := .report e.message e.tokenType

namespace Draft

mutual

/-- Takes one token, with nothing caught but what its children throw. A malformed token fails in
words of its own. -/
def attempt (d : Draft) : Token → Except Thrown Draft
  | .inline children => d.attemptAll children
  | .malformed _ words => .error (.other words)
  | token => (d.step token).mapError ConversionError.report

/-- Takes tokens in turn and catches what each of them throws. -/
def attemptAll (d : Draft) : List Token → Except Thrown Draft
  | [] => .ok d
  | token :: rest =>
    match d.attempt token with
    | .ok next => next.attemptAll rest
    | .error thrown => .error (thrown.caughtAt token.typeName)

end

/-- What is reported once passes all tokens around it. -/
private theorem mapError_caughtAt (type : String) (result : Except ConversionError Draft) :
    (result.mapError ConversionError.report).mapError (Thrown.caughtAt type) =
      result.mapError ConversionError.report := by
  cases result <;> rfl

mutual

theorem attempt_caughtAt (d : Draft) (t : Token) :
    (d.attempt t).mapError (Thrown.caughtAt t.typeName) =
      (d.step t).mapError ConversionError.report := by
  cases t with
  | inline children =>
    rw [attempt, d.attemptAll_eq children, mapError_caughtAt, step]
  | malformed type words => rfl
  | _ => simp only [attempt, mapError_caughtAt]

/-- A run that catches failures at every depth throws the report of its one failure. -/
theorem attemptAll_eq (d : Draft) (tokens : List Token) :
    d.attemptAll tokens = (d.steps tokens).mapError ConversionError.report := by
  cases tokens with
  | nil =>
    rw [attemptAll, steps]
    rfl
  | cons t rest =>
    have ht := d.attempt_caughtAt t
    rw [attemptAll, steps]
    cases hstep : d.step t with
    | error e =>
      cases hattempt : d.attempt t with
      | error thrown =>
        rw [hstep, hattempt] at ht
        exact ht
      | ok next =>
        rw [hstep, hattempt] at ht
        cases ht
    | ok next =>
      cases hattempt : d.attempt t with
      | error thrown =>
        rw [hstep, hattempt] at ht
        cases ht
      | ok same =>
        rw [hstep, hattempt] at ht
        cases ht
        exact next.attemptAll_eq rest

end

end Draft

/-- A stream is converted like the flattened one. If it fails, one token of the flattened stream is
refused, and however deep it stands, the failure is reported once, with that token's own type. -/
theorem convertTokens_flattened (config : Config) (tokens : List Token) (o : Options) :
    convertTokens config (Token.flattened tokens) o = convertTokens config tokens o ∧
    ∀ d : Draft,
      d.attemptAll tokens = (d.steps tokens).mapError ConversionError.report ∧
      d.attemptAll (Token.flattened tokens) = d.attemptAll tokens ∧
      ∀ e, d.steps tokens = .error e → ∃ before t after reached,
        Token.flattened tokens = before ++ t :: after ∧ d.steps before = .ok reached ∧
          reached.Refuses t e ∧ e.tokenType = t.typeName := by
  refine ⟨?_, fun d => ⟨d.attemptAll_eq tokens, ?_, fun e hfails => ?_⟩⟩
  · simp only [convertTokens, Draft.steps_flattened]
  · rw [d.attemptAll_eq, d.attemptAll_eq, d.steps_flattened]
  · rw [← d.steps_flattened] at hfails
    obtain ⟨before, t, after, reached, hsplit, hreached, hrefused⟩ :=
      Draft.exists_refuses_of_steps Token.isAtom_of_mem_flattened hfails
    refine ⟨before, t, after, reached, hsplit, hreached, hrefused, ?_⟩
    cases hrefused <;> rfl

/-- A malformed token two tokens deep, behind one that is skipped with what it holds and in front of
an item outside of all lists. -/
def oddTokens : List Token :=
  [.skipped "blockquote_open" [.malformed "fence" "no text"], .openParagraph,
    .inline [.text "a", .inline [.skipped "image" [.text "b"], .malformed "code_inline" "no units"],
      .openItem], .closeParagraph]

theorem convertTokens_flattened_oddTokens :
    Token.flattened oddTokens =
      [.openParagraph, .text "a", .malformed "code_inline" "no units", .openItem, .closeParagraph] ∧
    convertTokens .standard (Token.flattened oddTokens) {} =
      .error (.conversion (.malformedToken "code_inline" "no units")) ∧
    (Draft.start 1 none false).attemptAll oddTokens =
      .error (.report "Failed to convert markdown: no units" "code_inline") ∧
    ∃ before t after, Token.flattened oddTokens = before ++ t :: after ∧
      t.typeName = "code_inline" := by
  have hrun : (Draft.start 1 none false).steps oddTokens =
      .error (.malformedToken "code_inline" "no units") := rfl
  obtain ⟨hsame, hruns⟩ := convertTokens_flattened .standard oddTokens {}
  obtain ⟨hattempt, -, hrefused⟩ := hruns (Draft.start 1 none false)
  obtain ⟨before, t, after, reached, hsplit, -, -, htype⟩ := hrefused _ hrun
  refine ⟨by simp [Token.flattened, oddTokens, Token.atomsOf, Token.atoms, Token.isSkipped],
    hsame.trans ?_, hattempt.trans (by rw [hrun]; rfl), before, t, after, hsplit, htype.symm⟩
  exact (convertTokens_eq_error rfl rfl).mpr ⟨_, hrun, rfl⟩

end MarkdownEdits
