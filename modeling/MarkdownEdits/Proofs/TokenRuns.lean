import Mathlib.Data.List.Induction
import MarkdownEdits.Conversion

/-!
# Runs over tokens

Inline content is walked depth first, so a run over a stream is the run over its atoms, the tokens
that are not inline content themselves. What each atom preserves, every run preserves.
-/
namespace MarkdownEdits
namespace Token

mutual

/-- The atoms of a token, in the order in which a run takes them. -/
def atoms : Token → List Token
  | .inline children => atomsOf children
  | token => [token]

def atomsOf : List Token → List Token
  | [] => []
  | token :: rest => token.atoms ++ atomsOf rest

end

def IsAtom : Token → Prop
  | .inline _ => False
  | _ => True

@[simp] theorem atomsOf_nil : atomsOf [] = [] := by simp [atomsOf]

mutual

theorem isAtom_of_mem_atoms (token : Token) : ∀ t ∈ token.atoms, t.IsAtom := by
  cases token with
  | inline children => simpa only [atoms] using isAtom_of_mem_atomsOf children
  | _ => simp [atoms, IsAtom]

theorem isAtom_of_mem_atomsOf (tokens : List Token) : ∀ t ∈ atomsOf tokens, t.IsAtom := by
  cases tokens with
  | nil => simp
  | cons token rest =>
    intro t ht
    rcases List.mem_append.mp (by simpa only [atomsOf] using ht) with ht | ht
    · exact isAtom_of_mem_atoms token t ht
    · exact isAtom_of_mem_atomsOf rest t ht

end

theorem isAtom_of_split {tokens before after : List Token}
    (h : atomsOf tokens = before ++ after) : ∀ t ∈ before, t.IsAtom := fun t ht =>
  isAtom_of_mem_atomsOf tokens t (h ▸ List.mem_append_left after ht)

end Token

namespace Draft

theorem steps_singleton (d : Draft) (t : Token) : d.steps [t] = d.step t := by
  simp only [steps]
  cases d.step t <;> rfl

theorem steps_cons_eq_ok {d final : Draft} {t : Token} {ts : List Token} :
    d.steps (t :: ts) = .ok final ↔ ∃ next, d.step t = .ok next ∧ next.steps ts = .ok final := by
  simp only [steps]
  cases d.step t <;> simp

theorem steps_append_eq_ok {d final : Draft} {ts us : List Token} :
    d.steps (ts ++ us) = .ok final ↔ ∃ next, d.steps ts = .ok next ∧ next.steps us = .ok final := by
  rw [steps_append]
  cases d.steps ts <;> simp [Except.bind]

mutual

theorem steps_atoms (d : Draft) (token : Token) : d.steps token.atoms = d.step token := by
  cases token with
  | inline children => simpa only [Token.atoms, step] using steps_atomsOf d children
  | _ => exact steps_singleton d _

/-- A run over a stream is the run over its atoms. -/
theorem steps_atomsOf (d : Draft) (tokens : List Token) :
    d.steps (Token.atomsOf tokens) = d.steps tokens := by
  cases tokens with
  | nil => simp
  | cons token rest =>
    rw [Token.atomsOf, steps_append, steps_atoms d token, steps]
    cases d.step token with
    | error e => rfl
    | ok next => exact steps_atomsOf next rest

end

/-- What every atom preserves holds after every run. -/
theorem invariant_steps {P : Draft → Prop}
    (atom : ∀ {d t next}, Token.IsAtom t → P d → d.step t = .ok next → P next)
    {d final : Draft} {tokens : List Token} (hd : P d) (h : d.steps tokens = .ok final) :
    P final := by
  rw [← steps_atomsOf] at h
  have hatoms := Token.isAtom_of_mem_atomsOf tokens
  generalize Token.atomsOf tokens = ts at h hatoms
  induction ts generalizing d with
  | nil =>
    rw [steps_nil] at h
    cases h
    exact hd
  | cons t ts ih =>
    obtain ⟨next, ht, hts⟩ := steps_cons_eq_ok.mp h
    exact ih (atom (hatoms t List.mem_cons_self) hd ht) hts
      (fun u hu => hatoms u (List.mem_cons_of_mem _ hu))

/-- An invariant may use whatever is known of the drafts that runs reach. -/
theorem invariant_reached {P : Draft → Prop} {first : Draft}
    (atom : ∀ {tokens d t next}, first.steps tokens = .ok d → Token.IsAtom t → P d →
      d.step t = .ok next → P next)
    {tokens : List Token} {d : Draft} (hfirst : P first) (h : first.steps tokens = .ok d) :
    P d := by
  refine (invariant_steps (P := fun d => (∃ tokens, first.steps tokens = .ok d) ∧ P d) ?_
    ⟨⟨[], steps_nil first⟩, hfirst⟩ h).2
  rintro d t next ht ⟨⟨tokens, hd⟩, hP⟩ hs
  exact ⟨⟨tokens ++ [t], steps_append_eq_ok.mpr ⟨d, hd, (steps_singleton d t).trans hs⟩⟩,
    atom hd ht hP hs⟩

/-- What every token of a stream preserves holds behind every part of a run over the stream. -/
theorem invariant_parts {P : List Token → Draft → Prop} {first : Draft} {tokens : List Token}
    (token : ∀ {init t after d next}, tokens = init ++ t :: after → first.steps init = .ok d →
      P init d → d.step t = .ok next → P (init ++ [t]) next)
    (hfirst : P [] first) {before after : List Token} {d : Draft}
    (hsplit : tokens = before ++ after) (hd : first.steps before = .ok d) : P before d := by
  induction before using List.reverseRecOn generalizing d after with
  | nil =>
    rw [steps_nil] at hd
    cases hd
    exact hfirst
  | append_singleton init t ih =>
    obtain ⟨e, he, ht⟩ := steps_append_eq_ok.mp hd
    rw [steps_singleton] at ht
    rw [List.append_assoc, List.singleton_append] at hsplit
    exact token hsplit he (ih hsplit he) ht

end Draft

theorem exists_eq_ok_of_isOk {ε α : Type} {e : Except ε α} (h : e.isOk = true) :
    ∃ a, e = .ok a := by
  cases e with
  | error e => cases h
  | ok a => exact ⟨a, rfl⟩

private theorem mapError_ok {ε δ α : Type} (f : ε → δ) (a : α) :
    (Except.ok a : Except ε α).mapError f = .ok a := rfl

private theorem mapError_error {ε δ α : Type} (f : ε → δ) (e : ε) :
    (Except.error e : Except ε α).mapError f = .error (f e) := rfl

/-- A conversion that succeeds is the one of the draft that a run reaches. -/
theorem convertTokens_eq_ok {config : Config} {tokens : List Token} {o : Options}
    {c : Conversion} :
    convertTokens config tokens o = .ok c ↔ ∃ start tab d,
      o.startIndex = .ok start ∧ o.tabIdentifier = .ok tab ∧
        (Draft.start start tab (o.wantsTitle config)).steps tokens = .ok d ∧
          c = .ofDraft config d := by
  constructor
  · intro h
    simp only [convertTokens, bind, Except.bind, pure, Except.pure] at h
    cases hstart : o.startIndex with
    | error e => simp [hstart] at h
    | ok start =>
      cases htab : o.tabIdentifier with
      | error e => simp [hstart, htab] at h
      | ok tab =>
        cases hrun : (Draft.start start tab (o.wantsTitle config)).steps tokens with
        | error e => simp [hstart, htab, hrun, mapError_error] at h
        | ok d =>
          simp only [hstart, htab, hrun, mapError_ok, Except.ok.injEq] at h
          exact ⟨start, tab, d, rfl, rfl, hrun, h.symm⟩
  · rintro ⟨start, tab, d, hstart, htab, hrun, rfl⟩
    simp only [convertTokens, hstart, htab, bind, Except.bind, hrun, mapError_ok]
    rfl

end MarkdownEdits
