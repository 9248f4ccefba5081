import MarkdownEdits.Proofs.OpenStates
import MarkdownEdits.Proofs.RecastDrafts

/-!
# Headings that are closed

A heading is recorded where one closes. It has the level that is opened last in front of the close,
and it has the style of that level unless it is the title, which is of the first level.
-/
namespace MarkdownEdits

theorem NamedStyle.heading_ne_title (level : HeadingLevel) : heading level ≠ title := by
  cases level <;> decide

/-- A heading of a level has the style of the level, or else is of the first level and the title. -/
def Heading.HasLevel (heading : Heading) (level : HeadingLevel) : Prop :=
  heading.style = some (.heading level) ∨ heading.style = some .title ∧ level = .h1

theorem Heading.HasLevel.of_title {heading : Heading} {level : HeadingLevel}
    (h : heading.HasLevel level) (htitle : heading.style = some .title) : level = .h1 := by
  rcases h with hlevel | ⟨_, hfirst⟩
  · exact absurd (Option.some.inj (hlevel.symm.trans htitle)) (NamedStyle.heading_ne_title level)
  · exact hfirst

/-- The heading that is recorded when one of a level closes. -/
theorem Titles.hasLevel_close (t : Titles) (level : HeadingLevel) (span : Span) : Heading.HasLevel
    ⟨span, some (if t.wanted && !t.used && level == .h1 then .title else .heading level)⟩
    level := by
  split
  · rename_i htitle
    simp only [Bool.and_eq_true, beq_iff_eq] at htitle
    exact .inr ⟨rfl, htitle.2⟩
  · exact .inl rfl

/-! ## Closes in a stream -/

/-- The level that a token opens a heading with. -/
def Token.openedLevel? : Token → Option HeadingLevel
  | openHeading tag => HeadingLevel.ofTag? tag
  | _ => none

/-- The level of the heading that is opened last. -/
def Token.lastLevel? (tokens : List Token) : Option HeadingLevel :=
  (tokens.filterMap openedLevel?).getLast?

namespace Draft

variable {first d next : Draft} {tokens before after : List Token}

/-- A heading closes among the tokens: it has the level that is opened last, and it ends at the
cursor. -/
def ClosesHeading (first : Draft) (tokens : List Token) (level : HeadingLevel) (span : Span) :
    Prop :=
  ∃ before after d, tokens = before ++ .closeHeading :: after ∧ first.steps before = .ok d ∧
    Token.lastLevel? before = some level ∧ d.paragraphStart = some span.start ∧
      d.cursor = span.stop

theorem ClosesHeading.append {level : HeadingLevel} {span : Span}
    (h : first.ClosesHeading before level span) (after : List Token) :
    first.ClosesHeading (before ++ after) level span := by
  obtain ⟨init, rest, d, rfl, hd, hclose⟩ := h
  exact ⟨init, rest ++ after, d, by simp, hd, hclose⟩

/-- Only the tokens of headings change the level of the open heading. -/
theorem OpenState.headingLevel_after {s : OpenState} {cursor : Int} {items : Nat} {t : Token}
    (hopen : ∀ tag, t ≠ .openHeading tag) (hclose : t ≠ .closeHeading) :
    (s.after cursor items t).headingLevel = s.headingLevel := by
  cases t with
  | openHeading tag => exact absurd rfl (hopen tag)
  | closeHeading => exact absurd rfl hclose
  | openLink target =>
    cases target with
    | none => rfl
    | some target => exact (apply_ite OpenState.headingLevel _ _ _).trans (ite_self _)
  | openParagraph => exact (apply_ite OpenState.headingLevel _ _ _).trans (ite_self _)
  | closeList kind =>
    simp only [OpenState.after, OpenState.closeList]
    split <;> rfl
  | closeItem =>
    simp only [OpenState.after, OpenState.closeItem]
    split <;> rfl
  | _ => rfl

/-- An open heading has the level that a token opens, or else the level that it had. -/
theorem headingLevel_step {t : Token} {level : HeadingLevel} (ht : t.IsAtom)
    (hs : d.step t = .ok next) (hlevel : next.headingLevel = some level) :
    t.openedLevel? = some level ∨ t.openedLevel? = none ∧ d.headingLevel = some level := by
  have hstate : some level = (d.openState.after d.cursor d.records.items.size t).headingLevel :=
    hlevel.symm.trans (congrArg OpenState.headingLevel (openState_step ht hs))
  cases t with
  | openHeading tag =>
    simp only [OpenState.after, OpenState.openHeading] at hstate
    cases htag : HeadingLevel.ofTag? tag with
    | none =>
      rw [htag] at hstate
      exact .inr ⟨htag, hstate.symm⟩
    | some opened =>
      rw [htag] at hstate
      exact .inl (htag.trans hstate.symm)
  | closeHeading =>
    simp only [OpenState.after, OpenState.closeHeading] at hstate
    split at hstate
    · cases hstate
    · exact .inr ⟨rfl, hstate.symm⟩
  | _ => exact .inr ⟨rfl, (hstate.trans (OpenState.headingLevel_after (by simp) (by simp))).symm⟩

/-- The open heading has the level that is opened last. -/
theorem headingLevel_steps {level : HeadingLevel} (hfirst : first.headingLevel = none)
    (hatoms : ∀ t ∈ tokens, t.IsAtom) (hd : first.steps tokens = .ok d)
    (hlevel : d.headingLevel = some level) : Token.lastLevel? tokens = some level := by
  induction tokens using List.reverseRecOn generalizing d with
  | nil =>
    rw [steps_nil] at hd
    cases hd
    rw [hfirst] at hlevel
    cases hlevel
  | append_singleton init t ih =>
    obtain ⟨e, he, ht⟩ := steps_append_eq_ok.mp hd
    rw [steps_singleton] at ht
    rcases headingLevel_step (hatoms t (by simp)) ht hlevel with hopened | ⟨hnone, hold⟩
    · simp [Token.lastLevel?, hopened]
    · have hinit := ih (fun u hu => hatoms u (List.mem_append_left _ hu)) he hold
      simpa [Token.lastLevel?, hnone] using hinit

/-- A token that records a heading closes one. -/
theorem headings_step {t : Token} (ht : t.IsAtom) (hs : d.step t = .ok next) :
    next.records.headings = d.records.headings ∨
      t = .closeHeading ∧ ∃ level start, d.headingLevel = some level ∧
        d.paragraphStart = some start ∧
          next.titles = d.titles.close level ⟨start, d.cursor⟩ := by
  refine (stepsRecords ht hs).headings.imp_right ?_
  rintro ⟨rfl, start, style, hstart, hpush⟩
  cases hs
  cases hlevel : d.headingLevel with
  | none =>
    rw [closeHeading_of_none (.inl hlevel)] at hpush
    have hsize := congrArg Array.size hpush
    simp [warn] at hsize
  | some level => exact ⟨rfl, level, start, rfl, hstart, titles_closeHeading hlevel hstart⟩

/-- All recorded headings are closed among the tokens, and have the styles of their levels. -/
def RecordsClosed (first : Draft) (tokens : List Token) (d : Draft) : Prop :=
  ∀ heading ∈ d.records.headings.toList, ∃ level,
    first.ClosesHeading tokens level heading.span ∧ heading.HasLevel level

theorem recordsClosed_of_steps (hlevel : first.headingLevel = none)
    (hnone : first.records.headings = #[]) (hatoms : ∀ t ∈ tokens, t.IsAtom)
    (hd : first.steps tokens = .ok d) : first.RecordsClosed tokens d := by
  refine invariant_parts (P := first.RecordsClosed) ?_ (by simp [RecordsClosed, hnone])
    (List.append_nil _).symm hd
  intro init t after d next hsplit hd hold hs heading hheading
  have ht := hatoms t (by simp [hsplit])
  have hkept : heading ∈ d.records.headings.toList → ∃ level,
      first.ClosesHeading (init ++ [t]) level heading.span ∧ heading.HasLevel level := fun hmem =>
    (hold heading hmem).imp fun _ => And.imp_left (·.append [t])
  rcases headings_step ht hs with hsame | ⟨rfl, level, start, hopen, hstart, htitles⟩
  · exact hkept (hsame ▸ hheading)
  · have hheadings : next.records.headings.toList = _ := congrArg Titles.headings htitles
    rw [hheadings, Titles.close, List.mem_append, List.mem_singleton] at hheading
    rcases hheading with hmem | rfl
    · exact hkept hmem
    · have hinit : ∀ u ∈ init, u.IsAtom := fun u hu =>
        hatoms u (hsplit ▸ List.mem_append_left _ hu)
      exact ⟨level, ⟨init, [], d, rfl, hd, headingLevel_steps hlevel hinit hd hopen, hstart, rfl⟩,
        Titles.hasLevel_close _ level _⟩

end Draft

end MarkdownEdits
