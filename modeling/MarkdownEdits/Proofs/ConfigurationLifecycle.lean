import Mathlib.Data.List.Induction
import MarkdownEdits.ConfigurationSession

/-!
# The lifecycle of configurations

An action of a session does one of seven things (`Session.Step`), and only one of them makes a
configuration. From this follows what holds along every run: a failure changes nothing, what is
reloaded is new, what is asked for in between is one and the same, and a converter stays with what
it was built with.
-/
namespace MarkdownEdits

/-- The environment after some actions. -/
def Environment.after (env : Environment) (actions : List Action) : Environment :=
  actions.foldl (fun env action => match action with
    | .change edits => env.edit edits
    | _ => env) env

/-- The action answers with a configuration. -/
def Action.Configures : Action → Prop
  | get | reload | build _ => True
  | _ => False

def Outcome.ofConversion : Except Failure Conversion → Outcome
  | .ok conversion => .converted conversion
  | .error failure => .failed failure

namespace Session

/-! ## What one action does -/

/-- An action that answers with a configuration has to make it. -/
def Needs (s : Session) (action : Action) : Prop := action = .reload ∨ s.current = none

/-- The session with a new converter, if the action builds one. -/
def keep (s : Session) (held : Instance) : Action → Session
  | .build name => { s with converters := (name, held) :: s.converters }
  | _ => s

@[simp] theorem keep_environment (s : Session) (held : Instance) (action : Action) :
    (s.keep held action).environment = s.environment := by
  cases action <;> rfl

@[simp] theorem keep_current (s : Session) (held : Instance) (action : Action) :
    (s.keep held action).current = s.current := by
  cases action <;> rfl

@[simp] theorem keep_made (s : Session) (held : Instance) (action : Action) :
    (s.keep held action).made = s.made := by
  cases action <;> rfl

inductive Step (s : Session) : Action → Outcome → Session → Prop
  | changes (edits : List (Setting × Option String)) :
    Step s (.change edits) .changed { s with environment := s.environment.edit edits }
  | refuses {action : Action} {failure : Failure} (hconfigures : action.Configures)
      (hneeds : s.Needs action) (hfails : configuration s.environment = .error failure) :
    Step s action (.failed failure) s
  | makes {action : Action} {config : Config} (hconfigures : action.Configures)
      (hneeds : s.Needs action) (hmade : configuration s.environment = .ok config) :
    Step s action (.configured ⟨s.made, config⟩)
      (keep { s with current := some ⟨s.made, config⟩, made := s.made + 1 } ⟨s.made, config⟩
        action)
  | finds {action : Action} {held : Instance} (hconfigures : action.Configures)
      (hneeds : ¬s.Needs action) (hcurrent : s.current = some held) :
    Step s action (.configured held) (s.keep held action)
  | lacks {name : String} {tokens : List Token} {o : Options} (hnone : s.converter? name = none) :
    Step s (.convert name tokens o) (.unknown name) s
  | converts {name : String} {tokens : List Token} {o : Options} {held : Instance}
      {conversion : Conversion} (hsome : s.converter? name = some held)
      (hconverted : convertTokens held.config tokens o = .ok conversion) :
    Step s (.convert name tokens o) (.converted conversion) s
  | fails {name : String} {tokens : List Token} {o : Options} {held : Instance}
      {failure : Failure} (hsome : s.converter? name = some held)
      (hfailed : convertTokens held.config tokens o = .error failure) :
    Step s (.convert name tokens o) (.failed failure) s

/-- What a session answers to an action, given what it has obtained for it. -/
def answer (s : Session) (action : Action) :
    Except Failure (Instance × Session) → Outcome × Session
  | .ok (held, after) => (.configured held, after.keep held action)
  | .error failure => (.failed failure, s)

theorem act_eq_answer (s : Session) (action : Action) (h : action.Configures) : s.act action =
    s.answer action (match action with | .reload => s.install | _ => s.obtain) := by
  cases action with
  | get => cases hobtain : s.obtain <;> simp only [act, hobtain] <;> rfl
  | reload => cases hinstall : s.install <;> simp only [act, hinstall] <;> rfl
  | build name => cases hobtain : s.obtain <;> simp only [act, hobtain] <;> rfl
  | _ => exact h.elim

variable {s : Session} {action : Action}

theorem step_install (hconfigures : action.Configures) (hneeds : s.Needs action) :
    s.Step action (s.answer action s.install).1 (s.answer action s.install).2 := by
  cases hconfig : configuration s.environment with
  | ok config =>
    simp only [install, hconfig]
    exact .makes hconfigures hneeds hconfig
  | error failure =>
    simp only [install, hconfig]
    exact .refuses hconfigures hneeds hconfig

theorem step_obtain (hconfigures : action.Configures) (hasks : action ≠ .reload) :
    s.Step action (s.answer action s.obtain).1 (s.answer action s.obtain).2 := by
  cases hcurrent : s.current with
  | none =>
    have hobtain : s.obtain = s.install := by rw [obtain, hcurrent]
    rw [hobtain]
    exact step_install hconfigures (.inr hcurrent)
  | some held =>
    have hobtain : s.obtain = .ok (held, s) := by rw [obtain, hcurrent]
    have hneeds : ¬s.Needs action := fun h =>
      h.elim hasks fun hnone => Option.some_ne_none held (hcurrent.symm.trans hnone)
    rw [hobtain]
    exact .finds hconfigures hneeds hcurrent

theorem step_act (s : Session) (action : Action) :
    s.Step action (s.act action).1 (s.act action).2 := by
  cases action with
  | change edits => exact .changes edits
  | get =>
    rw [act_eq_answer s .get trivial]
    exact step_obtain trivial nofun
  | reload =>
    rw [act_eq_answer s .reload trivial]
    exact step_install trivial (.inl rfl)
  | build name =>
    rw [act_eq_answer s (.build name) trivial]
    exact step_obtain trivial nofun
  | convert name tokens o =>
    cases hheld : s.converter? name with
    | none =>
      simp only [act, hheld]
      exact .lacks hheld
    | some held =>
      simp only [act, hheld]
      cases hresult : convertTokens held.config tokens o with
      | ok conversion => exact .converts hheld hresult
      | error failure => exact .fails hheld hresult

namespace Step

variable {outcome : Outcome} {next : Session} {held : Instance} {failure : Failure} {name : String}

theorem environment (h : s.Step action outcome next) :
    next.environment = s.environment.after [action] := by
  have hconfigures {action : Action} (h : action.Configures) (env : Environment) :
      env.after [action] = env := by
    cases action with
    | change edits => exact h.elim
    | _ => rfl
  cases h with
  | changes edits => rfl
  | refuses h => exact (hconfigures h _).symm
  | makes h => rw [hconfigures h, keep_environment]
  | finds h => rw [hconfigures h, keep_environment]
  | lacks => rfl
  | converts => rfl
  | fails => rfl

/-- Asking for a configuration fails only where one cannot be made, and then nothing changes. -/
theorem of_failed (h : s.Step action (.failed failure) next) (hconfigures : action.Configures) :
    s.Needs action ∧ configuration s.environment = .error failure ∧ next = s := by
  cases h with
  | refuses _ hneeds hfails => exact ⟨hneeds, hfails, rfl⟩
  | fails => exact hconfigures.elim

theorem failed_of_needs (h : s.Step action outcome next) (hconfigures : action.Configures)
    (hneeds : s.Needs action) (hfails : configuration s.environment = .error failure) :
    outcome = .failed failure := by
  cases h with
  | changes => exact hconfigures.elim
  | refuses _ _ hother => rw [Except.error.inj (hother.symm.trans hfails)]
  | makes _ _ hmade => exact nomatch hmade.symm.trans hfails
  | finds _ hnot => exact absurd hneeds hnot
  | lacks => exact hconfigures.elim
  | converts => exact hconfigures.elim
  | fails => exact hconfigures.elim

/-- A configuration that is made is current, and has the next number. -/
theorem of_made (h : s.Step action (.configured held) next) (hneeds : s.Needs action) :
    configuration s.environment = .ok held.config ∧ next.current = some held ∧
      held.number = s.made := by
  cases h with
  | makes _ _ hmade => exact ⟨hmade, keep_current .., rfl⟩
  | finds _ hnot => exact absurd hneeds hnot

/-- The current configuration stays until another one is made. -/
theorem current (h : s.Step action outcome next) (hcurrent : s.current = some held)
    (hnone : s.Needs action → ∀ other, outcome ≠ .configured other) :
    next.current = some held := by
  cases h with
  | makes _ hneeds => exact absurd rfl (hnone hneeds _)
  | finds => rwa [keep_current]
  | _ => exact hcurrent

theorem configured_current (h : s.Step action outcome next) (hconfigures : action.Configures)
    (hasks : action ≠ .reload) (hcurrent : s.current = some held) :
    outcome = .configured held := by
  have hneeds : ¬s.Needs action := fun hneeds =>
    hneeds.elim hasks fun hnone => Option.some_ne_none held (hcurrent.symm.trans hnone)
  cases h with
  | changes => exact hconfigures.elim
  | refuses _ hneeded => exact absurd hneeded hneeds
  | makes _ hneeded => exact absurd hneeded hneeds
  | finds _ _ hother => rw [Option.some.inj (hother.symm.trans hcurrent)]
  | lacks => exact hconfigures.elim
  | converts => exact hconfigures.elim
  | fails => exact hconfigures.elim

theorem converter?_built (h : s.Step (.build name) (.configured held) next) :
    next.converter? name = some held := by
  cases h <;> exact List.lookup_cons_self

/-- A converter holds what it was built with until one of its name is built. -/
theorem converter? (h : s.Step action outcome next)
    (hnone : action = .build name → ∀ other, outcome ≠ .configured other) :
    next.converter? name = s.converter? name := by
  have hkeep {t : Session} (held : Instance) (hother : action ≠ .build name)
      (hconverters : t.converters = s.converters) :
      (t.keep held action).converter? name = s.converter? name := by
    cases action with
    | build other =>
      have hne : (name == other) = false := beq_false_of_ne fun h => hother (h ▸ rfl)
      simp [Session.converter?, keep, List.lookup_cons, hne, hconverters]
    | _ => exact congrArg (List.lookup name) hconverters
  cases h with
  | makes => exact hkeep _ (fun h => hnone h _ rfl) rfl
  | finds => exact hkeep _ (fun h => hnone h _ rfl) rfl
  | _ => rfl

/-- The numbers of configurations are below the number of the next one to be made. -/
theorem number_lt (h : s.Step action outcome next)
    (hcurrent : ∀ held, s.current = some held → held.number < s.made) :
    s.made ≤ next.made ∧ (∀ held, next.current = some held → held.number < next.made) ∧
      ∀ held, outcome = .configured held → held.number < next.made := by
  cases h with
  | makes =>
    simp only [keep_current, keep_made]
    refine ⟨Nat.le_succ _, ?_, ?_⟩
    · rintro held ⟨⟩
      exact Nat.lt_succ_self _
    · rintro held ⟨⟩
      exact Nat.lt_succ_self _
  | finds _ _ hfound =>
    simp only [keep_current, keep_made]
    refine ⟨Nat.le_refl _, hcurrent, ?_⟩
    rintro held ⟨⟩
    exact hcurrent _ hfound
  | _ => exact ⟨Nat.le_refl _, hcurrent, nofun⟩

end Step

/-! ## Runs -/

def outcome (s : Session) (action : Action) : Outcome := (s.act action).1

def after (s : Session) (actions : List Action) : Session := (s.run actions).2

def outcomes (s : Session) (actions : List Action) : List Outcome := (s.run actions).1

theorem after_append (s : Session) (actions more : List Action) :
    s.after (actions ++ more) = (s.after actions).after more := by
  induction actions generalizing s with
  | nil => rfl
  | cons action rest ih => exact ih (s.act action).2

theorem after_concat (s : Session) (actions : List Action) (action : Action) :
    s.after (actions ++ [action]) = ((s.after actions).act action).2 := s.after_append actions _

theorem outcomes_concat (s : Session) (actions : List Action) (action : Action) :
    s.outcomes (actions ++ [action]) =
      s.outcomes actions ++ [(s.after actions).outcome action] := by
  induction actions generalizing s with
  | nil => rfl
  | cons first rest ih => exact congrArg _ (ih (s.act first).2)

/-- What every action of a run preserves holds behind the run. -/
theorem invariant_after {P : List Action → Session → Prop} {actions : List Action}
    (action : ∀ init action rest, actions = init ++ action :: rest →
      P init (s.after init) → P (init ++ [action]) ((s.after init).act action).2)
    (hstart : P [] s) : P actions (s.after actions) := by
  induction actions using List.reverseRecOn with
  | nil => exact hstart
  | append_singleton init last ih =>
    have hinit : P init (s.after init) := ih fun front next rest hsplit =>
      action front next (rest ++ [last]) (by simp [hsplit])
    rw [after_concat]
    exact action init last [] rfl hinit

theorem environment_after (s : Session) (actions : List Action) :
    (s.after actions).environment = s.environment.after actions := by
  refine invariant_after (P := fun actions next => next.environment = s.environment.after actions)
    (fun init action rest _ hinit => ?_) rfl
  rw [((s.after init).step_act action).environment, hinit]
  exact (List.foldl_append ..).symm

/-- All configurations that there have been have numbers below the next one. -/
theorem number_lt_after (env : Environment) (actions : List Action) :
    (∀ held, ((start env).after actions).current = some held →
      held.number < ((start env).after actions).made) ∧
    ∀ held, .configured held ∈ (start env).outcomes actions →
      held.number < ((start env).after actions).made := by
  refine invariant_after (s := start env) (P := fun actions next =>
    (∀ held, next.current = some held → held.number < next.made) ∧
      ∀ held, .configured held ∈ (start env).outcomes actions → held.number < next.made)
    (fun init action rest _ hinit => ?_) ⟨nofun, nofun⟩
  obtain ⟨hle, hcurrent, houtcome⟩ :=
    (((start env).after init).step_act action).number_lt hinit.1
  refine ⟨hcurrent, fun held hheld => ?_⟩
  rw [outcomes_concat, List.mem_append, List.mem_singleton] at hheld
  rcases hheld with hold | hnew
  · exact Nat.lt_of_lt_of_le (hinit.2 held hold) hle
  · exact houtcome held hnew.symm

/-- The action makes the configuration that it answers with. -/
def Makes (s : Session) (action : Action) (held : Instance) : Prop :=
  s.outcome action = .configured held ∧ s.Needs action

/-- None of the actions makes a configuration. -/
def MakesNone (s : Session) (actions : List Action) : Prop :=
  ∀ init action rest, actions = init ++ action :: rest →
    ∀ held, ¬(s.after init).Makes action held

/-- None of the actions builds a converter of the name. -/
def BuildsNone (s : Session) (name : String) (actions : List Action) : Prop :=
  ∀ init rest, actions = init ++ .build name :: rest →
    ∀ held, (s.after init).outcome (.build name) ≠ .configured held

theorem current_after {actions : List Action} {held : Instance} (hcurrent : s.current = some held)
    (hnone : s.MakesNone actions) : (s.after actions).current = some held :=
  invariant_after (P := fun _ next => next.current = some held)
    (fun init action rest hsplit hinit => ((s.after init).step_act action).current hinit
      fun hneeds other hmade => hnone init action rest hsplit other ⟨hmade, hneeds⟩) hcurrent

theorem converter?_after {actions : List Action} {name : String}
    (hnone : s.BuildsNone name actions) :
    (s.after actions).converter? name = s.converter? name :=
  invariant_after (P := fun _ next => next.converter? name = s.converter? name)
    (fun init action rest hsplit hinit => by
      refine (((s.after init).step_act action).converter? ?_).trans hinit
      rintro rfl
      exact hnone init rest hsplit) rfl

theorem outcome_convert {name : String} {held : Instance} (h : s.converter? name = some held)
    (tokens : List Token) (o : Options) : s.outcome (.convert name tokens o) =
      .ofConversion (convertTokens held.config tokens o) := by
  simp only [outcome, act, h]
  cases convertTokens held.config tokens o <;> rfl

/-! ## Sessions from their start -/

/-- The session behind some actions, from the start. -/
def reached (env : Environment) (actions : List Action) : Session := (start env).after actions

theorem reached_concat (env : Environment) (before : List Action) (action : Action) :
    reached env (before ++ [action]) = ((reached env before).act action).2 :=
  after_concat (start env) before action

theorem reached_append_cons (env : Environment) (before : List Action) (action : Action)
    (between : List Action) : reached env (before ++ action :: between) =
      (reached env (before ++ [action])).after between := by
  rw [reached, reached, ← after_append, List.append_assoc, List.singleton_append]

theorem step_of_outcome {outcome : Outcome} (h : s.outcome action = outcome) :
    s.Step action outcome (s.act action).2 := h ▸ s.step_act action

/-- How the configurations of a session come and go, whatever is done in it. -/
structure Lifecycle (env : Environment) : Prop where
  /-- A configuration is refused exactly where it has to be made from what is refused. -/
  refused : ∀ before action failure, action.Configures →
    ((reached env before).outcome action = .failed failure ↔
      (reached env before).Needs action ∧ configuration (env.after before) = .error failure)
  /-- Where a configuration is refused the session stays exactly as it was. -/
  unchanged : ∀ before action failure, action.Configures →
    (reached env before).outcome action = .failed failure →
      failure.kind = .value ∧ reached env (before ++ [action]) = reached env before
  /-- A reload that succeeds installs a configuration that there has not been before. -/
  reloaded : ∀ before held, (reached env before).outcome .reload = .configured held →
    (reached env (before ++ [.reload])).current = some held ∧
      (∀ old, (reached env before).current = some old → old.number ≠ held.number) ∧
      ∀ old, .configured old ∈ (start env).outcomes before → old.number ≠ held.number
  /-- A configuration has the values that the environment gives when it is made. -/
  made : ∀ before maker held, (reached env before).Makes maker held →
    configuration (env.after before) = .ok held.config
  /-- Until another one is made, what is asked for is the configuration that was made last. -/
  shared : ∀ before maker held between asking, (reached env before).Makes maker held →
    (reached env (before ++ [maker])).MakesNone between → asking.Configures →
      asking ≠ .reload →
        (reached env (before ++ maker :: between)).outcome asking = .configured held
  /-- A converter holds and uses what it was built with, whatever happens to the session. -/
  kept : ∀ before name held between,
    (reached env before).outcome (.build name) = .configured held →
      (reached env (before ++ [.build name])).BuildsNone name between →
        (reached env (before ++ .build name :: between)).converter? name = some held ∧
        (∀ tokens o,
          (reached env (before ++ .build name :: between)).outcome (.convert name tokens o) =
            .ofConversion (convertTokens held.config tokens o)) ∧
        ∀ tokenize markdown o,
          (reached env (before ++ .build name :: between)).convertMarkdownOn? tokenize name
            markdown o = some (convert tokenize held.config markdown o)

/-- Every failure to make a configuration is one of its values. -/
theorem kind_of_configuration {env : Environment} {failure : Failure}
    (h : configuration env = .error failure) : failure.kind = .value := by
  rw [configuration] at h
  cases hconfig : Config.ofEnvironment env with
  | error cause =>
    rw [hconfig] at h
    cases h
    rfl
  | ok config =>
    rw [hconfig] at h
    cases h

theorem lifecycle (env : Environment) : Lifecycle env := by
  have henv (before : List Action) : (reached env before).environment = env.after before :=
    environment_after (start env) before
  constructor
  case refused =>
    intro before action failure hconfigures
    rw [← henv]
    constructor
    · intro hfailed
      obtain ⟨hneeds, hfails, -⟩ := (step_of_outcome hfailed).of_failed hconfigures
      exact ⟨hneeds, hfails⟩
    · rintro ⟨hneeds, hfails⟩
      exact (step_of_outcome rfl).failed_of_needs hconfigures hneeds hfails
  case unchanged =>
    intro before action failure hconfigures hfailed
    obtain ⟨-, hfails, hsame⟩ := (step_of_outcome hfailed).of_failed hconfigures
    exact ⟨kind_of_configuration hfails, (reached_concat env before action).trans hsame⟩
  case reloaded =>
    intro before held hreloaded
    obtain ⟨-, hcurrent, hnumber⟩ := (step_of_outcome hreloaded).of_made (.inl rfl)
    obtain ⟨hlt, hltOutcomes⟩ := number_lt_after env before
    rw [reached_concat, hnumber]
    exact ⟨hcurrent, fun old hold => Nat.ne_of_lt (hlt old hold),
      fun old hold => Nat.ne_of_lt (hltOutcomes old hold)⟩
  case made =>
    rintro before maker held ⟨hmade, hneeds⟩
    rw [← henv]
    exact ((step_of_outcome hmade).of_made hneeds).1
  case shared =>
    rintro before maker held between asking ⟨hmade, hneeds⟩ hnone hconfigures hasks
    obtain ⟨-, hcurrent, -⟩ := (step_of_outcome hmade).of_made hneeds
    rw [← reached_concat] at hcurrent
    rw [reached_append_cons]
    exact (step_of_outcome rfl).configured_current hconfigures hasks
      (current_after hcurrent hnone)
  case kept =>
    intro before name held between hbuilt hnone
    have hheld := (step_of_outcome hbuilt).converter?_built
    rw [← reached_concat, ← converter?_after hnone, ← reached_append_cons] at hheld
    exact ⟨hheld, outcome_convert hheld, fun tokenize markdown o => by
      rw [convertMarkdownOn?, hheld, Option.map_some]⟩

/-- A refused environment, and another one. -/
def refusedAtFirst : List Action :=
  [.change [(.paragraphSpacing, some "x")], .get, .change [(.paragraphSpacing, some "12")]]

/-- A reload that is refused, one that is not, and another converter. -/
def reloadsAmid : List Action :=
  [.change [(.paragraphSpacing, some "0"), (.codeFont, some "Courier")], .reload, .get,
    .change [(.paragraphSpacing, none)], .reload, .build "b"]

theorem lifecycle_reloadsAmid : ∃ held,
    (reached .empty refusedAtFirst).outcome (.build "a") = .configured held ∧
      held = ⟨0, { Config.standard with paragraphSpacing := Binary64.ofRatio false 12 1 }⟩ ∧
      (reached .empty (refusedAtFirst ++ .build "a" :: reloadsAmid)).current =
        some ⟨1, { Config.standard with codeFont := "Courier" }⟩ ∧
      (reached .empty (refusedAtFirst ++ .build "a" :: reloadsAmid)).converter? "a" =
        some held := by
  have hbuilt : (reached .empty refusedAtFirst).outcome (.build "a") =
      .configured ⟨0, { Config.standard with paragraphSpacing := Binary64.ofRatio false 12 1 }⟩ :=
    rfl
  have hnone : (reached .empty (refusedAtFirst ++ [.build "a"])).BuildsNone "a" reloadsAmid := by
    intro init rest hsplit
    have hmem : Action.build "a" ∈ reloadsAmid := by simp [hsplit]
    simp [reloadsAmid] at hmem
  exact ⟨_, hbuilt, rfl, by decide +kernel,
    ((lifecycle .empty).kept refusedAtFirst "a" _ reloadsAmid hbuilt hnone).1⟩

end Session
end MarkdownEdits
