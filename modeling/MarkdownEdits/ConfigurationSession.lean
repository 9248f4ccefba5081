import MarkdownEdits.Conversion

/-!
# Sessions

A session has an environment that may change, at most one current configuration, and converters.
The current configuration is made when it is first asked for and replaced when it is reloaded. A
converter keeps the configuration it was built with.
-/
namespace MarkdownEdits

/-- A configuration with the number of its making: equal values made twice are told apart. -/
structure Instance where
  number : Nat
  config : Config
  deriving DecidableEq, Repr

structure Session where
  environment : Environment
  current : Option Instance
  /-- How many configurations have been made. -/
  made : Nat
  converters : List (String × Instance)

inductive Action where
  /-- Sets each setting to its text, or takes it away where there is no text. -/
  | change (edits : List (Setting × Option String))
  | get
  | reload
  | build (name : String)
  | convert (name : String) (tokens : List Token) (options : Options)
  deriving Repr

inductive Outcome where
  | changed
  | configured (holder : Instance)
  | converted (conversion : Conversion)
  | failed (failure : Failure)
  /-- There is no converter of the name. -/
  | unknown (name : String)
  deriving Repr

namespace Session

def start (env : Environment) : Session := ⟨env, none, 0, []⟩

/-- Makes a configuration from the environment and installs it. -/
def install (s : Session) : Except Failure (Instance × Session) :=
  match configuration s.environment with
  | .ok config =>
    let made : Instance := ⟨s.made, config⟩
    .ok (made, { s with current := some made, made := s.made + 1 })
  | .error failure => .error failure

/-- The current configuration, which is made if there is none. -/
def obtain (s : Session) : Except Failure (Instance × Session) :=
  match s.current with
  | some held => .ok (held, s)
  | none => s.install

def converter? (s : Session) (name : String) : Option Instance := s.converters.lookup name

def act (s : Session) : Action → Outcome × Session
  | .change edits => (.changed, { s with environment := s.environment.edit edits })
  | .get =>
    match s.obtain with
    | .ok (held, after) => (.configured held, after)
    | .error failure => (.failed failure, s)
  | .reload =>
    match s.install with
    | .ok (held, after) => (.configured held, after)
    | .error failure => (.failed failure, s)
  | .build name =>
    match s.obtain with
    | .ok (held, after) =>
      (.configured held, { after with converters := (name, held) :: after.converters })
    | .error failure => (.failed failure, s)
  | .convert name tokens options =>
    match s.converter? name with
    | none => (.unknown name, s)
    | some held =>
      match convertTokens held.config tokens options with
      | .ok conversion => (.converted conversion, s)
      | .error failure => (.failed failure, s)

/-- Converts Markdown under the current configuration, which is made if there is none. -/
def convertMarkdown (s : Session) (tokenize : Tokenizer) (markdown : Json) (o : Options) :
    Except Failure Conversion × Session :=
  match s.obtain with
  | .ok (held, after) => (convert tokenize held.config markdown o, after)
  | .error failure => (.error failure, s)

/-- Converts Markdown on the converter of a name, if there is one. -/
def convertMarkdownOn? (s : Session) (tokenize : Tokenizer) (name : String) (markdown : Json)
    (o : Options) : Option (Except Failure Conversion) :=
  (s.converter? name).map fun held => convert tokenize held.config markdown o

/-- The outcomes of a list of actions, and the session after them. -/
def run (s : Session) : List Action → List Outcome × Session
  | [] => ([], s)
  | action :: rest =>
    let (outcome, next) := s.act action
    let (outcomes, last) := next.run rest
    (outcome :: outcomes, last)

end Session
end MarkdownEdits
