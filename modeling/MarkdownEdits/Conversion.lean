import MarkdownEdits.DraftStyling
import MarkdownEdits.Failures

/-!
# Conversions

A conversion checks its arguments, takes the tokens into a draft and styles the draft. Its
requests are all insertions in the order in which they were made, and then all stylings.
-/
namespace MarkdownEdits

/-- Arguments as a caller gives them. Null stands for the default of the tab and of the title. -/
structure Options where
  start : Json := .integer 1
  tab : Json := .null
  headingAsTitle : Json := .null
  deriving Repr, Inhabited

inductive LogEntry where
  | warning (warning : Warning)
  | converted (insertions stylings : Nat) (cursor : Int)
  deriving DecidableEq, Repr

namespace LogEntry

def level : LogEntry → String
  | warning _ => "WARNING"
  | converted .. => "INFO"

def message : LogEntry → String
  | warning w => w.message
  | converted insertions stylings cursor =>
    "Converted markdown: " ++ toString insertions ++ " insert requests, " ++ toString stylings ++
      " formatting requests, cursor=" ++ toString cursor

def line (entry : LogEntry) : String := entry.level ++ ": " ++ entry.message

end LogEntry

structure Conversion where
  insertions : List Insertion
  stylings : List Styling
  log : List LogEntry
  deriving DecidableEq, Repr

namespace Conversion

def empty : Conversion := ⟨[], [], []⟩

def requests (c : Conversion) : List Request :=
  c.insertions.map .insertion ++ c.stylings.map .styling

/-- The conversion that a draft amounts to after its last token. -/
def ofDraft (config : Config) (d : Draft) : Conversion :=
  let insertions := d.insertions.toList
  let stylings := d.stylings config
  ⟨insertions, stylings, d.warnings.toList.map .warning ++
    [.converted insertions.length stylings.length d.cursor]⟩

end Conversion

namespace Options

def startIndex (o : Options) : Except Failure Int :=
  (ArgumentChecks.positiveInteger "start_index" o.start none).mapError .argument

def tabIdentifier (o : Options) : Except Failure (Option String) :=
  (ArgumentChecks.tabIdentifier "tab_id" o.tab).mapError .argument

def wantsTitle (o : Options) (config : Config) : Bool :=
  match o.headingAsTitle with
  | .null => config.headingAsTitle
  | value => value.isTruthy

end Options

def convertTokens (config : Config) (tokens : List Token) (o : Options) :
    Except Failure Conversion := do
  let start ← o.startIndex
  let tab ← o.tabIdentifier
  let draft := Draft.start start tab (o.wantsTitle config)
  let final ← (draft.steps tokens).mapError .conversion
  return .ofDraft config final

/-- Splits Markdown into tokens, as a configuration wants it. A text without units comes as it is
shown. -/
abbrev Tokenizer := Config → String → List Token

/-- Converts Markdown. The arguments are checked first; a text without content is not split into
tokens. -/
def convert (tokenize : Tokenizer) (config : Config) (markdown : Json) (o : Options) :
    Except Failure Conversion := do
  let start ← o.startIndex
  let tab ← o.tabIdentifier
  match markdown.shownText? with
  | some s =>
    if Whitespace.isEmpty s then .ok .empty
    else
      let checked := { o with start := .integer start, tab := (tab.map .text).getD .null }
      convertTokens config (tokenize config s) checked
  | none => if markdown.isTruthy then .error .markdownNotText else .ok .empty

def configuration (env : Environment) : Except Failure Config :=
  (Config.ofEnvironment env).mapError .setting

/-- The arguments of a conversion by default: no title, whatever the configuration says. -/
def Options.withoutTitle : Options := { headingAsTitle := .bool false }

end MarkdownEdits
