import MarkdownEdits.ArgumentChecks
import MarkdownEdits.Configuration
import MarkdownEdits.Color
import MarkdownEdits.TokenCompilation

/-!
# Failures

The kinds of failures that concern a conversion form a family of their own: a general one and
beneath it those of arguments and of the pass over the tokens. Failures of settings and of values
of a foreign type do not belong to it.
-/
namespace MarkdownEdits

inductive FailureKind where
  | general
  | argument
  | conversion
  | value
  | type
  deriving DecidableEq, Repr

namespace FailureKind

/-- The kinds of the family that a failure of some kind belongs to, the general one first. -/
def lineage : FailureKind → List FailureKind
  | general => [general]
  | argument => [general, argument]
  | conversion => [general, conversion]
  | value | type => []

end FailureKind

inductive Failure where
  | argument (cause : ArgumentError)
  | conversion (cause : ConversionError)
  | setting (cause : ConfigError)
  | color (cause : ColorError)
  /-- The Markdown to convert is not a text. -/
  | markdownNotText
  /-- A failure in words of whoever reports it. -/
  | reported (kind : FailureKind) (text : String) (token : Option String)
  deriving DecidableEq, Repr

namespace Failure

def kind : Failure → FailureKind
  | argument _ => .argument
  | conversion _ => .conversion
  | setting _ | color (.malformed _) | color (.broken _) => .value
  | color .notText | markdownNotText => .type
  | reported kind _ _ => kind

def message : Failure → String
  | argument cause => cause.message
  | conversion cause => cause.message
  | setting cause => cause.message
  | color cause => cause.message
  | markdownNotText => "the Markdown must be a string"
  | reported _ text _ => text

/-- The type of the token that made a conversion fail, if it is known. -/
def tokenType : Failure → Option String
  | conversion cause => some cause.tokenType
  | reported .conversion _ token => token
  | _ => none

/-- Whether the failure belongs to the family. -/
def isExpected (f : Failure) : Bool := !f.kind.lineage.isEmpty

/-- The failure of an operation as it is shown to the user. -/
def report (operation : String) (f : Failure) : String := operation ++ " failed: " ++ f.message

end Failure
end MarkdownEdits
