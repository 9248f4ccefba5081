import MarkdownEdits.JsonValue
import MarkdownEdits.Whitespace

/-!
# Checks of arguments

Arguments come as values of any kind. A check gives the value in its own type, or the cause why
the value is refused.
-/
namespace MarkdownEdits

inductive ArgumentError where
  | notPositive (name : String)
  | tooLarge (name : String) (limit : Number)
  | notText (name : String)
  | blankText (name : String)
  deriving DecidableEq, Repr

namespace ArgumentError

def message : ArgumentError → String
  | notPositive name => name ++ " must be a positive integer"
  | tooLarge name limit => name ++ " cannot exceed " ++ limit.text
  | notText name => name ++ " must be a string"
  | blankText name => name ++ " cannot be empty"

end ArgumentError

namespace ArgumentChecks

/-- An integer of at least one and, where there is a limit, of at most the limit. -/
def positiveInteger (name : String) (value : Json) (limit : Option Number) :
    Except ArgumentError Int :=
  match value with
  | .number (.integer n) =>
    if n < 1 then .error (.notPositive name)
    else match limit with
      | some most => if most.isLess n then .error (.tooLarge name most) else .ok n
      | none => .ok n
  | _ => .error (.notPositive name)

/-- A text without the blank characters around it, if anything is left of it. -/
def stripped (name text : String) : Except ArgumentError (Option String) :=
  if Whitespace.isEmpty text then .error (.blankText name)
  else .ok (some (Whitespace.strip text))

/-- The identifier of a tab; null stands for no tab. -/
def tabIdentifier (name : String) (value : Json) : Except ArgumentError (Option String) :=
  match value with
  | .null => .ok none
  | .text s => stripped name s
  | .brokenText t => stripped name t.shown
  | _ => .error (.notText name)

end ArgumentChecks
end MarkdownEdits
