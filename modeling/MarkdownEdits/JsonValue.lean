import MarkdownEdits.CodePoints
import MarkdownEdits.Number

/-!
# JSON values

An object keeps its fields in the order in which they stand, and a number keeps its kind. A text
that has no UTF-16 units is a value of a kind of its own.
-/
namespace MarkdownEdits

inductive Json where
  | null
  | bool (value : Bool)
  | number (value : Number)
  | text (value : String)
  | brokenText (value : BrokenText)
  | array (items : List Json)
  | object (fields : List (String × Json))
  deriving Repr, Inhabited

namespace Json

def integer (n : Int) : Json := number (.integer n)

def real (x : Binary64) : Json := number (.real x)

/-- The value of a field; of two fields with one name the later one counts. -/
def field? (name : String) : Json → Option Json
  | object fields => fields.reverse.lookup name
  | _ => none

def field (name : String) (j : Json) : Json := (j.field? name).getD null

def items : Json → List Json
  | array items => items
  | _ => []

def text? : Json → Option String
  | text s => some s
  | _ => none

/-- A text of either kind, as it is shown. -/
def shownText? : Json → Option String
  | text s => some s
  | brokenText t => some t.shown
  | _ => none

def bool? : Json → Option Bool
  | bool b => some b
  | _ => none

def integer? : Json → Option Int
  | number (.integer n) => some n
  | _ => none

def number? : Json → Option Number
  | number n => some n
  | _ => none

/-- Whether a value counts as true: null, false, zero and all that is empty do not. -/
def isTruthy : Json → Bool
  | null => false
  | bool b => b
  | number n => !n.isZero
  | text s => s != ""
  | brokenText _ => true
  | array items => !items.isEmpty
  | object fields => !fields.isEmpty

/-- The value, unless it is null. -/
def given? : Json → Option Json
  | null => none
  | value => some value

/-- Those fields that have a value. -/
def present (fields : List (String × Option Json)) : List (String × Json) :=
  fields.filterMap fun (name, value) => value.map (name, ·)

def objectOf (fields : List (String × Option Json)) : Json := object (present fields)

@[simp] theorem field?_null (name : String) : field? name null = none := rfl

@[simp] theorem isTruthy_null : isTruthy null = false := rfl

end Json
end MarkdownEdits
