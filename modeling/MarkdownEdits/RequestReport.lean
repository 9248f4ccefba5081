import MarkdownEdits.Conversion
import MarkdownEdits.JsonPrinter
import MarkdownEdits.RequestJson

/-!
# Reports of requests

A report shows the requests of a conversion as JSON and then how many there are of each kind. A
failure of a conversion is shown instead, other failures are passed on.
-/
namespace MarkdownEdits.RequestReport

/-- Adds one to the count of a name, which goes to the end if it is new. -/
def count (name : String) : List (String × Nat) → List (String × Nat)
  | [] => [(name, 1)]
  | (other, n) :: rest =>
    if other = name then (other, n + 1) :: rest else (other, n) :: count name rest

/-- How often each name occurs, in order of first occurrence. -/
def tally (names : List String) : List (String × Nat) :=
  names.foldl (fun counts name => count name counts) []

/-- The kind of a request given as JSON: the name of its first field. -/
def kind? : Json → Option String
  | .object ((name, _) :: _) => some name
  | _ => none

theorem kind?_toJson (request : Request) : kind? request.toJson = some request.kind := by
  rcases request with (_ | _) | (_ | _ | _ | _) <;> rfl

/-- The tally of the kinds of requests given as JSON, if all of them have one. -/
def summarize? (requests : List Json) : Option (List (String × Nat)) :=
  (requests.mapM kind?).map tally

/-- What a program leaves behind: its exit code and what it wrote. -/
structure Output where
  exitCode : Nat
  out : String
  err : String
  deriving DecidableEq, Repr

def summaryLines (requests : List Request) : List String :=
  ("SUMMARY: " ++ toString requests.length ++ " requests") ::
    (tally (requests.map Request.kind)).map fun (kind, n) => "  " ++ kind ++ ": " ++ toString n

/-- The requests, a blank line, a line of forty dashes and the summary. -/
def text (requests : List Request) : String :=
  let lines := JsonPrinter.print .indented (.array (requests.map Request.toJson)) :: "" ::
    String.ofList (List.replicate 40 '-') :: summaryLines requests
  String.join (lines.map (· ++ "\n"))

def output : Except Failure Conversion → Except Failure Output
  | .ok conversion => .ok ⟨0, text conversion.requests, ""⟩
  | .error failure =>
    if failure.isExpected then .ok ⟨1, "", failure.report "Markdown conversion" ++ "\n"⟩
    else .error failure

end MarkdownEdits.RequestReport
