import MarkdownEdits.JsonReader
import MarkdownEdits.RequestReport
import MarkdownEdits.TokenRecords

/-!
# Command line

Reads a JSON array of token records from the file that is named, or from standard input where no
file or a hyphen is given, and writes the report of its conversion under the settings of the
process's environment.
-/
namespace MarkdownEdits.CommandLine

/-- The report of the tokens that a text holds, or what is wrong with the text or the settings. -/
def report (env : Environment) (source : String) : RequestReport.Output :=
  match JsonReader.read? source with
  | none => ⟨1, "", "The input is not a JSON array of tokens\n"⟩
  | some records =>
    let result := (configuration env).bind fun config =>
      convertTokens config (Token.ofRecords records) {}
    match RequestReport.output result with
    | .ok output => output
    | .error failure => ⟨1, "", failure.message ++ "\n"⟩

/-- The rest of a stream, added to what is read so far. -/
partial def readAll (stream : IO.FS.Stream) (done : String) : IO String := do
  let line ← stream.getLine
  if line.isEmpty then return done else readAll stream (done ++ line)

/-- The text of the file that the arguments name, or of standard input. -/
def readSource (args : List String) : IO String := do
  match args with
  | [] => readAll (← IO.getStdin) ""
  | name :: _ => if name == "-" then readAll (← IO.getStdin) "" else IO.FS.readFile name

def readEnvironment : IO Environment := do
  let edits ← Setting.all.mapM fun setting => do
    return (setting, ← IO.getEnv setting.variableName)
  return Environment.empty.edit edits

end MarkdownEdits.CommandLine

open MarkdownEdits CommandLine in
def main (args : List String) : IO UInt32 := do
  let source ← readSource args
  let output := report (← readEnvironment) source
  IO.print output.out
  IO.eprint output.err
  return output.exitCode.toUInt32
