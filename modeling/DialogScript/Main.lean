import DialogScript.Tool

/-!
The command line. The first argument names a tool, the others are the tool's own. The files that the
tool sees come on standard input, as a JSON object from path to text.
-/

namespace DialogScript.Main

/-- The tree of files in an object from path to text. -/
def files? (input : Text) : Option Node :=
  (Json.decode? false (Json.Document.table? Json.Document.text?) input).map fun table =>
    Node.ofPaths (table.mapValues fun text => .file text.toString.toUTF8)

def usage : Text := Tool.lines ["Usage: (template_linter | preview) <arguments> < <files.json>"]

/-- Runs the tool that the first argument names. -/
def run (arguments : List Text) (input : Text) : Tool.Outcome :=
  match arguments with
  | [] => { output := usage }
  | name :: rest =>
    let tool? : Option (Node → List Text → Tool.Outcome) :=
      if name = "template_linter".toList then some Tool.Linter.run
      else if name = "preview".toList then some Tool.Previewer.run
      else none
    match tool?, files? input with
    | some tool, some root => tool root rest
    | none, _ => { exitCode := 2, errors := usage }
    | _, none => { exitCode := 2, errors := Tool.lines ["The files are no JSON object of texts."] }

partial def readAll (input : IO.FS.Stream) (read : String) : IO String := do
  let line ← input.getLine
  if line.isEmpty then return read else readAll input (read ++ line)

end DialogScript.Main

def main (arguments : List String) : IO UInt32 := do
  let input ← DialogScript.Main.readAll (← IO.getStdin) ""
  let outcome := DialogScript.Main.run (arguments.map String.toList) input.toList
  (← IO.getStdout).putStr outcome.output.toString
  (← IO.getStderr).putStr outcome.errors.toString
  return outcome.exitCode.toUInt32
