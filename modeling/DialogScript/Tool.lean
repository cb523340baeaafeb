import DialogScript.Json.Pretty
import DialogScript.Lint
import DialogScript.Preview

/-! The two command line tools, over a tree of files. -/

namespace DialogScript.Tool

/-- What a tool leaves behind. -/
structure Outcome where
  exitCode : Nat := 0
  output : Text := []
  errors : Text := []
deriving DecidableEq, Repr

def asksForHelp : List Text → Bool
  | [] => true
  | first :: _ => first = "--help".toList || first = "-h".toList

def lines (all : List String) : Text := all.flatMap fun s => s.toList ++ ['\n']

namespace Linter

def usage : Text := lines ["Usage: template_linter <templates.ron | templates_dir>"]

def showRecord (r : Record) : Text :=
  let found := Lint.check r
  lines (found.warnings.map fun w => s!"WARNING [{r.id.toString}]: {w.message}") ++
    lines (found.errors.map fun e => s!"ERROR [{r.id.toString}]: {e.message}")

/-- The findings for every record, and how many there are. -/
def report (s : Store) : Outcome :=
  let errors := s.records.foldl (fun n r => n + (Lint.check r).errors.length) 0
  let warnings := s.records.foldl (fun n r => n + (Lint.check r).warnings.length) 0
  { exitCode := if errors = 0 then 0 else 1
    output :=
      lines [s!"Loaded {s.records.length} templates", "\n=== Template Lint Report ===\n"] ++
        s.records.flatMap showRecord ++
        (if errors = 0 && warnings = 0 then lines ["All checks passed!"] else []) ++
        lines [s!"\nSummary: {errors} errors, {warnings} warnings"] }

def failure (message : String) : Outcome :=
  { exitCode := 1, errors := lines ["ERROR: " ++ message] }

/-- Checks the library at the path that comes first. -/
def run (root : Node) (arguments : List Text) : Outcome :=
  match arguments with
  | [] => { output := usage }
  | path :: _ =>
    if asksForHelp arguments then { output := usage }
    else if root.isFile path || root.isFolder path then
      match Store.load root path with
      | .ok s => report s
      | .error e => failure s!"Failed to load templates: {e.message}"
    else failure s!"Path '{path.toString}' does not exist"

end Linter

namespace Previewer

def usage : Text := lines [
  "Usage: preview --templates <path> (--id <id> | --name <name> --category <category>)",
  "               [--knowledge <file>] [--set key=value]... [--reply <text>]... [--json]",
  "",
  "Without --reply every block is answered by echoing its last message.",
  "Set RUST_LOG=prompt_chain=debug to trace each block."]

/-- A text with its further lines indented. -/
def indent (blanks : Nat) (s : String) : Text :=
  s.toList.flatMap fun c => if c = '\n' then '\n' :: List.replicate blanks ' ' else [c]

/-- The causes of a failure, numbered if there are several. -/
def showCauses : List String → Text
  | [] => []
  | [cause] => "\nCaused by:\n    ".toList ++ indent 4 cause ++ ['\n']
  | causes =>
    "\nCaused by:\n".toList ++ causes.zipIdx.flatMap fun (cause, number) =>
      "    ".toList ++ Nat.toDigits 10 number ++ ": ".toList ++ indent 7 cause ++ ['\n']

def failure (e : Preview.Error) : Outcome :=
  { exitCode := 1, errors := lines ["Error: " ++ e.message] ++ showCauses e.causes }

/-- Runs the template that the arguments ask for and reports on the run. -/
def run (root : Node) (arguments : List Text) : Outcome :=
  if asksForHelp arguments then { output := usage }
  else
    match Preview.Options.parse arguments with
    | .error e => failure (.arguments e)
    | .ok options =>
      match Preview.run root options with
      | .error e => failure e
      | .ok result =>
        { output :=
            if options.json then result.toJson.pretty 0 ++ ['\n'] else Preview.report result }

end Previewer

end DialogScript.Tool
