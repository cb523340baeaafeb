import DialogScript.Text.Blank

/-! The form `#keyword key=value ...` of a tag body. -/

namespace DialogScript.Directive

/-- The trimmed arguments of a `#keyword` directive; the keyword ends at a blank or at the end. -/
def arguments? (keyword body : Text) : Option Text :=
  match body.trimStart with
  | '#' :: rest =>
    match keyword.isPrefixOf? rest with
    | some [] => some []
    | some (c :: rest) => if isBlank c then some (Text.trim (c :: rest)) else none
    | none => none
  | _ => none

/-- A word split at its first `=` into a key and a value that are both non-empty. -/
def attribute? (word : Text) : Option (Text × Text) :=
  match word.splitFirst? '=' with
  | some (key, value) => if key.isEmpty || value.isEmpty then none else some (key, value)
  | none => none

/-- The attributes of an argument text, if every word is one. -/
def attributes? (arguments : Text) : Option (List (Text × Text)) :=
  arguments.words.mapM attribute?

end DialogScript.Directive
