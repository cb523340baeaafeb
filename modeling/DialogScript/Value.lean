import DialogScript.Json.Printer
import DialogScript.Table

namespace DialogScript

/-- What a name stands for during a run: text, or a reply read as JSON. -/
inductive Value
  | text (text : Text)
  | json (json : Json)
deriving BEq, Repr

/-- The text put in place of `{{name}}`; of a JSON string only its contents. -/
def Value.promptText : Value → Text
  | text t => t
  | json (.string t) => t
  | json v => v.print

abbrev Bag := Table Value

end DialogScript
