import DialogScript.Placeholder

namespace DialogScript

/-- How a caller names a stored template. -/
inductive Reference
  | id (id : Text)
  | name (name category : Text)
deriving DecidableEq, Repr

def Reference.display : Reference → String
  | .id x => s!"id '{x.toString}'"
  | .name x category => s!"name '{x.toString}' in category '{category.toString}'"

/-- A stored template with the names that it declares. -/
structure Record where
  id : Text
  name : Text
  category : Text := []
  text : Text
  placeholders : List Definition := []
deriving DecidableEq, Repr

def Record.isNamedBy (r : Record) : Reference → Bool
  | .id id => r.id = id
  | .name name category => r.name = name && r.category = category

/-- Which template to run, with which values for its placeholders. -/
structure Request where
  template : Reference
  placeholders : Table Text := []
deriving DecidableEq, Repr

def Request.withPlaceholder (r : Request) (name value : Text) : Request :=
  { r with placeholders := r.placeholders.insert name value }

end DialogScript
