import DialogScript.Knowledge.Passage
import DialogScript.Ron.Shape
import DialogScript.Store

/-! Template libraries and passage lists in RON. -/

namespace DialogScript

/-- A required field of a draft. -/
def Ron.require (field : String) (value? : Option α) : Except Text α :=
  match value? with
  | some value => .ok value
  | none => .error field.toList

open Ron

namespace Definition

/-- Fields read so far. -/
structure Draft where
  name : Option Text := none
  defaultValue : Option (Option Text) := none
  required : Option Bool := none

def shape : Shape Draft Definition where
  name := "PlaceholderDefinition".toList
  start := {}
  fields := [
    .ofText "name" Draft.name fun d name => { d with name := some name },
    .ofReader ["default_value", "defaultValue"] Draft.defaultValue
      (fun implicitSome => readOption implicitSome fun _ text => readString text)
      fun d value => { d with defaultValue := some value },
    .ofReader ["required"] Draft.required (fun _ _ text => readBool text)
      fun d required => { d with required := some required }]
  finish d := do
    return ⟨← Ron.require "name" d.name, d.defaultValue.getD none, d.required.getD false⟩

end Definition

namespace Record

/-- Fields read so far. -/
structure Draft where
  id : Option Text := none
  name : Option Text := none
  category : Option Text := none
  text : Option Text := none
  placeholders : Option (List Definition) := none

def shape : Shape Draft Record where
  name := "TemplateRecord".toList
  start := {}
  fields := [
    .ofText "id" Draft.id fun d id => { d with id := some id },
    .ofText "name" Draft.name fun d name => { d with name := some name },
    .ofText "category" Draft.category fun d category => { d with category := some category },
    .ofText "text" Draft.text fun d text => { d with text := some text },
    .ofReader ["placeholders"] Draft.placeholders
      (fun implicitSome => readList (Definition.shape.read implicitSome))
      fun d placeholders => { d with placeholders := some placeholders }]
  finish d := do
    return ⟨← Ron.require "id" d.id, ← Ron.require "name" d.name, d.category.getD [],
      ← Ron.require "text" d.text, d.placeholders.getD []⟩

end Record

namespace Passage

/-- Fields read so far. -/
structure Draft where
  id : Option Text := none
  name : Option Text := none
  category1 : Option Text := none
  category2 : Option Text := none
  category3 : Option Text := none
  text : Option Text := none

def shape : Shape Draft Passage where
  name := "Passage".toList
  start := {}
  fields := [
    .ofText "id" Draft.id fun d id => { d with id := some id },
    .ofText "name" Draft.name fun d name => { d with name := some name },
    .ofText "category1" Draft.category1 fun d value => { d with category1 := some value },
    .ofText "category2" Draft.category2 fun d value => { d with category2 := some value },
    .ofText "category3" Draft.category3 fun d value => { d with category3 := some value },
    .ofText "text" Draft.text fun d text => { d with text := some text }]
  finish d := do
    return ⟨← Ron.require "id" d.id, d.name.getD [], d.category1.getD [], d.category2.getD [],
      d.category3.getD [], ← Ron.require "text" d.text⟩

end Passage

namespace Ron

def parseRecords (text : Text) : Except (Fault Reason) (List Record) :=
  parse (fun implicitSome => readList (Record.shape.read implicitSome)) text

def parsePassages (text : Text) : Except (Fault Reason) (List Passage) :=
  parse (fun implicitSome => readList (Passage.shape.read implicitSome)) text

end Ron

end DialogScript
