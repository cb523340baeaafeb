import DialogScript.Text

namespace DialogScript

/-- How a reply is kept: as it is, or read as JSON. -/
inductive OutputType
  | text
  | json
deriving DecidableEq, Repr

namespace OutputType

def name : OutputType → Text
  | text => "text".toList
  | json => "json".toList

def ofName? (name : Text) : Option OutputType := [text, json].find? fun kind => kind.name = name

end OutputType

/-- A part of a template that is answered by one reply. -/
structure Block where
  template : Text
  output : Text
  forget : Bool
  outputType : OutputType
deriving DecidableEq, Repr

namespace Block

def trailingOutput : Text := "output".toList

/-- The block that closes every template. -/
def trailing (template : Text) : Block := ⟨template, trailingOutput, false, .text⟩

end Block

end DialogScript
