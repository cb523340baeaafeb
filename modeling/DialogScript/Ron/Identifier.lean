import DialogScript.Text

/-! The characters of identifiers, and how an identifier is shown. -/

namespace DialogScript.Ron

def isWordStart (c : Char) : Bool := c.isAlpha || c = '_'

def isWordChar (c : Char) : Bool := c.isAlphanum || c = '_'

def isRawChar (c : Char) : Bool := isWordChar c || c = '.' || c = '+' || c = '-'

/-- Whether an identifier may stand by itself; any other has to stand behind `r#`. -/
def isPlain : Text → Bool
  | [] => false
  | c :: rest => isWordStart c && rest.all isWordChar

/-- An identifier between backquotes, as it would have to be written. -/
def showIdentifier (name : Text) : String :=
  if isPlain name then s!"`{name.toString}`" else s!"`r#{name.toString}`"

end DialogScript.Ron
