import DialogScript.Text.Blank
import DialogScript.Token
import DialogScript.Value

/-! Placeholders `{{name}}` and the text that takes their place. -/

namespace DialogScript

/-- A name that a template declares. -/
structure Definition where
  name : Text
  defaultValue : Option Text := none
  required : Bool := false
deriving DecidableEq, Repr

namespace Placeholder

def isNameChar (c : Char) : Bool := !isBlank c && c ≠ '{' && c ≠ '}'

/-- The name in a tag body: one word without braces that does not begin as a directive. -/
def name? (body : Text) : Option Text :=
  match body.trim with
  | [] => none
  | c :: rest =>
    if c ≠ '#' && c ≠ '/' && (c :: rest).all isNameChar then some (c :: rest) else none

/-- The token's text, or what stands for the name that it holds. -/
def fill (meaning : Text → Text) (token : Token) : Text :=
  match token.read? name? with
  | some name => meaning name
  | none => token.raw

/-- A text with each placeholder replaced; what takes its place is not read again. -/
def resolveWith (meaning : Text → Text) (text : Text) : Text :=
  (tokenize text).flatMap (fill meaning)

/-- A name stands for its value, or else its default, or else nothing. -/
def meaning (bag : Bag) (defaults : Table Text) (name : Text) : Text :=
  match bag.get? name with
  | some value => value.promptText
  | none => (defaults.get? name).getD []

def resolve (bag : Bag) (defaults : Table Text) (text : Text) : Text :=
  resolveWith (meaning bag defaults) text

/-- Each element at its first place only. -/
def distinct : List Text → List Text
  | [] => []
  | name :: rest => name :: (distinct rest).filter fun other => other ≠ name

/-- The names that a text refers to, in the order of their first use. -/
def referenced (text : Text) : List Text := distinct (findTags name? text)

end Placeholder

namespace Definition

def optional (name defaultValue : Text) : Definition := ⟨name, some defaultValue, false⟩

def mandatory (name : Text) : Definition := ⟨name, none, true⟩

/-- The declared defaults; of several for one name the last counts. -/
def defaults (definitions : List Definition) : Table Text :=
  Table.ofList (definitions.filterMap fun d => d.defaultValue.map fun value => (d.name, value))

end Definition

inductive PlaceholderError
  | missingRequired (name : Text)
deriving DecidableEq, Repr

def PlaceholderError.message : PlaceholderError → String
  | missingRequired name =>
    s!"required placeholder '{name.toString}' has no value and no default"

/-- Fails at the first required definition without a default whose name is not supplied. -/
def validateRequired (definitions : List Definition) (supplied : Table Text) :
    Except PlaceholderError Unit :=
  match definitions.find? fun d =>
    d.required && d.defaultValue.isNone && (supplied.get? d.name).isNone with
  | some d => .error (.missingRequired d.name)
  | none => .ok ()

end DialogScript
