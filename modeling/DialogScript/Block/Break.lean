import DialogScript.Block
import DialogScript.Directive
import DialogScript.Token

/-!
The directive `#break output=NAME [forget=true|false] [output_type=text|json]`, which ends a block.
-/

namespace DialogScript

/-- The attributes of a well-formed break directive. -/
structure Break where
  output : Text
  forget : Bool
  outputType : OutputType
deriving DecidableEq, Repr

namespace Break

/-- Attributes read so far. -/
structure Draft where
  output? : Option Text := none
  forget? : Option Bool := none
  outputType? : Option OutputType := none
deriving DecidableEq, Repr

def readBool? (value : Text) : Option Bool :=
  if value = "true".toList then some true
  else if value = "false".toList then some false
  else none

/-- Unknown and repeated attributes are refused, and values out of range. -/
def Draft.set (d : Draft) : Text × Text → Option Draft
  | (key, value) =>
    if key = "output".toList then
      if d.output?.isSome then none else some { d with output? := some value }
    else if key = "forget".toList then
      if d.forget?.isSome then none
      else (readBool? value).map fun forget => { d with forget? := some forget }
    else if key = "output_type".toList then
      if d.outputType?.isSome then none
      else (OutputType.ofName? value).map fun kind => { d with outputType? := some kind }
    else none

def Draft.finish (d : Draft) : Option Break :=
  d.output?.map fun output => ⟨output, d.forget?.getD false, d.outputType?.getD .text⟩

def arguments? (body : Text) : Option Text := Directive.arguments? "break".toList body

def read? (body : Text) : Option Break := do
  let attributes ← Directive.attributes? (← arguments? body)
  (← attributes.foldlM Draft.set {}).finish

/-- A tag body that starts as a break directive and is not one. -/
def malformed (body : Text) : Bool := (arguments? body).isSome && (read? body).isNone

def block (b : Break) (template : Text) : Block := ⟨template, b.output, b.forget, b.outputType⟩

end Break

namespace Block

/-- The block with some text put in front of its own. -/
def prepend (text : Text) (b : Block) : Block := { b with template := text ++ b.template }

/-- Cuts tokens at break directives; the tokens behind the last one make the trailing block. -/
def cut : List Token → List Block
  | [] => [trailing []]
  | token :: rest =>
    match token.read? Break.read? with
    | some b => b.block [] :: cut rest
    | none => (cut rest).modifyHead (prepend token.raw)

end Block

/-- The first of some names that repeats an earlier one or one of `seen`. -/
def firstRepeat? (seen : List Text) : List Text → Option Text
  | [] => none
  | name :: rest => if name ∈ seen then some name else firstRepeat? (name :: seen) rest

inductive TemplateError
  | duplicateOutput (name : Text)
deriving DecidableEq, Repr

def TemplateError.message : TemplateError → String
  | duplicateOutput name =>
    s!"Duplicate output variable name {name.toString} was found in Template."

/-- The blocks of a template, in order, each with an output name of its own. -/
def parseBlocks (template : Text) : Except TemplateError (List Block) :=
  let blocks := Block.cut (tokenize template)
  match firstRepeat? [] (blocks.map Block.output) with
  | some name => .error (.duplicateOutput name)
  | none => .ok blocks

end DialogScript
