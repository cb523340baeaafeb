import DialogScript.Block.Break
import DialogScript.Knowledge
import DialogScript.Message.Section
import DialogScript.Record

/-! Checking stored templates for mistakes of their authors. -/

namespace DialogScript.Lint

inductive Warning
  | malformedBreak (directive : Text)
  | knowledgeWithoutFilter (directive : Text)
  | laterSections (output : Text)
  | malformedSections (output : Text)
  | undeclared (name output : Text)
  | unused (name : Text)
deriving DecidableEq, Repr

def Warning.message : Warning → String
  | malformedBreak directive =>
    s!"Malformed break directive '{directive.toString}' is kept as text"
  | knowledgeWithoutFilter directive =>
    s!"Knowledge directive '{directive.toString}' has no filter and is kept as text"
  | laterSections output =>
    s!"Block '{output.toString}' has role sections; only the first block may use them"
  | malformedSections output =>
    s!"Role sections in block '{output.toString}' are malformed; " ++
      "the block is sent as one user message"
  | undeclared name output =>
    s!"Placeholder '{name.toString}' in block '{output.toString}' " ++
      "is neither declared nor produced by an earlier block"
  | unused name => s!"Declared placeholder '{name.toString}' is never used"

/-- The raw text of the tags whose body fits. -/
def tagsWhere (fits : Text → Bool) (text : Text) : List Text :=
  findTags (fun body => if fits body then some (Token.tag body).raw else none) text

/-- Break directives that stay in the text. -/
def breaks (text : Text) : List Warning := (tagsWhere Break.malformed text).map .malformedBreak

/-- Knowledge directives that stay in the text. -/
def knowledge (text : Text) : List Warning :=
  (splitKnowledge text).flatMap fun
    | .text part =>
      (tagsWhere (fun body => (Knowledge.arguments? body).isSome) part).map .knowledgeWithoutFilter
    | .query _ => []

/-- Role sections that have no effect. -/
def sections (first : Bool) (b : Block) : List Warning :=
  if (findTags RoleMarker.read? b.template).isEmpty then []
  else if !first then [.laterSections b.output]
  else if (splitSections? b.template).isNone then [.malformedSections b.output]
  else []

def allSections : List Block → List Warning
  | [] => []
  | b :: rest => sections true b ++ rest.flatMap (sections false)

/-- Names that no declaration and no earlier block gives a value. -/
def coverage (known : List Text) : List Block → List Warning
  | [] => []
  | b :: rest =>
    ((Placeholder.referenced b.template).filter fun name => !known.contains name).map
        (.undeclared · b.output) ++
      coverage (b.output :: known) rest

/-- Declared names that no block refers to. -/
def unused (declared : List Text) (blocks : List Block) : List Warning :=
  let used := blocks.flatMap fun b => Placeholder.referenced b.template
  (declared.filter fun name => !used.contains name).map .unused

structure Report where
  errors : List TemplateError := []
  warnings : List Warning := []
deriving DecidableEq, Repr

/-- A template that does not split into blocks is not examined further. -/
def check (r : Record) : Report :=
  match parseBlocks r.text with
  | .error e => { errors := [e] }
  | .ok blocks =>
    let declared := r.placeholders.map Definition.name
    { warnings :=
        breaks r.text ++ knowledge r.text ++ allSections blocks ++ coverage declared blocks ++
          unused declared blocks }

theorem exists_blocks_of_check (h : (check r).errors = []) :
    ∃ blocks, parseBlocks r.text = .ok blocks ∧
      (check r).warnings =
        breaks r.text ++ knowledge r.text ++ allSections blocks ++
          coverage (r.placeholders.map Definition.name) blocks ++
          unused (r.placeholders.map Definition.name) blocks := by
  cases hparse : parseBlocks r.text with
  | error e =>
    rw [check, hparse] at h
    cases h
  | ok blocks =>
    refine ⟨blocks, rfl, ?_⟩
    rw [check, hparse]

end DialogScript.Lint
