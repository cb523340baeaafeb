import DialogScript.Block.Break
import DialogScript.Library
import DialogScript.Run

/-! An engine looks a template up, checks its placeholders and runs its blocks. -/

namespace DialogScript

inductive EngineError
  | template (cause : TemplateError)
  | placeholder (cause : PlaceholderError)
  | run (cause : RunError)
  | templateNotFound (reference : Reference)
  | store (cause : Text)
  | system (cause : SystemError)
  | ron (cause : Fault Ron.Reason)
  | missingGenerator
  | missingStore
deriving DecidableEq, Repr

namespace EngineError

def message : EngineError → String
  | template cause => s!"template error: {cause.message}"
  | placeholder cause => s!"placeholder error: {cause.message}"
  | run cause => s!"execution error: {cause.message}"
  | templateNotFound reference => s!"template not found: {reference.display}"
  | store cause => s!"template store error: {cause.toString}"
  | system cause => s!"IO error: {cause.message}"
  | ron cause => s!"RON error: {Ron.faultMessage cause}"
  | missingGenerator => "no generator configured"
  | missingStore => "no template store configured"

/-- The texts of the failures behind this one, the nearest first. -/
def causes : EngineError → List String
  | template cause => [cause.message]
  | placeholder cause => [cause.message]
  | run cause => cause.message :: cause.cause?.toList
  | system cause => [cause.message]
  | ron cause => [Ron.faultMessage cause]
  | _ => []

def ofLoadError : LoadError → EngineError
  | .system cause => .system cause
  | .ron cause => .ron cause

end EngineError

structure Engine where
  templates? : Option TemplateSource := none
  knowledge? : Option KnowledgeSource := none
  generator : Generator
  separator : Text := ['\n']

namespace Engine

/-- What an engine is made from. A template source makes the paths irrelevant. -/
structure Plan where
  templates? : Option TemplateSource := none
  paths : List Text := []
  knowledge? : Option KnowledgeSource := none
  knowledgePath? : Option Text := none
  generator? : Option Generator := none
  separator : Text := ['\n']

/-- The libraries at some paths merged in turn. -/
def loadPaths (root : Node) (paths : List Text) : Except LoadError Store :=
  paths.foldlM (fun s path => do return s.merge (← Store.load root path)) Store.empty

namespace Plan

def loadTemplates (p : Plan) (root : Node) : Except LoadError (Option TemplateSource) :=
  match p.templates?, p.paths with
  | some source, _ => .ok (some source)
  | none, [] => .ok none
  | none, paths => (loadPaths root paths).map fun s => some s.source

def loadKnowledge (p : Plan) (root : Node) : Except LoadError (Option KnowledgeSource) :=
  match p.knowledge?, p.knowledgePath? with
  | some source, _ => .ok (some source)
  | none, some path => (KnowledgeBase.loadFile root path).map fun base => some base.source
  | none, none => .ok none

def build (p : Plan) (root : Node) : Except EngineError Engine :=
  match p.generator? with
  | none => .error .missingGenerator
  | some generator => do
    let templates? ← (p.loadTemplates root).mapError .ofLoadError
    let knowledge? ← (p.loadKnowledge root).mapError .ofLoadError
    return { templates?, knowledge?, generator, separator := p.separator }

end Plan

def setting (e : Engine) (definitions : List Definition) : Setting where
  generator := e.generator
  source? := e.knowledge?
  defaults := Definition.defaults definitions
  separator := e.separator

/-- Runs a template's text, after what `log` tells. -/
def run (e : Engine) (log : Log) (text : Text) (definitions : List Definition)
    (supplied : Table Text) : Log × Except EngineError RunResult :=
  match validateRequired definitions supplied with
  | .error cause => (log, .error (.placeholder cause))
  | .ok () =>
    match parseBlocks text with
    | .error cause => (log, .error (.template cause))
    | .ok blocks =>
      let (log, outcome) := (e.setting definitions).run log blocks (supplied.mapValues .text)
      (log, outcome.mapError .run)

/-- The text and the definitions that a reference leads to. -/
def template (e : Engine) (reference : Reference) : Except EngineError (Text × List Definition) :=
  match e.templates? with
  | none => .error .missingStore
  | some source =>
    match source.text? reference with
    | .error cause => .error (.store cause)
    | .ok none => .error (.templateNotFound reference)
    | .ok (some text) =>
      match source.placeholders reference with
      | .error cause => .error (.store cause)
      | .ok definitions => .ok (text, definitions)

/-- Runs a stored template. -/
def runRequest (e : Engine) (log : Log) (r : Request) : Log × Except EngineError RunResult :=
  match e.template r.template with
  | .error cause => (log, .error cause)
  | .ok (text, definitions) => e.run log text definitions r.placeholders

end Engine

end DialogScript
