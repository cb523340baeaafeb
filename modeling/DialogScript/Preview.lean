import DialogScript.Engine
import DialogScript.Schema

/-! Trying a stored template without a model: the options of a preview and the report on its run. -/

namespace DialogScript.Preview

structure Options where
  templates : Text := []
  id : Option Text := none
  name : Option Text := none
  category : Option Text := none
  knowledge : Option Text := none
  values : List (Text × Text) := []
  replies : List Text := []
  json : Bool := false
deriving DecidableEq, Repr

inductive ArgumentError
  | missingValue (flag : Text)
  | noKeyValue (value : Text)
  | unknown (flag : Text)
  | noTemplates
  | noReference
deriving DecidableEq, Repr

def ArgumentError.message : ArgumentError → String
  | missingValue flag => s!"missing value for {flag.toString}"
  | noKeyValue value => s!"--set expects key=value, got '{value.toString}'"
  | unknown flag => s!"unknown argument: {flag.toString}"
  | noTemplates => "--templates is required"
  | noReference => "pass either --id, or --name together with --category"

namespace Options

/-- Takes in a flag with its value; of single values the last counts. -/
def set (o : Options) (flag value : Text) : Except ArgumentError Options :=
  if flag = "--templates".toList then .ok { o with templates := value }
  else if flag = "--id".toList then .ok { o with id := some value }
  else if flag = "--name".toList then .ok { o with name := some value }
  else if flag = "--category".toList then .ok { o with category := some value }
  else if flag = "--knowledge".toList then .ok { o with knowledge := some value }
  else if flag = "--reply".toList then .ok { o with replies := o.replies ++ [value] }
  else if flag = "--set".toList then
    match value.splitFirst? '=' with
    | some pair => .ok { o with values := o.values ++ [pair] }
    | none => .error (.noKeyValue value)
  else .error (.unknown flag)

def read (o : Options) : List Text → Except ArgumentError Options
  | [] => if o.templates.isEmpty then .error .noTemplates else .ok o
  | [flag] =>
    if flag = "--json".toList then read { o with json := true } [] else .error (.missingValue flag)
  | flag :: value :: rest =>
    if flag = "--json".toList then read { o with json := true } (value :: rest)
    else do (← o.set flag value).read rest

/-- The options of a command line. -/
def parse (arguments : List Text) : Except ArgumentError Options := read {} arguments

/-- The template that is asked for, by its id or else by name and category. -/
def reference (o : Options) : Except ArgumentError Reference :=
  match o.id, o.name, o.category with
  | some id, none, _ => .ok (.id id)
  | none, some name, some category => .ok (.name name category)
  | _, _, _ => .error .noReference

end Options

/-- Replies that are given are handed out in turn; without any the last message comes back. -/
def generator (replies : List Text) : Generator :=
  if replies.isEmpty then Generator.echo [] else Generator.scripted replies

def Options.plan (o : Options) : Engine.Plan where
  paths := [o.templates]
  knowledgePath? := o.knowledge
  generator? := some (generator o.replies)

def Options.request (o : Options) (reference : Reference) : Request :=
  o.values.foldl (fun r (name, value) => r.withPlaceholder name value) { template := reference }

inductive Error
  | arguments (cause : ArgumentError)
  | load (path : Text) (cause : EngineError)
  | run (cause : EngineError)
deriving DecidableEq, Repr

namespace Error

def message : Error → String
  | arguments cause => cause.message
  | load path _ => s!"failed to load '{path.toString}'"
  | run cause => cause.message

/-- The texts of the failures behind this one, the nearest first. -/
def causes : Error → List String
  | arguments _ => []
  | load _ cause => cause.message :: cause.causes
  | run cause => cause.causes

end Error

/-- Runs the template that the options ask for. -/
def run (root : Node) (o : Options) : Except Error RunResult := do
  let reference ← o.reference.mapError .arguments
  let engine ← (o.plan.build root).mapError (.load o.templates)
  (engine.runRequest {} (o.request reference)).2.mapError .run

def line (parts : List Text) : Text := parts.flatten ++ ['\n']

def showMessage (m : Message) : Text := m.role.name ++ ": ".toList ++ m.content

def showEntry (number : Nat) (e : TraceEntry) : Text :=
  line ["\n[".toList, Nat.toDigits 10 number, "] ".toList, e.output, " as ".toList,
      e.outputType.name, if e.forget then " (forgotten)".toList else []] ++
    e.messages.flatMap fun m => line ["  ".toList, showMessage m]

/-- The blocks with their messages, the conversation that is left, and the responses by name. -/
def report (r : RunResult) : Text :=
  let responses := r.responses.mergeSort fun a b => !b.1.before a.1
  line ["=== Blocks ===".toList] ++
    (r.trace.zipIdx 1).flatMap (fun (e, number) => showEntry number e) ++
    line ["\n=== Transcript ===".toList] ++
    r.messages.flatMap (fun m => line [showMessage m]) ++
    line ["\n=== Responses ===".toList] ++
    responses.flatMap (fun (name, value) => line [name, " = ".toList, value.promptText]) ++
    line ["\nlast output: ".toList, r.lastOutput]

end DialogScript.Preview
