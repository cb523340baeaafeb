import DialogScript.Block
import DialogScript.Generator
import DialogScript.Json.Reader
import DialogScript.Knowledge.Passage
import DialogScript.Message.Section
import DialogScript.Placeholder

/-!
Running blocks: each is rendered, sent behind the conversation so far, and its reply kept under its
output name. Requests and lookups are logged, also those of a run that fails.
-/

namespace DialogScript

inductive RetrievalCause
  | noSource
  | failed (cause : Text)
deriving DecidableEq, Repr

def RetrievalCause.message : RetrievalCause → String
  | noSource => "no knowledge source is configured"
  | failed cause => cause.toString

inductive RunError
  | noBlocks
  | retrieval (directive : Text) (cause : RetrievalCause)
  | generation (output cause : Text)
  | coercion (output : Text) (fault : Fault Json.Reason)
deriving DecidableEq, Repr

namespace RunError

/-- The text of the failure that led to this one. -/
def cause? : RunError → Option String
  | noBlocks => none
  | retrieval _ cause => some cause.message
  | generation _ cause => some cause.toString
  | coercion _ fault => some (Json.faultMessage fault)

def message : RunError → String
  | noBlocks => "template produced no blocks"
  | retrieval directive cause =>
    s!"knowledge retrieval failed for {directive.toString}: {cause.message}"
  | generation output cause => s!"generation failed for block '{output.toString}': {cause.toString}"
  | coercion output fault =>
    s!"reply for block '{output.toString}' is not valid JSON: {Json.faultMessage fault}"

end RunError

/-- A reply as the block wants it kept. -/
def coerce (b : Block) (reply : Text) : Except RunError Value :=
  match b.outputType with
  | .text => .ok (.text reply)
  | .json =>
    match Json.parse reply with
    | .ok v => .ok (.json v)
    | .error fault => .error (.coercion b.output fault)

/-- What a run works with. -/
structure Setting where
  generator : Generator
  source? : Option KnowledgeSource := none
  defaults : Table Text := []
  separator : Text := ['\n']

/-- What the collaborators were asked, oldest first. -/
structure Log where
  requests : List Conversation := []
  lookups : List Filters := []
deriving DecidableEq, Repr

namespace Setting

/-- One lookup, its passages joined; it is logged if there is a source. -/
def retrieve (s : Setting) (lookups : List Filters) (q : Query) :
    List Filters × Except RunError Text :=
  match s.source? with
  | none => (lookups, .error (.retrieval q.fullMatch .noSource))
  | some source =>
    (lookups ++ [q.filters],
      match source lookups q.filters with
      | .ok passages => .ok (s.separator.intercalate passages)
      | .error cause => .error (.retrieval q.fullMatch (.failed cause)))

/-- Puts retrieved passages in place of queries; only the passages are resolved. -/
def splice (s : Setting) (bag : Bag) (lookups : List Filters) :
    List Segment → List Filters × Except RunError Text
  | [] => (lookups, .ok [])
  | .text t :: rest =>
    match s.splice bag lookups rest with
    | (lookups, .ok spliced) => (lookups, .ok (t ++ spliced))
    | failure => failure
  | .query q :: rest =>
    match s.retrieve lookups q with
    | (lookups, .error e) => (lookups, .error e)
    | (lookups, .ok passages) =>
      match s.splice bag lookups rest with
      | (lookups, .ok spliced) =>
        (lookups, .ok (Placeholder.resolve bag s.defaults passages ++ spliced))
      | failure => failure

/-- A block's text with its placeholders resolved and its knowledge retrieved; a text that asks
for nothing is taken as it is. -/
def render (s : Setting) (bag : Bag) (lookups : List Filters) (b : Block) :
    List Filters × Except RunError Text :=
  let resolved := Placeholder.resolve bag s.defaults b.template
  let segments := splitKnowledge resolved
  if segments.any fun segment => segment.query?.isSome then s.splice bag lookups segments
  else (lookups, .ok resolved)

end Setting

/-- What one block added to the conversation, kept also when the block is forgotten. -/
structure TraceEntry where
  output : Text
  forget : Bool
  outputType : OutputType
  messages : List Message
deriving DecidableEq, Repr

/-- The state between two blocks. -/
structure Progress where
  bag : Bag
  transcript : Conversation := []
  trace : List TraceEntry := []

structure RunResult where
  responses : Bag
  lastOutput : Text
  messages : List Message
  trace : List TraceEntry

namespace Setting

/-- Takes a reply in: it is coerced, kept, and said in the conversation. A block that is forgotten
is cut off the conversation again. -/
def conclude (p : Progress) (b : Block) (messages : List Message) (reply : Text) :
    Except RunError Progress :=
  let added := messages ++ [⟨.assistant, reply⟩]
  let said := p.transcript ++ added
  match coerce b reply with
  | .error e => .error e
  | .ok value =>
    .ok {
      bag := p.bag.insert b.output value
      transcript := if b.forget then said.take p.transcript.length else said
      trace := p.trace ++ [⟨b.output, b.forget, b.outputType, added⟩] }

/-- Runs one block. -/
def runBlock (s : Setting) (first : Bool) (log : Log) (p : Progress) (b : Block) :
    Log × Except RunError Progress :=
  match s.render p.bag log.lookups b with
  | (lookups, .error e) => ({ log with lookups }, .error e)
  | (lookups, .ok text) =>
    let messages := blockMessages first text
    let request := p.transcript ++ messages
    ({ requests := log.requests ++ [request], lookups },
      match s.generator log.requests request with
      | .error cause => .error (.generation b.output cause)
      | .ok reply => conclude p b messages reply)

def runBlocks (s : Setting) (first : Bool) (log : Log) (p : Progress) :
    List Block → Log × Except RunError Progress
  | [] => (log, .ok p)
  | b :: rest =>
    match s.runBlock first log p b with
    | (log, .error e) => (log, .error e)
    | (log, .ok p) => s.runBlocks false log p rest

/-- Runs all blocks from a seed, after what `log` tells; nothing partial is given on failure. -/
def run (s : Setting) (log : Log) (blocks : List Block) (seed : Bag) :
    Log × Except RunError RunResult :=
  match blocks.getLast? with
  | none => (log, .error .noBlocks)
  | some last =>
    match s.runBlocks true log { bag := seed } blocks with
    | (log, .error e) => (log, .error e)
    | (log, .ok p) => (log, .ok ⟨p.bag, last.output, p.transcript, p.trace⟩)

end Setting

end DialogScript
