import DialogScript.Preview

/-! Functions for a page that tries templates out: text in, JSON out, nothing on failure. -/

namespace DialogScript.Playground

/-- Named texts; a blank text holds none. -/
def textTable? (json : Text) : Option (Table Text) :=
  if json.trim.isEmpty then some []
  else Json.decode? false (Json.Document.table? Json.Document.text?) json

def texts? (json : Text) : Option (List Text) :=
  if json.trim.isEmpty then some []
  else Json.decode? false (Json.Document.items? Json.Document.text?) json

def parseBlocks (template : Text) : Option Text :=
  match DialogScript.parseBlocks template with
  | .ok blocks => some (Json.array (blocks.map Block.toJson)).print
  | .error _ => none

def knowledgeQueries (text : Text) : Text :=
  (Json.array ((DialogScript.knowledgeQueries text).map Query.toJson)).print

def referencedPlaceholders (text : Text) : Text := (Json.texts (Placeholder.referenced text)).print

def resolvePlaceholders (text values : Text) : Option Text :=
  (textTable? values).map fun table => Placeholder.resolve (table.mapValues .text) [] text

/-- Runs a template on given replies, or else by repeating what it sends. -/
def previewTemplate (template values replies knowledge : Text) : Option Text := do
  let supplied ← textTable? values
  let replies ← texts? replies
  let source? : Option KnowledgeSource ←
    if knowledge.trim.isEmpty then some none
    else
      match KnowledgeBase.parse knowledge with
      | .ok base => some (some base.source)
      | .error _ => none
  let engine : Engine := { generator := Preview.generator replies, knowledge? := source? }
  match (engine.run {} template [] supplied).2 with
  | .ok result => some result.toJson.print
  | .error _ => none

end DialogScript.Playground
