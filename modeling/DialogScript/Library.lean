import DialogScript.Files
import DialogScript.Ron.Library

/-! Template libraries and knowledge bases from RON texts, files and folders. -/

namespace DialogScript

inductive LoadError
  | system (cause : SystemError)
  | ron (cause : Fault Ron.Reason)
deriving DecidableEq, Repr

def LoadError.message : LoadError → String
  | system cause => s!"IO error: {cause.message}"
  | ron cause => s!"RON deserialization error: {Ron.faultMessage cause}"

namespace Store

def parse (text : Text) : Except LoadError Store :=
  ((Ron.parseRecords text).mapError .ron).map ofList

def ofNode (node : Node) : Except LoadError Store := do parse (← node.text.mapError .system)

def loadFile (root : Node) (path : Text) : Except LoadError Store := do
  parse (← (root.read path).mapError .system)

/-- Whether a folder's entry counts as a library. -/
def isLibrary (entry : Text × Node) : Bool := extension? entry.1 = some "ron".toList

/-- The libraries of a folder by name. -/
def libraries (entries : List (Text × Node)) : List (Text × Node) :=
  (entries.filter isLibrary).mergeSort fun a b => !b.1.before a.1

/-- The libraries of a folder merged, later names over earlier ones. -/
def loadFolder (root : Node) (path : Text) : Except LoadError Store := do
  let entries ← (root.list path).mapError .system
  (libraries entries).foldlM (fun s entry => do return s.merge (← ofNode entry.2)) empty

/-- Loads a folder or else a file. -/
def load (root : Node) (path : Text) : Except LoadError Store :=
  if root.isFolder path then loadFolder root path else loadFile root path

end Store

namespace KnowledgeBase

def parse (text : Text) : Except LoadError KnowledgeBase :=
  ((Ron.parsePassages text).mapError .ron).map KnowledgeBase.mk

def loadFile (root : Node) (path : Text) : Except LoadError KnowledgeBase := do
  parse (← (root.read path).mapError .system)

end KnowledgeBase

end DialogScript
