import DialogScript.Record

namespace DialogScript

/-- Templates in the order in which their ids were first inserted. -/
structure Store where
  records : List Record := []
deriving DecidableEq, Repr

namespace Store

def empty : Store := {}

/-- Puts a record in place of the one with its id, or at the end. -/
def insertRecord (record : Record) : List Record → List Record
  | [] => [record]
  | r :: rest => if r.id = record.id then record :: rest else r :: insertRecord record rest

def insert (s : Store) (record : Record) : Store := ⟨insertRecord record s.records⟩

def insertAll (s : Store) (records : List Record) : Store := records.foldl insert s

def ofList (records : List Record) : Store := empty.insertAll records

/-- The records of both, those of `other` in place of those with the same id. -/
def merge (s other : Store) : Store := s.insertAll other.records

/-- The first record that a reference names. -/
def get? (s : Store) (reference : Reference) : Option Record :=
  s.records.find? fun r => r.isNamedBy reference

/-- The text and the declarations of one and the same record. -/
def text? (s : Store) (reference : Reference) : Option Text := (s.get? reference).map Record.text

def placeholders (s : Store) (reference : Reference) : List Definition :=
  ((s.get? reference).map Record.placeholders).getD []

end Store

/-- Where a run finds its template; either question may fail. -/
structure TemplateSource where
  text? : Reference → Except Text (Option Text)
  placeholders : Reference → Except Text (List Definition)

def Store.source (s : Store) : TemplateSource where
  text? reference := .ok (s.text? reference)
  placeholders reference := .ok (s.placeholders reference)

end DialogScript
