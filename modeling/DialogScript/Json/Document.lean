import DialogScript.Json

namespace DialogScript.Json

/--
What a JSON text says, members in written order. A well-formed number or string that has no value,
such as one with half of a surrogate pair, is `none`.
-/
inductive Document
  | null
  | bool (b : Bool)
  | number (n? : Option Number)
  | string (text? : Option Text)
  | list (items : List Document)
  | object (members : List (Option Text × Document))
deriving Repr, Inhabited

namespace Document

mutual

/-- The value, if every part has one. -/
def value? : Document → Option Json
  | null => some .null
  | bool b => some (.bool b)
  | number n? => n?.map .number
  | string text? => text?.map .string
  | list items => (values? items).map .array
  | object members => (members? members).map fun found => .object (sortMembers found)

def values? : List Document → Option (List Json)
  | [] => some []
  | d :: ds =>
    match d.value?, values? ds with
    | some v, some vs => some (v :: vs)
    | _, _ => none

def members? : List (Option Text × Document) → Option (List (Text × Json))
  | [] => some []
  | (key?, d) :: rest =>
    match key?, d.value?, members? rest with
    | some key, some v, some found => some ((key, v) :: found)
    | _, _, _ => none

end

mutual

/-- How many brackets are open at the deepest place. -/
def depth : Document → Nat
  | list items => depths items + 1
  | object members => memberDepths members + 1
  | _ => 0

def depths : List Document → Nat
  | [] => 0
  | d :: ds => max d.depth (depths ds)

def memberDepths : List (Option Text × Document) → Nat
  | [] => 0
  | (_, d) :: rest => max d.depth (memberDepths rest)

end

end Document

mutual

/-- A value as the document that says it. -/
def document : Json → Document
  | null => .null
  | bool b => .bool b
  | number n => .number (some n)
  | string text => .string (some text)
  | array items => .list (documents items)
  | object members => .object (memberDocuments members)

def documents : List Json → List Document
  | [] => []
  | v :: vs => v.document :: documents vs

def memberDocuments : List (Text × Json) → List (Option Text × Document)
  | [] => []
  | (key, v) :: rest => (some key, v.document) :: memberDocuments rest

end

end DialogScript.Json
