import DialogScript.Text

namespace DialogScript

namespace Json

/-- Whole numbers of 64 bits are kept exactly, all others as a binary64 pattern. -/
inductive Number
  | int (n : Int)
  | float (bits : UInt64)
deriving DecidableEq, Repr

end Json

/-- A JSON value. The members of an object that was read are sorted, each key standing once. -/
inductive Json
  | null
  | bool (b : Bool)
  | number (n : Json.Number)
  | string (text : Text)
  | array (items : List Json)
  | object (members : List (Text × Json))
deriving BEq, Repr, Inhabited

namespace Json

/-- Puts a member at its key's place, over the member that had the key. -/
def insertMember (key : Text) (value : α) : List (Text × α) → List (Text × α)
  | [] => [(key, value)]
  | (k, v) :: rest =>
    if key = k then (key, value) :: rest
    else if key.before k then (key, value) :: (k, v) :: rest
    else (k, v) :: insertMember key value rest

/-- Members sorted by key; of those with one key the last stays. -/
def sortMembers (members : List (Text × α)) : List (Text × α) :=
  members.foldl (fun sorted (key, value) => insertMember key value sorted) []

mutual

/-- The value with the members of every object sorted. -/
def sorted : Json → Json
  | array items => .array (sortedItems items)
  | object members => .object (sortMembers (sortedMembers members))
  | v => v

def sortedItems : List Json → List Json
  | [] => []
  | v :: vs => v.sorted :: sortedItems vs

def sortedMembers : List (Text × Json) → List (Text × Json)
  | [] => []
  | (key, v) :: rest => (key, v.sorted) :: sortedMembers rest

end

end Json

end DialogScript
