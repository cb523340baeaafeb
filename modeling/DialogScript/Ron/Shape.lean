import DialogScript.Ron.Skip

/-! Lists, structures and optional values that are read straight into their types. -/

namespace DialogScript.Ron

/-- Reads a value with some levels to spare. -/
abbrev Reader (α : Type) := Nat → Text → Reading (α × Text)

/-- A list, each item read behind the blanks before it. -/
def readList (item : Reader α) : Reader (List α) := fun levels text =>
  match text with
  | '[' :: rest =>
    guard levels rest fun levels => do
      let step (found : List α) (text : Text) : Reading (List α × Text) :=
        guard levels text fun levels => do
          let (a, rest) ← item levels text
          return (found ++ [a], rest)
      let (found, rest) ← readItems ']' step [] rest
      return (found, rest.drop 1)
  | text => stop .expectedList text

/-- `None`, `Some(value)` or, where that is allowed, a bare value. -/
def readOption (implicitSome : Bool) (present : Reader α) : Reader (Option α) := fun levels text =>
  let bare (text : Text) : Reading (Option α × Text) :=
    if implicitSome then
      guard levels text fun levels => do
        let (a, rest) ← present levels text
        return (some a, rest)
    else stop .expectedOption text
  match "None".toList.isPrefixOf? text, "Some".toList.isPrefixOf? text with
  | some rest, _ => return (none, rest)
  | none, some rest => do
    match ← skipBlanks rest with
    | '(' :: rest =>
      let rest ← skipBlanks rest
      guard levels rest fun levels => do
        let (a, rest) ← present levels rest
        match ← readComma rest with
        | (_, ')' :: rest) => return (some a, rest)
        | (_, rest) => stop .expectedOptionEnd rest
    | rest => bare rest
  | none, none => bare text

/-- A field of a structure that is put together in a draft `δ`. -/
structure Field (δ : Type) where
  /-- The names that it may have; the first is used in messages. -/
  names : List Text
  isSet : δ → Bool
  read : Bool → Nat → δ → Text → Reading (δ × Text)

namespace Field

def name (f : Field δ) : Text := f.names.headD []

/-- A field whose value is put into the draft. -/
def ofReader (names : List String) (value? : δ → Option α) (reader : Bool → Reader α)
    (set : δ → α → δ) : Field δ where
  names := names.map String.toList
  isSet draft := (value? draft).isSome
  read implicitSome levels draft text :=
    (fun (a, rest) => (set draft a, rest)) <$> reader implicitSome levels text

def ofText (name : String) (value? : δ → Option Text) (set : δ → Text → δ) : Field δ :=
  ofReader [name] value? (fun _ _ text => readString text) set

end Field

/-- How a structure is written; `finish` gives the first field missing from a draft. -/
structure Shape (δ α : Type) where
  name : Text
  start : δ
  fields : List (Field δ)
  finish : δ → Except Text α

namespace Shape

/-- The structure's name, which may be left out. -/
def readName (s : Shape δ α) (text : Text) : Result Text :=
  if startsWord text then
    match readIdentifier text with
    | .error e =>
      if e.reason = .rawIdentifier s.name then .error e else stop (.expectedStruct s.name) text
    | .ok (found, rest) =>
      if found = s.name then .ok rest else stop (.otherStruct s.name found) rest
  else .ok text

/-- A field; the value of an unknown one is skipped. -/
def readField (s : Shape δ α) (implicitSome : Bool) (levels : Nat) (draft : δ) (text : Text) :
    Reading (δ × Text) :=
  guard levels text fun levels => do
    let (key, rest) ← readIdentifier text
    match s.fields.find? fun f => f.names.contains key with
    | some f =>
      if f.isSet draft then stop (.duplicateField f.name s.name) rest
      else
        let rest ← readColon rest
        guard (levels + 1) rest fun levels => f.read implicitSome levels draft rest
    | none =>
      let rest ← readColon rest
      guard (levels + 1) rest fun levels => do
        return (draft, ← skipValue implicitSome levels rest)

def read (s : Shape δ α) (implicitSome : Bool) : Reader α := fun levels text => do
  match ← skipBlanks (← s.readName text) with
  | '(' :: rest =>
    guard levels rest fun levels => do
      let (draft, rest) ← readItems ')' (s.readField implicitSome levels) s.start rest
      match s.finish draft with
      | .ok a => return (a, rest.drop 1)
      | .error field => stop (.missingField field s.name) rest
  | rest => stop (.expectedStruct s.name) rest

end Shape

/-- The extensions that a text may switch on. -/
def extensions : List Text :=
  ["unwrap_newtypes".toList, "implicit_some".toList, "unwrap_variant_newtypes".toList]

/-- What is left after trying some words in turn, whether all were there, and the first fault. -/
structure Attempt where
  rest : Text
  extra : Nat := 0
  found : Bool := true
  reason? : Option Reason := none

/-- Tries a word with the blanks behind it. -/
def Attempt.word (a : Attempt) (word : Text) : Attempt :=
  match word.isPrefixOf? a.rest with
  | none => { a with found := false }
  | some rest =>
    match skipBlanks rest with
    | .ok rest => { a with rest, extra := 0 }
    | .error s =>
      { a with rest := s.rest, extra := s.extra, reason? := a.reason? <|> some s.reason }

/-- Words that all have to be there; each is tried even when one before it is missing. -/
def readWords (words : List String) (missing : Reason) (text : Text) : Result Text :=
  let a := words.foldl (fun a word => a.word word.toList) { rest := text : Attempt }
  match a.reason? with
  | some reason => .error ⟨reason, a.rest, a.extra⟩
  | none => if a.found then .ok a.rest else stop missing a.rest

/-- The extensions of an attribute, of which there is at least one. -/
def readExtensions : Nat → Text → Result (List Text × Text)
  | 0, text => stop .endOfText text
  | fuel + 1, text => do
    let (name, rest) ← readIdentifier text
    if !extensions.contains name then stop (.unknownExtension name) rest
    else
      match ← readComma rest with
      | (true, rest) =>
        if startsWord rest then
          let (names, rest) ← readExtensions fuel rest
          return (name :: names, rest)
        else return ([name], rest)
      | (false, rest) => if startsWord rest then stop .expectedComma rest else return ([name], rest)

/-- The attributes `#![enable(...)]` before the value, and the extensions that they switch on. -/
def readAttributes : Nat → Text → Result (List Text × Text)
  | fuel + 1, '#' :: rest => do
    let rest ← readWords ["#", "!", "[", "enable", "("] .expectedAttribute ('#' :: rest)
    let (names, rest) ← readExtensions (rest.length + 1) (← skipBlanks rest)
    let rest ← readWords [")", "]"] .expectedAttributeEnd (← skipBlanks rest)
    let (more, rest) ← readAttributes fuel (← skipBlanks rest)
    return (names ++ more, rest)
  | _, text => .ok ([], text)

/-- How many levels of lists, structures, items and fields a text may have. -/
def levelLimit : Nat := 128

/--
The place of a fault. Where one of the numbers `twice` stands on its line, the bytes that were read
in vain count a second time in the column.
-/
def place (whole : Text) (twice : List Text) (s : Stop Reason) : Position :=
  let position := s.position whole
  let isOnLine (number : Text) : Bool :=
    (Position.locate (whole.byteSize - number.byteSize) whole).lineFeeds = position.lineFeeds
  let again := (twice.filter isOnLine).foldl (fun n number => n + Number.readTwice number) 0
  { position with column := position.column + again }

/-- The value of a text, with nothing but blanks and attributes around it. -/
def parse (reader : Bool → Reader α) (text : Text) : Except (Fault Reason) α :=
  let read : Reading α := do
    let (names, rest) ← readAttributes (text.length + 1) (← skipBlanks text)
    let (a, rest) ← reader (names.contains "implicit_some".toList) levelLimit rest
    match ← skipBlanks rest with
    | [] => return a
    | rest => stop .trailingCharacters rest
  let (result, twice) := read.run []
  result.mapError fun s => ⟨s.reason, place text twice s⟩

end DialogScript.Ron
