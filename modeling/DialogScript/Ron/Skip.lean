import DialogScript.Ron.Lexeme

/-! Items between brackets, and values that are passed over whatever they are. -/

namespace DialogScript.Ron

/--
A result, and the numbers that were read twice, each with the text behind it. The numbers are known
also where reading stops.
-/
abbrev Reading := ExceptT (Stop Reason) (StateM (List Text))

/-- What is read with one level less to spare. -/
def guard (levels : Nat) (text : Text) (reader : Nat → Reading α) : Reading α :=
  match levels with
  | 0 => stop .recursionLimit text
  | levels + 1 => reader levels

/--
Takes in items up to the bracket `close`, which is left unread. Commas stand between items, and one
may stand after the last; `comma` tells whether an item may follow.
-/
def foldItems (close : Char) (item : σ → Text → Reading (σ × Text)) :
    Nat → Bool → σ → Text → Reading (σ × Text)
  | 0, _, _, text => stop .endOfText text
  | fuel + 1, comma, state, text => do
    match ← skipBlanks text with
    | [] => stop .endOfText []
    | c :: rest =>
      if c = close then return (state, c :: rest)
      else if comma then
        let (state, rest) ← item state (c :: rest)
        let (comma, rest) ← readComma rest
        foldItems close item fuel comma state rest
      else stop .expectedComma (c :: rest)

/-- The items from behind an opening bracket, and what stands from the closing one on. -/
def readItems (close : Char) (item : σ → Text → Reading (σ × Text)) (state : σ) (text : Text) :
    Reading (σ × Text) :=
  foldItems close item (text.length + 1) true state text

/-- A colon with the blanks around it. -/
def readColon (text : Text) : Result Text := do
  match ← skipBlanks text with
  | ':' :: rest => skipBlanks rest
  | rest => stop .expectedColon rest

/-- Readers for values with one and with two levels less to spare, where they are left. -/
structure Inner where
  one? : Option (Text → Reading Text)
  two? : Option (Text → Reading Text)

namespace Inner

def one (i : Inner) (text : Text) : Reading Text :=
  match i.one? with
  | some skip => skip text
  | none => stop .recursionLimit text

def two (i : Inner) (text : Text) : Reading Text :=
  match i.two? with
  | some skip => skip text
  | none => stop .recursionLimit text

/-- Skips bracketed items; the bracket costs a level and each item another. -/
def items (i : Inner) (close : Char) (item : Text → Reading Text) (text : Text) : Reading Text :=
  match i.one? with
  | none => stop .recursionLimit text
  | some _ => do
    let step (_ : Unit) (text : Text) : Reading (Unit × Text) := do return ((), ← item text)
    let (_, rest) ← readItems close step () text
    return rest.drop 1

/-- A map's key and value. -/
def pair (i : Inner) (text : Text) : Reading Text := do
  i.two (← readColon (← i.two text))

/-- A structure's field. -/
def field (i : Inner) (text : Text) : Reading Text := do
  if i.two?.isNone then stop .recursionLimit text
  else
    let (_, rest) ← readIdentifier text
    i.two (← readColon rest)

/-- Whether the text from behind a parenthesis is no list of named fields. -/
def isTuple (text : Text) : Result Bool := do
  let text ← skipBlanks text
  match readIdentifier text with
  | .error _ => return true
  | .ok (_, rest) =>
    match ← skipBlanks rest with
    | c :: _ => return c ≠ ':'
    | [] => stop .endOfText []

/-- A structure or a tuple, or nothing where no parenthesis opens. -/
def parenthesis (i : Inner) : Text → Reading Text
  | '(' :: rest =>
    match isTuple rest with
    | .error s => stop s.reason ('(' :: rest)
    | .ok true => i.items ')' i.two rest
    | .ok false => i.items ')' i.field rest
  | rest => return rest

/-- An optional value, from behind `Some`. -/
def present (i : Inner) (implicitSome : Bool) (text : Text) : Reading Text := do
  match ← skipBlanks text with
  | '(' :: rest =>
    let rest ← skipBlanks rest
    match ← readComma (← i.one rest) with
    | (_, ')' :: rest) => return rest
    | (_, rest) => stop .expectedOptionEnd rest
  | rest => if implicitSome then i.one rest else stop .expectedOption rest

/-- A number, which is noted if it is read twice. -/
def number (text : Text) : Reading Text := do
  if 0 < Number.readTwice text then modify (text :: ·)
  Number.skip text

/-- A value that is no word. -/
def symbol (i : Inner) : Text → Reading Text
  | [] => stop .endOfText []
  | '(' :: rest => i.parenthesis ('(' :: rest)
  | '[' :: rest => i.items ']' i.two rest
  | '{' :: rest => i.items '}' i.pair rest
  | '.' :: rest => Number.skipFloat ('.' :: rest)
  | '"' :: rest => (readString ('"' :: rest)).map Prod.snd
  | 'r' :: rest => (readString ('r' :: rest)).map Prod.snd
  | '\'' :: rest => skipChar rest
  | c :: rest =>
    if c.isDigit || Number.isSign c then number (c :: rest)
    else stop (.unexpectedByte (firstByte c)) (c :: rest)

/-- Words that are values by themselves. -/
def constants : List Text :=
  ["true".toList, "false".toList, "None".toList, "inf".toList, "-inf".toList, "NaN".toList]

def value (i : Inner) (implicitSome : Bool) (text : Text) : Reading Text :=
  match constants.findSome? (afterWord? · text), afterWord? "Some".toList text with
  | some rest, _ => return rest
  | none, some rest => i.present implicitSome rest
  | none, none =>
    match text with
    | '(' :: ')' :: rest => return rest
    | _ =>
      match readIdentifier text with
      | .ok (_, rest) => do i.parenthesis (← skipBlanks rest)
      | .error _ => i.symbol text

end Inner

/-- Skips any value, with some levels to spare. -/
def skipValue (implicitSome : Bool) : Nat → Text → Reading Text
  | 0, text => Inner.value ⟨none, none⟩ implicitSome text
  | 1, text => Inner.value ⟨some (skipValue implicitSome 0), none⟩ implicitSome text
  | levels + 2, text =>
    Inner.value ⟨some (skipValue implicitSome (levels + 1)), some (skipValue implicitSome levels)⟩
      implicitSome text

end DialogScript.Ron
