import DialogScript.Json.Document
import DialogScript.Json.Fault
import DialogScript.Json.Numeral
import DialogScript.Text.Digit

/-!
Reading JSON text. Strict reading wants a value for every part and nests brackets at most 127 deep;
lenient reading asks for well-formed text only.
-/

namespace DialogScript.Json

/-- A result, most often with the text that is left, or the place where reading stops. -/
abbrev Result := Except (Stop Reason)

def skipBlanks (t : Text) : Text :=
  t.dropWhile fun c => c = ' ' || c = '\t' || c = '\n' || c = '\r'

/-- The fault of a byte that does not fit where `rest` begins, or of the end of the text there. -/
def misfit (atEnd reason : Reason) (rest : Text) : Stop Reason :=
  if rest.isEmpty then ⟨atEnd, [], 0⟩ else ⟨reason, rest, 1⟩

/-- Reads the remaining letters of `null`, `true` or `false`. -/
def readLetters (result : Document) : Text → Text → Result (Document × Text)
  | [], rest => .ok (result, rest)
  | e :: letters, c :: rest =>
    if c = e then readLetters result letters rest else .error ⟨.expectedIdent, c :: rest, 1⟩
  | _, [] => .error ⟨.endInValue, [], 0⟩

namespace Number

def spanDigits : Text → List Nat × Text
  | [] => ([], [])
  | c :: rest =>
    if c.isDigit then
      let (digits, rest) := spanDigits rest
      ((c.toNat - '0'.toNat) :: digits, rest)
    else ([], c :: rest)

/-- Digits of which there must be at least one. -/
def readDigits (text : Text) : Result (List Nat × Text) :=
  match spanDigits text with
  | ([], rest) => .error (misfit .endInValue .invalidNumber rest)
  | found => .ok found

/-- Digits without a superfluous zero in front. -/
def readWhole (text : Text) : Result (List Nat × Text) :=
  match readDigits text with
  | .ok (0 :: _ :: _, _) => .error ⟨.invalidNumber, text.drop 1, 1⟩
  | found => found

def readFraction : Text → Result (List Nat × Text)
  | '.' :: rest => readDigits rest
  | rest => .ok ([], rest)

def readSign : Text → Bool × Text
  | '+' :: rest => (false, rest)
  | '-' :: rest => (true, rest)
  | rest => (false, rest)

def readExponent : Text → Result (Option (Bool × List Nat) × Text)
  | c :: rest =>
    if c = 'e' || c = 'E' then
      let (down, rest) := readSign rest
      (readDigits rest).map fun (digits, rest) => (some (down, digits), rest)
    else .ok (none, c :: rest)
  | [] => .ok (none, [])

/-- A number, from behind its minus sign if it has one. -/
def read (strict negative : Bool) (text : Text) : Result (Document × Text) := do
  let (whole, afterWhole) ← readWhole text
  let (fraction, afterFraction) ← readFraction afterWhole
  let (exponent?, rest) ← readExponent afterFraction
  match Numeral.value { negative, whole, fraction, exponent? } with
  | .ok n => .ok (.number (some n), rest)
  | .error unread =>
    if strict then .error ⟨.numberOutOfRange, text.drop (text.length - rest.length - unread), 0⟩
    else .ok (.number none, rest)

end Number

namespace Quoted

/-- Four hexadecimal digits. -/
def readHex (text : Text) : Result (Nat × Text) :=
  let fault : Stop Reason :=
    if text.byteSize < 4 then ⟨.endInString, [], 0⟩ else ⟨.invalidEscape, text, 4⟩
  match text with
  | a :: b :: c :: d :: rest =>
    match hexValue? a, hexValue? b, hexValue? c, hexValue? d with
    | some a, some b, some c, some d => .ok (((a * 16 + b) * 16 + c) * 16 + d, rest)
    | _, _, _, _ => .error fault
  | _ => .error fault

def isHigh (unit : Nat) : Bool := 0xD800 ≤ unit && unit < 0xDC00

def isLow (unit : Nat) : Bool := 0xDC00 ≤ unit && unit < 0xE000

/-- The escaped unit that has to follow the first half of a surrogate pair. -/
def readSecond : Text → Result (Nat × Text)
  | '\\' :: 'u' :: rest => do
    let (unit, rest) ← readHex rest
    if isLow unit then .ok (unit, rest) else .error ⟨.loneSurrogate, rest, 0⟩
  | '\\' :: rest => .error (misfit .endInString .endOfHexEscape rest)
  | rest => .error (misfit .endInString .endOfHexEscape rest)

/-- A `\u` escape, from behind the `u`. -/
def readUnit (strict : Bool) (text : Text) : Result (Option Char × Text) := do
  let (unit, rest) ← readHex text
  if isLow unit then
    if strict then .error ⟨.loneSurrogate, rest, 0⟩ else .ok (none, rest)
  else if isHigh unit then
    match readSecond rest with
    | .ok (second, rest) =>
      .ok (some (Char.ofNat (0x10000 + (unit - 0xD800) * 0x400 + (second - 0xDC00))), rest)
    | .error stop => if strict then .error stop else .ok (none, rest)
  else .ok (some (Char.ofNat unit), rest)

/-- An escape, from behind the backslash. -/
def readEscape (strict : Bool) : Text → Result (Option Char × Text)
  | [] => .error ⟨.endInString, [], 0⟩
  | '"' :: rest => .ok (some '"', rest)
  | '\\' :: rest => .ok (some '\\', rest)
  | '/' :: rest => .ok (some '/', rest)
  | 'b' :: rest => .ok (some '\x08', rest)
  | 'f' :: rest => .ok (some '\x0c', rest)
  | 'n' :: rest => .ok (some '\n', rest)
  | 'r' :: rest => .ok (some '\r', rest)
  | 't' :: rest => .ok (some '\t', rest)
  | 'u' :: rest => readUnit strict rest
  | rest => .error ⟨.invalidEscape, rest, 1⟩

/-- The contents up to the closing quote, in at most `fuel` characters and escapes. -/
def read (strict : Bool) : Nat → Text → Result (Option Text × Text)
  | 0, _ => .error ⟨.endInString, [], 0⟩
  | _ + 1, [] => .error ⟨.endInString, [], 0⟩
  | _ + 1, '"' :: rest => .ok (some [], rest)
  | fuel + 1, '\\' :: rest => do
    let (c?, rest) ← readEscape strict rest
    let (text?, rest) ← read strict fuel rest
    .ok (do return (← c?) :: (← text?), rest)
  | fuel + 1, c :: rest =>
    if c.toNat < 0x20 then .error ⟨.controlCharacter, c :: rest, 1⟩
    else do
      let (text?, rest) ← read strict fuel rest
      .ok (text?.map (c :: ·), rest)

end Quoted

/-- A string, from behind its opening quote. -/
def readString (strict : Bool) (text : Text) : Result (Option Text × Text) :=
  Quoted.read strict (text.length + 1) text

/-- The items of a list up to its bracket, of which there is at least one. -/
def readItems (item : Text → Result (Document × Text)) :
    Nat → Text → Result (List Document × Text)
  | 0, _ => .error ⟨.endInList, [], 0⟩
  | fuel + 1, text => do
    let (d, rest) ← item text
    match skipBlanks rest with
    | ']' :: rest => .ok ([d], rest)
    | ',' :: rest =>
      match skipBlanks rest with
      | ']' :: rest => .error ⟨.trailingComma, ']' :: rest, 1⟩
      | rest => do
        let (ds, rest) ← readItems item fuel rest
        .ok (d :: ds, rest)
    | rest => .error (misfit .endInList .expectedCommaOrBracket rest)

/-- A list, from behind its opening bracket. -/
def readList (item : Text → Result (Document × Text)) (text : Text) : Result (Document × Text) :=
  match skipBlanks text with
  | [] => .error ⟨.endInList, [], 0⟩
  | ']' :: rest => .ok (.list [], rest)
  | rest => (readItems item (rest.length + 1) rest).map fun (ds, rest) => (.list ds, rest)

/-- A key and its value, from behind the key's opening quote. -/
def readMember (strict : Bool) (item : Text → Result (Document × Text)) (text : Text) :
    Result ((Option Text × Document) × Text) := do
  let (key?, rest) ← readString strict text
  match skipBlanks rest with
  | ':' :: rest => do
    let (d, rest) ← item rest
    .ok ((key?, d), rest)
  | rest => .error (misfit .endInObject .expectedColon rest)

/-- The members of an object up to its brace, from behind the first key's opening quote. -/
def readMembers (strict : Bool) (item : Text → Result (Document × Text)) :
    Nat → Text → Result (List (Option Text × Document) × Text)
  | 0, _ => .error ⟨.endInObject, [], 0⟩
  | fuel + 1, text => do
    let (m, rest) ← readMember strict item text
    match skipBlanks rest with
    | '}' :: rest => .ok ([m], rest)
    | ',' :: rest =>
      match skipBlanks rest with
      | '"' :: rest => do
        let (ms, rest) ← readMembers strict item fuel rest
        .ok (m :: ms, rest)
      | '}' :: rest => .error ⟨.trailingComma, '}' :: rest, 1⟩
      | rest => .error (misfit .endInValue .keyNotString rest)
    | rest => .error (misfit .endInObject .expectedCommaOrBrace rest)

/-- An object, from behind its opening brace. -/
def readObject (strict : Bool) (item : Text → Result (Document × Text)) (text : Text) :
    Result (Document × Text) :=
  match skipBlanks text with
  | '}' :: rest => .ok (.object [], rest)
  | '"' :: rest =>
    (readMembers strict item (rest.length + 1) rest).map fun (ms, rest) => (.object ms, rest)
  | rest => .error (misfit .endInObject .keyNotString rest)

/-- A value; `nested?` reads the values inside a bracket, if one may still open. -/
def readWith (strict : Bool) (nested? : Option (Text → Result (Document × Text))) (text : Text) :
    Result (Document × Text) :=
  match skipBlanks text with
  | [] => .error ⟨.endInValue, [], 0⟩
  | 'n' :: rest => readLetters .null "ull".toList rest
  | 't' :: rest => readLetters (.bool true) "rue".toList rest
  | 'f' :: rest => readLetters (.bool false) "alse".toList rest
  | '"' :: rest => (readString strict rest).map fun (text?, rest) => (.string text?, rest)
  | '-' :: rest => Number.read strict true rest
  | '[' :: rest =>
    match nested? with
    | some item => readList item rest
    | none => .error ⟨.recursionLimit, '[' :: rest, 1⟩
  | '{' :: rest =>
    match nested? with
    | some item => readObject strict item rest
    | none => .error ⟨.recursionLimit, '{' :: rest, 1⟩
  | c :: rest =>
    if c.isDigit then Number.read strict false (c :: rest)
    else .error ⟨.expectedValue, c :: rest, 1⟩

/-- A value in which at most `depth` brackets are open at once. -/
def readValue (strict : Bool) : Nat → Text → Result (Document × Text)
  | 0, text => readWith strict none text
  | depth + 1, text => readWith strict (some (readValue strict depth)) text

/-- How many brackets may be open at once in a value that is read strictly. -/
def depthLimit : Nat := 127

/-- The document of a text with nothing but blanks after it. -/
def parseDocument (strict : Bool) (text : Text) : Except (Fault Reason) Document :=
  match readValue strict (if strict then depthLimit else text.length) text with
  | .error stop => .error (stop.fault text)
  | .ok (d, rest) =>
    match skipBlanks rest with
    | [] => .ok d
    | rest => .error (Stop.fault ⟨.trailingCharacters, rest, 1⟩ text)

/-- The value of a text. Strict reading leaves no part without a value. -/
def parse (text : Text) : Except (Fault Reason) Json :=
  (parseDocument true text).map fun d => d.value?.getD .null

end DialogScript.Json
