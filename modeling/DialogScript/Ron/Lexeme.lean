import DialogScript.Ron.Fault
import DialogScript.Text.Digit

/-! The words of RON: blanks and comments, identifiers, strings, characters and numbers. -/

namespace DialogScript.Ron

/-- A result, most often with the text that is left, or the place where reading stops. -/
abbrev Result := Except (Stop Reason)

def stop (reason : Reason) (rest : Text) : Result α := .error ⟨reason, rest, 0⟩

/-- Stops after the first byte of a text, or before the end of an empty one. -/
def stopAfter (reason : Reason) : Text → Result α
  | [] => stop .endOfText []
  | c :: rest => if c.utf8Size = 1 then stop reason rest else .error ⟨reason, c :: rest, 1⟩

/-- The first byte of a character. -/
def firstByte (c : Char) : Nat :=
  match String.utf8EncodeChar c with
  | byte :: _ => byte.toNat
  | [] => 0

inductive Gap
  | blank
  | line
  | block (level : Nat)

/-- Skips blanks, comments to the end of the line and comments that nest. -/
def skipGap : Gap → Text → Result Text
  | .blank, '/' :: '/' :: rest => skipGap .line rest
  | .blank, '/' :: '*' :: rest => skipGap (.block 0) rest
  | .blank, '/' :: rest =>
    match rest with
    | [] => stop .endOfText []
    | c :: _ => stopAfter (.unexpectedByte (firstByte c)) rest
  | .blank, c :: rest =>
    if c = ' ' || c = '\t' || c = '\n' || c = '\r' then skipGap .blank rest else .ok (c :: rest)
  | .line, '\n' :: rest => skipGap .blank rest
  | .line, _ :: rest => skipGap .line rest
  | .block level, '/' :: '*' :: rest => skipGap (.block (level + 1)) rest
  | .block 0, '*' :: '/' :: rest => skipGap .blank rest
  | .block (level + 1), '*' :: '/' :: rest => skipGap (.block level) rest
  | .block level, _ :: rest => skipGap (.block level) rest
  | .block _, [] => stop .unclosedComment []
  | _, [] => .ok []

def skipBlanks (text : Text) : Result Text := skipGap .blank text

/-- A comma with the blanks around it, if one is next. -/
def readComma (text : Text) : Result (Bool × Text) := do
  match ← skipBlanks text with
  | ',' :: rest => return (true, ← skipBlanks rest)
  | rest => return (false, rest)

def startsWord : Text → Bool
  | [] => false
  | c :: _ => isWordChar c

/-- A plain identifier, unless it goes on as a raw one. -/
def readPlainIdentifier (text : Text) : Result (Text × Text) :=
  let plain := text.takeWhile isWordChar
  let raw := text.takeWhile isRawChar
  if plain.length < raw.length then stop (.rawIdentifier raw) text
  else .ok (plain, text.dropWhile isWordChar)

/-- An identifier; a raw one stands behind `r#`. -/
def readIdentifier : Text → Result (Text × Text)
  | [] => stop .endOfText []
  | 'r' :: [] => stop .endOfText ['r']
  | 'r' :: '"' :: rest => stop .expectedIdentifier ('r' :: '"' :: rest)
  | 'r' :: '#' :: rest =>
    match rest.takeWhile isRawChar with
    | [] => stop .expectedIdentifier ('r' :: '#' :: rest)
    | name => .ok (name, rest.dropWhile isRawChar)
  | c :: rest =>
    if isWordStart c then readPlainIdentifier (c :: rest)
    else if isRawChar c then stop (.rawIdentifier ((c :: rest).takeWhile isRawChar)) (c :: rest)
    else stop .expectedIdentifier (c :: rest)

/-- What follows a word that is not the beginning of a longer one. -/
def afterWord? (word text : Text) : Option Text :=
  match word.isPrefixOf? text with
  | some rest => if startsWord rest then none else some rest
  | none => none

/-- At most `limit` hexadecimal digits, up to a closing brace where one may stand. -/
def readHex (braced : Bool) : Nat → Nat → Text → Result (Nat × Text)
  | 0, code, rest => .ok (code, rest)
  | _ + 1, _, [] => stop .endOfText []
  | limit + 1, code, c :: rest =>
    if braced && c = '}' then .ok (code, c :: rest)
    else
      match hexValue? c with
      | some digit => readHex braced limit (code * 16 + digit) rest
      | none => stopAfter .notHexDigit (c :: rest)

/-- The number in a `\u` escape, from behind the `u`. -/
def readBraced : Text → Result (Nat × Text)
  | '{' :: '}' :: rest => stop .noDigits ('}' :: rest)
  | '{' :: rest => do
    match ← readHex true 6 0 rest with
    | (code, '}' :: rest) => .ok (code, rest)
    | (_, rest) => stopAfter .noClosingBrace rest
  | rest => stopAfter .noOpeningBrace rest

/-- An escape, from behind the backslash. -/
def readEscape : Text → Result (Char × Text)
  | '\'' :: rest => .ok ('\'', rest)
  | '"' :: rest => .ok ('"', rest)
  | '\\' :: rest => .ok ('\\', rest)
  | 'n' :: rest => .ok ('\n', rest)
  | 'r' :: rest => .ok ('\r', rest)
  | 't' :: rest => .ok ('\t', rest)
  | '0' :: rest => .ok ('\x00', rest)
  | 'x' :: rest => (readHex false 2 0 rest).map fun (code, rest) => (Char.ofNat code, rest)
  | 'u' :: rest => do
    let (code, rest) ← readBraced rest
    if code.isValidChar then .ok (Char.ofNat code, rest) else stop .notCharacter rest
  | rest => stopAfter .unknownEscape rest

/-- The contents up to the closing quote; `start` is where the string or its last escape ends. -/
def readQuoted : Nat → Text → Text → Result (Text × Text)
  | 0, start, _ => stop .expectedStringEnd start
  | _ + 1, start, [] => stop .expectedStringEnd start
  | _ + 1, _, '"' :: rest => .ok ([], rest)
  | fuel + 1, _, '\\' :: rest => do
    let (c, rest) ← readEscape rest
    let (contents, rest) ← readQuoted fuel rest rest
    return (c :: contents, rest)
  | fuel + 1, start, c :: rest => do
    let (contents, rest) ← readQuoted fuel start rest
    return (c :: contents, rest)

/-- The parts before and after the first occurrence of `mark`. -/
def splitAt? (mark : Text) : Text → Option (Text × Text)
  | [] => none
  | c :: rest =>
    match mark.isPrefixOf? (c :: rest) with
    | some after => some ([], after)
    | none => (splitAt? mark rest).map fun (before, after) => (c :: before, after)

/-- A string without escapes, from behind its `r`. -/
def readRaw (text : Text) : Result (Text × Text) :=
  let hashes := text.takeWhile (· = '#')
  match text.dropWhile (· = '#') with
  | '"' :: rest =>
    match splitAt? ('"' :: hashes) rest with
    | some found => .ok found
    | none => stop .expectedStringEnd rest
  | rest => stop .expectedString rest

def readString : Text → Result (Text × Text)
  | '"' :: rest => readQuoted (rest.length + 1) rest rest
  | 'r' :: rest => readRaw rest
  | rest => stop .expectedString rest

def readBool (text : Text) : Result (Bool × Text) :=
  match "true".toList.isPrefixOf? text, "false".toList.isPrefixOf? text with
  | some rest, _ => .ok (true, rest)
  | _, some rest => .ok (false, rest)
  | none, none => stop .expectedBoolean text

/-- A character, from behind its opening quote. -/
def skipChar : Text → Result Text
  | [] => stop .endOfText []
  | '\\' :: rest => do
    match ← readEscape rest with
    | (_, '\'' :: rest) => return rest
    | (_, rest) => stop .expectedChar rest
  | '\'' :: rest => stop .expectedChar ('\'' :: rest)
  | _ :: '\'' :: rest => .ok rest
  | rest => stop .expectedChar rest

namespace Number

def isFloatChar (c : Char) : Bool :=
  c.isDigit || c = 'e' || c = 'E' || c = '.' || c = '+' || c = '-' || c = '_'

def isIntChar (c : Char) : Bool := (hexValue? c).isSome || c = '_'

def isSign (c : Char) : Bool := c = '+' || c = '-'

def dropSign : Text → Text
  | c :: rest => if isSign c then rest else c :: rest
  | [] => []

/-- Digits with an optional point among or beside them, and at least one digit. -/
def isMantissa (text : Text) : Bool :=
  let fraction := (text.dropWhile Char.isDigit).drop 1
  text.any Char.isDigit && (text.dropWhile Char.isDigit).head?.all (· = '.') &&
    fraction.all Char.isDigit

def isExponent (text : Text) : Bool := !(dropSign text).isEmpty && (dropSign text).all Char.isDigit

/-- Whether float characters form a decimal number. -/
def isFloat (text : Text) : Bool :=
  let isMark (c : Char) : Bool := c = 'e' || c = 'E'
  let unsigned := dropSign text
  let mantissa := unsigned.takeWhile fun c => !isMark c
  isMantissa mantissa &&
    match unsigned.dropWhile fun c => !isMark c with
    | [] => true
    | _ :: exponent => isExponent exponent

/-- Decimal numbers that are written as words. -/
def words : List Text :=
  ["inf".toList, "+inf".toList, "-inf".toList, "NaN".toList, "+NaN".toList, "-NaN".toList]

/-- The characters of a decimal number, which have to form one. -/
def skipDigits (text : Text) : Result Text :=
  let word := text.takeWhile isFloatChar
  match word.dropWhile (· ≠ '_') with
  | [] =>
    let rest := text.dropWhile isFloatChar
    if isFloat word then .ok rest else stop .expectedFloat rest
  | _ => stop .underscoreInFloat (text.dropWhile fun c => isFloatChar c && c ≠ '_')

def skipFloat (text : Text) : Result Text :=
  match words.findSome? (afterWord? · text) with
  | some rest => .ok rest
  | none => skipDigits text

/-- The base of a number and its digits, less a sign. -/
def baseOf : Text → Nat × Text
  | '0' :: 'x' :: rest => (16, rest)
  | '0' :: 'b' :: rest => (2, rest)
  | '0' :: 'o' :: rest => (8, rest)
  | rest => (10, rest)

/-- The value of digits with underscores between them, if all are below the base. -/
def digitsValue? (base : Nat) (word : Text) : Option Nat :=
  (word.filter (· ≠ '_')).foldlM
    (fun value c => do
      let digit ← hexValue? c
      if digit < base then some (value * base + digit) else none)
    0

/-- What follows a whole number of 64 bits. -/
def afterInteger? (text : Text) : Option Text :=
  let (base, digits) := baseOf (dropSign text)
  let word := digits.takeWhile isIntChar
  match word, digitsValue? base word with
  | [], _ => none
  | '_' :: _, _ => none
  | _, none => none
  | _, some value =>
    let bound := match text with
      | '-' :: _ => Nat.pow 2 63
      | '+' :: _ => Nat.pow 2 63 - 1
      | _ => Nat.pow 2 64 - 1
    if value ≤ bound then some (digits.dropWhile isIntChar) else none

/-- Whether a number has characters that no whole number has. -/
def isDecimal (text : Text) : Bool :=
  let unsigned := dropSign text
  (unsigned.takeWhile isIntChar).length < (unsigned.takeWhile isFloatChar).length

/-- A number; what is no whole number must be a decimal one. -/
def skip (text : Text) : Result Text :=
  if isDecimal text then skipFloat text
  else
    match afterInteger? text with
    | some rest => .ok rest
    | none => skipFloat text

/-- How many bytes are read in vain, as a whole number, before the decimal number in their place. -/
def readTwice (text : Text) : Nat :=
  if isDecimal text || (afterInteger? text).isSome then 0
  else
    let (_, digits) := baseOf (dropSign text)
    let word := digits.takeWhile isIntChar
    text.length - digits.length + if word.head? = some '_' then 0 else word.length

end Number

end DialogScript.Ron
