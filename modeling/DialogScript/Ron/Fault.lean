import DialogScript.Ron.Identifier
import DialogScript.Text.Position

namespace DialogScript.Ron

/-- Why a text is not a library in RON. -/
inductive Reason
  | endOfText
  | unexpectedByte (byte : Nat)
  | unclosedComment
  | expectedAttribute
  | expectedAttributeEnd
  | unknownExtension (name : Text)
  | expectedIdentifier
  | rawIdentifier (name : Text)
  | expectedComma
  | expectedColon
  | expectedList
  | expectedStruct (name : Text)
  | otherStruct (expected found : Text)
  | duplicateField (field owner : Text)
  | missingField (field owner : Text)
  | expectedString
  | expectedStringEnd
  | expectedChar
  | unknownEscape
  | notHexDigit
  | noOpeningBrace
  | noClosingBrace
  | noDigits
  | notCharacter
  | expectedOption
  | expectedOptionEnd
  | expectedBoolean
  | expectedFloat
  | underscoreInFloat
  | recursionLimit
  | trailingCharacters
deriving DecidableEq, Repr

/-- A byte as the character of that number, with control characters and quotes escaped. -/
def showByte (byte : Nat) : String :=
  if byte = 0 then "\\0"
  else if byte = 0x09 then "\\t"
  else if byte = 0x0A then "\\n"
  else if byte = 0x0D then "\\r"
  else if byte = 0x27 then "\\'"
  else if byte = 0x5C then "\\\\"
  else if byte < 0x20 || (0x7F ≤ byte && byte ≤ 0xA0) || byte = 0xAD then
    "\\u\x7b" ++ String.ofList (Nat.toDigits 16 byte) ++ "\x7d"
  else String.ofList [Char.ofNat byte]

def Reason.message : Reason → String
  | endOfText => "Unexpected end of RON"
  | unexpectedByte byte => s!"Unexpected byte '{showByte byte}'"
  | unclosedComment => "Unclosed block comment"
  | expectedAttribute => "Expected an `#![enable(...)]` attribute"
  | expectedAttributeEnd => "Expected closing `)]` after the enable attribute"
  | unknownExtension name => s!"No RON extension named {showIdentifier name}"
  | expectedIdentifier => "Expected identifier"
  | rawIdentifier name =>
    s!"Found invalid std identifier `{name.toString}`, " ++
      s!"try the raw identifier `r#{name.toString}` instead"
  | expectedComma => "Expected comma"
  | expectedColon => "Expected colon"
  | expectedList => "Expected opening `[`"
  | expectedStruct name => s!"Expected opening `(` for struct {showIdentifier name}"
  | otherStruct expected found =>
    s!"Expected struct {showIdentifier expected} but found {showIdentifier found}"
  | duplicateField field owner =>
    s!"Unexpected duplicate field {showIdentifier field} in {showIdentifier owner}"
  | missingField field owner =>
    s!"Unexpected missing field {showIdentifier field} in {showIdentifier owner}"
  | expectedString => "Expected string"
  | expectedStringEnd => "Expected end of string"
  | expectedChar => "Expected char"
  | unknownEscape => "Unknown escape character"
  | notHexDigit => "Non-hex digit found"
  | noOpeningBrace => "Missing \x7b in Unicode escape"
  | noClosingBrace => "No \x7d at the end of Unicode escape"
  | noDigits => "Expected 1-6 digits, got 0 digits in Unicode escape"
  | notCharacter => "Not a valid char"
  | expectedOption => "Expected option"
  | expectedOptionEnd => "Expected closing `)`"
  | expectedBoolean => "Expected boolean"
  | expectedFloat => "Expected float"
  | underscoreInFloat => "Unexpected underscore in float"
  | recursionLimit =>
    "Exceeded recursion limit, try increasing the limit and using `serde_stacker` " ++
      "to protect against a stack overflow"
  | trailingCharacters => "Non-whitespace trailing characters"

/-- Lines and columns are counted from one; the column is that of the next byte. -/
def faultMessage (f : Fault Reason) : String :=
  s!"{f.position.lineFeeds + 1}:{f.position.column + 1}: {f.reason.message}"

end DialogScript.Ron
