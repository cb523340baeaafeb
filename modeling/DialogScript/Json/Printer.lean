import DialogScript.Json.Decimal
import DialogScript.Json
import DialogScript.Text.Digit

/-! Compact JSON text: no blanks, and only quotes, backslashes and control characters escaped. -/

namespace DialogScript.Json

def escape (c : Char) : Text :=
  if c = '"' then ['\\', '"']
  else if c = '\\' then ['\\', '\\']
  else if c = '\x08' then ['\\', 'b']
  else if c = '\x0c' then ['\\', 'f']
  else if c = '\n' then ['\\', 'n']
  else if c = '\r' then ['\\', 'r']
  else if c = '\t' then ['\\', 't']
  else if c.toNat < 0x20 then
    ['\\', 'u', '0', '0', hexDigit (c.toNat / 16), hexDigit (c.toNat % 16)]
  else [c]

def printString (text : Text) : Text := '"' :: text.flatMap escape ++ ['"']

def Number.print : Number → Text
  | int n => (if n < 0 then ['-'] else []) ++ Nat.toDigits 10 n.natAbs
  | float bits => Decimal.printBits bits

mutual

def print : Json → Text
  | null => "null".toList
  | bool true => "true".toList
  | bool false => "false".toList
  | number n => n.print
  | string text => printString text
  | array items => '[' :: printItems items ++ [']']
  | object members => '{' :: printMembers members ++ ['}']

def printItems : List Json → Text
  | [] => []
  | [v] => v.print
  | v :: vs => v.print ++ ',' :: printItems vs

def printMembers : List (Text × Json) → Text
  | [] => []
  | [(key, v)] => printString key ++ ':' :: v.print
  | (key, v) :: rest => printString key ++ ':' :: v.print ++ ',' :: printMembers rest

end

end DialogScript.Json
