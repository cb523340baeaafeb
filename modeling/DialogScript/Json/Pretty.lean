import DialogScript.Json.Printer

/-! JSON text with one item or member to a line, two blanks for each open bracket. -/

namespace DialogScript.Json

def newline (depth : Nat) : Text := '\n' :: List.replicate (2 * depth) ' '

mutual

def pretty (depth : Nat) : Json → Text
  | array (v :: vs) => '[' :: prettyItems (depth + 1) (v :: vs) ++ newline depth ++ [']']
  | object (m :: ms) => '{' :: prettyMembers (depth + 1) (m :: ms) ++ newline depth ++ ['}']
  | v => v.print

def prettyItems (depth : Nat) : List Json → Text
  | [] => []
  | [v] => newline depth ++ v.pretty depth
  | v :: vs => newline depth ++ v.pretty depth ++ ',' :: prettyItems depth vs

def prettyMembers (depth : Nat) : List (Text × Json) → Text
  | [] => []
  | [(key, v)] => newline depth ++ printString key ++ ": ".toList ++ v.pretty depth
  | (key, v) :: rest =>
    newline depth ++ printString key ++ ": ".toList ++ v.pretty depth ++
      ',' :: prettyMembers depth rest

end

end DialogScript.Json
