import DialogScript.Text

/-!
Template text as literal runs and `{{ ... }}` tags. A tag opens at `{{` and closes at the first `}}`
after it; when another `{{` comes first, the scan starts again there.
-/

namespace DialogScript

inductive Token
  | literal (text : Text)
  | tag (body : Text)
deriving DecidableEq, Repr

namespace Token

/-- The text that a token was read from. -/
def raw : Token → Text
  | literal text => text
  | tag body => '{' :: '{' :: body ++ ['}', '}']

/-- What a reader of tag bodies finds in a token. -/
def read? (reader : Text → Option α) : Token → Option α
  | literal _ => none
  | tag body => reader body

end Token

/-- The state between two characters; its lists hold the newest first. -/
structure Scan where
  tokens : List Token := []
  text : Text := []
  body? : Option Text := none
deriving DecidableEq, Repr

namespace Scan

/-- The finished tokens with the literal run added to them. -/
def closeText (s : Scan) : List Token :=
  if s.text.isEmpty then s.tokens else .literal s.text.reverse :: s.tokens

def step (s : Scan) (c : Char) : Scan :=
  match s.body? with
  | none =>
    match c, s.text with
    | '{', '{' :: text => { s with text := text, body? := some [] }
    | c, text => { s with text := c :: text }
  | some body =>
    match c, body with
    | '}', '}' :: body => { tokens := .tag body.reverse :: s.closeText }
    | '{', '{' :: body => { s with text := body ++ '{' :: '{' :: s.text, body? := some [] }
    | c, body => { s with body? := some (c :: body) }

/-- An open tag at the end of the input is literal. -/
def finish (s : Scan) : List Token :=
  match s.body? with
  | none => s.closeText.reverse
  | some body => { s with text := body ++ '{' :: '{' :: s.text }.closeText.reverse

end Scan

def tokenize (text : Text) : List Token := (text.foldl Scan.step {}).finish

/-- What a reader of tag bodies finds in a text, in order. -/
def findTags (reader : Text → Option α) (text : Text) : List α :=
  (tokenize text).filterMap (Token.read? reader)

end DialogScript
