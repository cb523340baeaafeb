import DialogScript.Message
import DialogScript.Text.Blank
import DialogScript.Token

/-! Role sections `{{#role=system}} ... {{/role}}`: one block's text as several messages. -/

namespace DialogScript

/-- A tag body that marks a role section; an opening may name a role that does not exist. -/
inductive RoleMarker
  | opening (role? : Option Role)
  | closing
deriving DecidableEq, Repr

def RoleMarker.read? (body : Text) : Option RoleMarker :=
  if body.trim = "/role".toList then some .closing
  else
    ("#role=".toList.isPrefixOf? body.trim).map fun name =>
      .opening (Role.ofName? (Text.trim name))

/-- What has been read of a text with role sections. -/
structure Sections where
  messages : List Message := []
  outside : Text := []
  current? : Option (Role × Text) := none
deriving DecidableEq, Repr

namespace Sections

def addText (s : Sections) (raw : Text) : Sections :=
  match s.current? with
  | none => { s with outside := s.outside ++ raw }
  | some (role, content) => { s with current? := some (role, content ++ raw) }

/-- Sections do not nest, and only an open one can be closed. -/
def step (s : Sections) (token : Token) : Option Sections :=
  match token.read? RoleMarker.read?, s.current? with
  | none, _ => some (s.addText token.raw)
  | some (.opening (some role)), none => some { s with current? := some (role, []) }
  | some .closing, some (role, content) =>
    some { s with messages := s.messages ++ [⟨role, content.trim⟩], current? := none }
  | some _, _ => none

/-- There must be a section and none may be open; without a user's message the rest becomes one. -/
def finish (s : Sections) : Option (List Message) :=
  if s.current?.isSome || s.messages.isEmpty then none
  else if s.messages.any fun m => m.role = .user then some s.messages
  else some (s.messages ++ [⟨.user, s.outside.trim⟩])

end Sections

/-- The messages of a text with well-formed role sections. -/
def splitSections? (text : Text) : Option (List Message) :=
  ((tokenize text).foldlM Sections.step {}).bind Sections.finish

/-- What a block's text adds to the conversation; only the first block may have role sections. -/
def blockMessages (first : Bool) (text : Text) : List Message :=
  match if first then splitSections? text else none with
  | some messages => messages
  | none => [⟨.user, text⟩]

end DialogScript
