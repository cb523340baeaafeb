import DialogScript.Text

namespace DialogScript

/-- Who speaks a message. -/
inductive Role
  | system
  | user
  | assistant
deriving DecidableEq, Repr

namespace Role

def name : Role → Text
  | system => "system".toList
  | user => "user".toList
  | assistant => "assistant".toList

def ofName? (name : Text) : Option Role :=
  [system, user, assistant].find? fun role => role.name = name

end Role

structure Message where
  role : Role
  content : Text
deriving DecidableEq, Repr

/-- A list of messages, oldest first. -/
abbrev Conversation := List Message

end DialogScript
