import DialogScript.Message

namespace DialogScript

/-- What answers a conversation, given the conversations that it was sent before. -/
abbrev Generator := List Conversation → Conversation → Except Text Text

namespace Generator

/-- The replies that are left after some requests, each of which took the first one. -/
def left (replies : List Text) (requests : List Conversation) : List Text :=
  requests.foldl (fun queue _ => queue.tail) replies

/-- Hands out replies one by one. -/
def scripted (replies : List Text) : Generator := fun earlier _ =>
  match left replies earlier with
  | reply :: _ => .ok reply
  | [] => .error "scripted generator has no replies left".toList

/-- How many scripted replies are left after some requests. -/
def remaining (replies : List Text) (requests : List Conversation) : Nat :=
  (left replies requests).length

theorem left_eq_drop (replies : List Text) (requests : List Conversation) :
    left replies requests = replies.drop requests.length := by
  induction requests generalizing replies with
  | nil => rfl
  | cons request rest ih => exact (ih replies.tail).trans List.drop_tail

theorem remaining_eq (replies : List Text) (requests : List Conversation) :
    remaining replies requests = replies.length - requests.length := by
  rw [remaining, left_eq_drop, List.length_drop]

/-- Repeats the last message that is not empty, behind a prefix. -/
def echo (lead : Text) : Generator := fun _ conversation =>
  match conversation.reverse.find? fun m => !m.content.isEmpty with
  | some m => .ok (lead ++ m.content)
  | none => .error "nothing to echo".toList

/-- Answers by a function of the conversation alone. -/
def ofFunction (reply : Conversation → Except Text Text) : Generator := fun _ conversation =>
  reply conversation

end Generator

end DialogScript
