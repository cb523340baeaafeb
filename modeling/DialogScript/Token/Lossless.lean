import DialogScript.Token

namespace DialogScript

namespace Scan

/-- The text read so far. -/
def consumed (s : Scan) : Text :=
  s.tokens.reverse.flatMap Token.raw ++ s.text.reverse ++
    match s.body? with
    | none => []
    | some body => '{' :: '{' :: body.reverse

theorem flatMap_raw_closeText (s : Scan) :
    s.closeText.reverse.flatMap Token.raw =
      s.tokens.reverse.flatMap Token.raw ++ s.text.reverse := by
  unfold closeText
  split
  · rename_i h
    simp [List.isEmpty_iff.mp h]
  · simp [Token.raw]

theorem consumed_step (s : Scan) (c : Char) : (s.step c).consumed = s.consumed ++ [c] := by
  obtain ⟨tokens, text, body?⟩ := s
  have close := flatMap_raw_closeText ⟨tokens, text, body?⟩
  cases body? with
  | none =>
    simp only [step]
    split <;> simp_all [consumed]
  | some body =>
    simp only [step]
    split <;> simp_all [consumed, Token.raw]

theorem flatMap_raw_finish (s : Scan) : s.finish.flatMap Token.raw = s.consumed := by
  obtain ⟨tokens, text, body?⟩ := s
  cases body? with
  | none => simp [finish, flatMap_raw_closeText, consumed]
  | some body => simp [finish, flatMap_raw_closeText, consumed]

theorem consumed_foldl (s : Scan) (text : Text) :
    (text.foldl step s).consumed = s.consumed ++ text := by
  induction text generalizing s with
  | nil => simp
  | cons c rest ih => simp [ih, consumed_step]

end Scan

/-- Tokens lose nothing of the text. -/
theorem flatMap_raw_tokenize (text : Text) : (tokenize text).flatMap Token.raw = text := by
  rw [tokenize, Scan.flatMap_raw_finish, Scan.consumed_foldl]
  rfl

end DialogScript
