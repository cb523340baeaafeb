import DialogScript.Proofs.BraceFree
import DialogScript.Proofs.TagKind

/-!
Role sections of a text whose placeholders are replaced: they are read as before, each with its
content resolved.
-/

namespace DialogScript

namespace Placeholder

/-- The token as it is read once its placeholder is replaced. -/
def settle (meaning : Text → Text) (token : Token) : Token :=
  match token.read? name? with
  | some name => .literal (meaning name)
  | none => token

theorem raw_settle (meaning : Text → Text) (token : Token) :
    (settle meaning token).raw = fill meaning token := by
  cases h : token.read? name? with
  | none => simp only [settle, fill, h]
  | some name => simp only [settle, fill, h, Token.raw]

theorem settle_cases (meaning : Text → Text) (token : Token) :
    (∃ name body, token = .tag body ∧ name? body = some name ∧
      settle meaning token = .literal (meaning name)) ∨
    (token.read? name? = none ∧ settle meaning token = token) := by
  cases token with
  | literal text => exact .inr ⟨rfl, rfl⟩
  | tag body =>
    cases h : name? body with
    | none => exact .inr ⟨h, by simp [settle, Token.read?, h]⟩
    | some name => exact .inl ⟨name, body, rfl, h, by simp [settle, Token.read?, h]⟩

theorem read?_settle (meaning : Text → Text) (token : Token) (reader : Text → Option α)
    (hreader : ∀ body name, name? body = some name → reader body = none) :
    (settle meaning token).read? reader = token.read? reader := by
  rcases settle_cases meaning token with ⟨name, body, rfl, hname, hs⟩ | ⟨-, hs⟩
  · rw [hs]
    exact (hreader body name hname).symm
  · rw [hs]

theorem read?_name?_settle (meaning : Text → Text) (token : Token) :
    (settle meaning token).read? name? = none := by
  rcases settle_cases meaning token with ⟨name, body, rfl, -, hs⟩ | ⟨hnone, hs⟩
  · rw [hs]
    rfl
  · rw [hs, hnone]

theorem mem_distinct (names : List Text) (name : Text) : name ∈ distinct names ↔ name ∈ names := by
  induction names with
  | nil => rfl
  | cons other rest ih =>
    rw [distinct, List.mem_cons, List.mem_filter, ih, List.mem_cons]
    by_cases h : name = other <;> simp [h]

theorem mem_referenced (ht : token ∈ tokenize text) (h : token.read? name? = some name) :
    name ∈ referenced text := by
  rw [referenced, mem_distinct]
  exact List.mem_filterMap.2 ⟨token, ht, h⟩

end Placeholder

def Message.resolved (meaning : Text → Text) (m : Message) : Message :=
  { m with content := (Placeholder.resolveWith meaning m.content).trim }

namespace Sections

def resolved (meaning : Text → Text) (s : Sections) : Sections where
  messages := s.messages.map (Message.resolved meaning)
  outside := Placeholder.resolveWith meaning s.outside
  current? := s.current?.map fun (role, content) => (role, Placeholder.resolveWith meaning content)

/-- More text can be added without a change to how the text so far is read. -/
structure Sealed (s : Sections) : Prop where
  outside : Closed s.outside
  current : ∀ role content, s.current? = some (role, content) → Closed content

theorem sealed_start : Sealed {} := ⟨closed_nil, nofun⟩

theorem Sealed.addText {s : Sections} (h : s.Sealed) (hraw : Closed raw) :
    (s.addText raw).Sealed := by
  obtain ⟨messages, outside, current?⟩ := s
  cases current? with
  | none => exact ⟨h.outside.append hraw, nofun⟩
  | some current =>
    refine ⟨h.outside, ?_⟩
    intro role content hc
    cases hc
    exact (h.current _ _ rfl).append hraw

theorem Sealed.resolved_addText {s : Sections} (h : s.Sealed) (meaning : Text → Text)
    (raw : Text) : (s.addText raw).resolved meaning =
      (s.resolved meaning).addText (Placeholder.resolveWith meaning raw) := by
  obtain ⟨messages, outside, current?⟩ := s
  cases current? with
  | none => simp [Sections.addText, resolved, h.outside.resolveWith_append]
  | some current =>
    simp [Sections.addText, resolved, (h.current _ _ rfl).resolveWith_append]

theorem step_of_read?_none (s : Sections) (h : token.read? RoleMarker.read? = none) :
    s.step token = some (s.addText token.raw) := by
  simp only [step, h]

theorem Sealed.step {s : Sections} (h : s.Sealed) (ht : token.IsClosed)
    (hs : s.step token = some s') : s'.Sealed := by
  simp only [Sections.step] at hs
  split at hs
  · cases hs
    exact h.addText ht.closed
  · cases hs
    refine ⟨h.outside, ?_⟩
    intro role content hc
    cases hc
    exact closed_nil
  · cases hs
    exact ⟨h.outside, nofun⟩
  · cases hs

theorem step_resolved_of_read?_some (s : Sections) (meaning : Text → Text)
    (h : token.read? RoleMarker.read? = some marker) :
    (s.resolved meaning).step token = (s.step token).map (resolved meaning) := by
  obtain ⟨messages, outside, current?⟩ := s
  simp only [Sections.step, h]
  cases marker with
  | opening role? => cases role? <;> cases current? <;> rfl
  | closing =>
    cases current? with
    | none => rfl
    | some current => simp [resolved, Message.resolved, trim_resolveWith_trim]

theorem Sealed.step_settle {s : Sections} (h : s.Sealed) (ht : token.IsClosed)
    (meaning : Text → Text) : (s.resolved meaning).step (Placeholder.settle meaning token) =
      (s.step token).map (resolved meaning) := by
  have hread := Placeholder.read?_settle meaning token RoleMarker.read? fun _ _ =>
    RoleMarker.read?_of_name?
  cases hm : token.read? RoleMarker.read? with
  | none =>
    rw [hm] at hread
    rw [step_of_read?_none _ hread, step_of_read?_none _ hm, Placeholder.raw_settle,
      ← ht.resolveWith_raw, Option.map_some, h.resolved_addText]
  | some marker =>
    rcases Placeholder.settle_cases meaning token with ⟨name, body, rfl, hname, hs⟩ | ⟨-, hs⟩
    -- a placeholder is no role marker
    · rw [Token.read?, RoleMarker.read?_of_name? hname] at hm
      cases hm
    · rw [hs]
      exact step_resolved_of_read?_some s meaning hm

theorem Sealed.foldlM {s : Sections} {tokens : List Token} (h : s.Sealed)
    (ht : ∀ token ∈ tokens, token.IsClosed) (hs : tokens.foldlM Sections.step s = some s') :
    s'.Sealed := by
  induction tokens generalizing s with
  | nil =>
    cases hs
    exact h
  | cons token rest ih =>
    rw [List.forall_mem_cons] at ht
    rw [List.foldlM_cons] at hs
    obtain ⟨mid, hmid, hrest⟩ := Option.bind_eq_some_iff.1 hs
    exact ih (h.step ht.1 hmid) ht.2 hrest

theorem Sealed.foldlM_settle {s : Sections} {tokens : List Token} (h : s.Sealed)
    (ht : ∀ token ∈ tokens, token.IsClosed) (meaning : Text → Text) :
    (tokens.map (Placeholder.settle meaning)).foldlM Sections.step (s.resolved meaning) =
      (tokens.foldlM Sections.step s).map (resolved meaning) := by
  induction tokens generalizing s with
  | nil => rfl
  | cons token rest ih =>
    rw [List.forall_mem_cons] at ht
    rw [List.map_cons, List.foldlM_cons, List.foldlM_cons, h.step_settle ht.1]
    cases hs : s.step token with
    | none => rfl
    | some s' => exact ih (h.step ht.1 hs) ht.2

theorem finish_resolved (s : Sections) (meaning : Text → Text) :
    (s.resolved meaning).finish = s.finish.map (List.map (Message.resolved meaning)) := by
  obtain ⟨messages, outside, current?⟩ := s
  have hany : (messages.map (Message.resolved meaning)).any (fun m => m.role = .user) =
      messages.any fun m => m.role = .user := by
    rw [List.any_map]
    rfl
  simp only [finish, resolved, Option.isSome_map, List.isEmpty_map, hany]
  split
  · rfl
  · split
    · rfl
    · simp [Message.resolved, trim_resolveWith_trim]

theorem foldlM_tokenize_of_noOpen (s : Sections) (h : Text.NoPair '{' last) :
    (tokenize last).foldlM step s = some (s.addText last) := by
  rw [tokenize_of_noOpen h, foldlM_push, List.foldlM_cons, step_literal]
  rfl

end Sections

end DialogScript
