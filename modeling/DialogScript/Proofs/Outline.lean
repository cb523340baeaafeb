import DialogScript.Message.Section

/-! The roles of the messages of a text, read off its role markers alone. -/

namespace DialogScript

namespace Sections

/-- Sections without what is said in them. -/
structure Outline where
  roles : List Role
  current? : Option Role

namespace Outline

def step (o : Outline) (marker : RoleMarker) : Option Outline :=
  match marker, o.current? with
  | .opening (some role), none => some { o with current? := some role }
  | .closing, some role => some ⟨o.roles ++ [role], none⟩
  | _, _ => none

def finish (o : Outline) : Option (List Role) :=
  if o.current?.isSome || o.roles.isEmpty then none
  else if o.roles.any fun role => role = .user then some o.roles
  else some (o.roles ++ [.user])

end Outline

def outline (s : Sections) : Outline := ⟨s.messages.map Message.role, s.current?.map Prod.fst⟩

theorem outline_addText (s : Sections) (raw : Text) : (s.addText raw).outline = s.outline := by
  obtain ⟨messages, outside, current?⟩ := s
  cases current? <;> rfl

theorem outline_step (s : Sections) (token : Token) :
    (s.step token).map outline =
      match token.read? RoleMarker.read? with
      | none => some s.outline
      | some marker => s.outline.step marker := by
  obtain ⟨messages, outside, current?⟩ := s
  cases h : token.read? RoleMarker.read? with
  | none =>
    simp only [step, h, Option.map_some, outline_addText]
  | some marker =>
    simp only [step, h]
    cases marker with
    | opening role? => cases role? <;> cases current? <;> rfl
    | closing =>
      cases current? with
      | none => rfl
      | some current => simp [outline, Outline.step]

theorem outline_foldlM (s : Sections) (tokens : List Token) :
    (tokens.foldlM step s).map outline =
      (tokens.filterMap (Token.read? RoleMarker.read?)).foldlM Outline.step s.outline := by
  induction tokens generalizing s with
  | nil => rfl
  | cons token rest ih =>
    have hs := s.outline_step token
    rw [List.foldlM_cons, List.filterMap_cons]
    cases h : token.read? RoleMarker.read? with
    | none =>
      rw [h] at hs
      obtain ⟨s', hs', ho⟩ := Option.map_eq_some_iff.1 hs
      simp only [hs', Option.bind_eq_bind, Option.bind_some, ih, ho]
    | some marker =>
      rw [h] at hs
      simp only [List.foldlM_cons, ← hs]
      cases hs' : s.step token with
      | none => rfl
      | some s' => exact ih s'

theorem outline_finish (s : Sections) :
    s.finish.map (List.map Message.role) = s.outline.finish := by
  obtain ⟨messages, outside, current?⟩ := s
  simp only [finish, outline, Outline.finish, Option.isSome_map, List.isEmpty_map, List.any_map,
    Function.comp_def]
  split
  · rfl
  · split
    · rfl
    · simp

end Sections

theorem roles_splitSections? (text : Text) :
    (splitSections? text).map (List.map Message.role) =
      ((findTags RoleMarker.read? text).foldlM Sections.Outline.step ⟨[], none⟩).bind
        Sections.Outline.finish := by
  have hfold := Sections.outline_foldlM {} (tokenize text)
  rw [splitSections?, findTags]
  change _ = (((tokenize text).filterMap (Token.read? RoleMarker.read?)).foldlM
    Sections.Outline.step (Sections.outline {})).bind _
  rw [← hfold]
  cases (tokenize text).foldlM Sections.step {} with
  | none => rfl
  | some s => exact s.outline_finish

theorem roles_blockMessages (first : Bool) (text : Text) :
    (blockMessages first text).map Message.role =
      if first then ((splitSections? text).map (List.map Message.role)).getD [.user]
      else [.user] := by
  rw [blockMessages]
  cases first with
  | false => rfl
  | true => cases splitSections? text <;> rfl

/-- Texts with the same role markers are said by the same roles. -/
theorem roles_blockMessages_congr (h : findTags RoleMarker.read? a = findTags RoleMarker.read? b)
    (first : Bool) : (blockMessages first a).map Message.role =
      (blockMessages first b).map Message.role := by
  rw [roles_blockMessages, roles_blockMessages, roles_splitSections?, roles_splitSections?, h]

end DialogScript
