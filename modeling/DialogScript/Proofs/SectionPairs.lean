import DialogScript.Proofs.Attribute
import DialogScript.Proofs.Outline
import DialogScript.Proofs.SectionFill
import DialogScript.Proofs.Stretch

/-!
Role sections as pairs of markers. A text has sections exactly when its markers come in pairs, an
opening of a known role and then a closing; each pair is one message.
-/

namespace DialogScript

theorem Role.ofName?_eq_some_iff {word : Text} {role : Role} :
    ofName? word = some role ↔ word = role.name := by
  apply Text.find?_word_eq_some_iff
  intro role
  cases role with
  | system => rfl
  | user => rfl
  | assistant => rfl

namespace RoleMarker

/-- What a trimmed tag body says as a marker. A role's name is trimmed once more. -/
inductive Marks (body : Text) : RoleMarker → Prop
  | closing (h : body.trim = "/role".toList) : Marks body .closing
  | opening (h : body.trim = "#role=".toList ++ word) (hrole : Text.trim word = role.name) :
    Marks body (.opening (some role))
  | unknown (h : body.trim = "#role=".toList ++ word)
      (hrole : ∀ role : Role, Text.trim word ≠ role.name) : Marks body (.opening none)

theorem marks_of_read? (h : read? body = some marker) : Marks body marker := by
  rw [read?] at h
  split at h
  · rename_i hbody
    cases h
    exact .closing hbody
  · obtain ⟨word, hprefix, rfl⟩ := Option.map_eq_some_iff.1 h
    have hbody := (List.append_eq_of_isPrefixOf?_eq_some hprefix).symm
    cases hrole : Role.ofName? (Text.trim word) with
    | some role => exact .opening hbody (Role.ofName?_eq_some_iff.1 hrole)
    | none =>
      apply Marks.unknown hbody
      intro role hname
      rw [Role.ofName?_eq_some_iff.2 hname] at hrole
      cases hrole

theorem read?_of_trim {body word : Text} (h : body.trim = "#role=".toList ++ word) :
    read? body = some (.opening (Role.ofName? word.trim)) := by
  have hclosing : "#role=".toList ++ word ≠ "/role".toList := by
    intro he
    cases he
  have hprefix : "#role=".toList.isPrefixOf? ("#role=".toList ++ word) = some word := by
    rw [List.isPrefixOf?_eq_some_iff_append_eq]
  rw [read?, h, if_neg hclosing, hprefix]
  rfl

theorem read?_eq_some_iff : read? body = some marker ↔ Marks body marker := by
  constructor
  · exact marks_of_read?
  · intro h
    cases h with
    | closing h => rw [read?, if_pos h]
    | opening h hrole => rw [read?_of_trim h, Role.ofName?_eq_some_iff.2 hrole]
    | @unknown word h hrole =>
      have hnone : Role.ofName? (Text.trim word) = none := by
        rw [Option.eq_none_iff_forall_ne_some]
        intro role hname
        exact hrole role (Role.ofName?_eq_some_iff.1 hname)
      rw [read?_of_trim h, hnone]

/-- The markers around a section. -/
def pair (role : Role) : List RoleMarker := [.opening (some role), .closing]

end RoleMarker

/-- A section among tokens, with what stands in front of it. -/
structure RoleSection where
  before : List Token
  opening : Text
  role : Role
  content : List Token
  closing : Text

namespace RoleSection

def tokens (p : RoleSection) : List Token :=
  p.before ++ .tag p.opening :: (p.content ++ [.tag p.closing])

/-- There are no markers but the two around the content. -/
structure Valid (p : RoleSection) : Prop where
  before : Unread RoleMarker.read? p.before
  opens : RoleMarker.read? p.opening = some (.opening (some p.role))
  content : Unread RoleMarker.read? p.content
  closes : RoleMarker.read? p.closing = some .closing

def message (p : RoleSection) : Message := ⟨p.role, Text.trim (p.content.flatMap Token.raw)⟩

end RoleSection

/-- Tokens are sections and a rest without markers. -/
structure Sectioned (tokens : List Token) (sections : List RoleSection) (after : List Token) :
    Prop where
  eq : tokens = sections.flatMap RoleSection.tokens ++ after
  valid : ∀ p ∈ sections, p.Valid
  unread : Unread RoleMarker.read? after

/-- The text that stands in no section. -/
def outside (sections : List RoleSection) (after : List Token) : Text :=
  (sections.flatMap RoleSection.before ++ after).flatMap Token.raw

/-- A message for each section, and the user's from outside if no section is the user's. -/
def sectionMessages (sections : List RoleSection) (after : List Token) : List Message :=
  sections.map RoleSection.message ++
    if sections.any fun p => p.role = .user then [] else [⟨.user, (outside sections after).trim⟩]

namespace Sections

theorem foldlM_unread (h : Unread RoleMarker.read? tokens) (s : Sections) :
    tokens.foldlM step s = some (s.addText (tokens.flatMap Token.raw)) := by
  induction tokens generalizing s with
  | nil => exact congrArg some s.addText_nil.symm
  | cons token rest ih =>
    rw [Unread, List.forall_mem_cons] at h
    rw [List.foldlM_cons, s.step_of_read?_none h.1, List.flatMap_cons, addText_append]
    exact ih h.2 _

/-- Between sections, reading one adds its message and leaves none open. -/
theorem foldlM_section {p : RoleSection} (h : p.Valid) (messages : List Message) (before : Text) :
    p.tokens.foldlM step ⟨messages, before, none⟩ =
      some ⟨messages ++ [p.message], before ++ p.before.flatMap Token.raw, none⟩ := by
  have hopen (o : Text) : step ⟨messages, o, none⟩ (.tag p.opening) =
      some ⟨messages, o, some (p.role, [])⟩ := by
    simp only [step, Token.read?, h.opens]
  have hclose (o content : Text) : step ⟨messages, o, some (p.role, content)⟩ (.tag p.closing) =
      some ⟨messages ++ [⟨p.role, content.trim⟩], o, none⟩ := by
    simp only [step, Token.read?, h.closes]
  simp only [RoleSection.tokens, List.foldlM_append, List.foldlM_cons, List.foldlM_nil,
    foldlM_unread h.before, foldlM_unread h.content, addText, hopen, hclose, Option.bind_eq_bind,
    Option.bind_some, List.nil_append, RoleSection.message]
  rfl

theorem foldlM_sections {sections : List RoleSection} (h : ∀ p ∈ sections, p.Valid)
    (messages : List Message) (before : Text) :
    (sections.flatMap RoleSection.tokens).foldlM step ⟨messages, before, none⟩ =
      some ⟨messages ++ sections.map RoleSection.message,
        before ++ (sections.flatMap RoleSection.before).flatMap Token.raw, none⟩ := by
  induction sections generalizing messages before with
  | nil => simp
  | cons p sections ih =>
    rw [List.forall_mem_cons] at h
    rw [List.flatMap_cons, List.foldlM_append, foldlM_section h.1, Option.bind_eq_bind,
      Option.bind_some, ih h.2]
    simp

end Sections

theorem Sectioned.splitSections? {sections : List RoleSection}
    (h : Sectioned (tokenize text) sections after) (hne : sections ≠ []) :
    splitSections? text = some (sectionMessages sections after) := by
  have houtside : outside sections after =
      (sections.flatMap RoleSection.before).flatMap Token.raw ++ after.flatMap Token.raw :=
    List.flatMap_append
  have hsome : (sections.map RoleSection.message).isEmpty = false := by simpa using hne
  have huser : (sections.map RoleSection.message).any (fun m => m.role = .user) =
      sections.any fun p => p.role = .user := by
    rw [List.any_map]
    rfl
  rw [DialogScript.splitSections?, h.eq, List.foldlM_append, Sections.foldlM_sections h.valid,
    Option.bind_eq_bind, Option.bind_some, Sections.foldlM_unread h.unread, Option.bind_some]
  simp only [Sections.addText, Sections.finish, Option.isSome_none, List.nil_append, hsome, huser,
    Bool.or_self, Bool.false_eq_true, if_false, sectionMessages, houtside]
  split
  · rw [List.append_nil]
  · rfl

/-- Markers that leave no section open come in pairs. -/
theorem exists_pairs {marks : List RoleMarker}
    (h : marks.foldlM Sections.Outline.step ⟨roles, none⟩ = some ⟨roles', none⟩) :
    ∃ added, marks = added.flatMap RoleMarker.pair ∧ roles' = roles ++ added := by
  match marks, h with
  | [], h =>
    cases h
    exact ⟨[], rfl, (List.append_nil _).symm⟩
  | [.opening (some role)], h => cases h
  | .opening (some role) :: .closing :: rest, h =>
    have hrest : rest.foldlM Sections.Outline.step ⟨roles ++ [role], none⟩ =
        some ⟨roles', none⟩ := h
    obtain ⟨added, rfl, rfl⟩ := exists_pairs hrest
    exact ⟨role :: added, rfl, List.append_assoc _ _ _⟩

theorem exists_sectioned {tokens : List Token} {roles : List Role}
    (h : tokens.filterMap (Token.read? RoleMarker.read?) = roles.flatMap RoleMarker.pair) :
    ∃ sections after, Sectioned tokens sections after ∧ sections.map RoleSection.role = roles := by
  have tag {token : Token} {marker : RoleMarker}
      (hread : token.read? RoleMarker.read? = some marker) :
      ∃ body, token = .tag body ∧ RoleMarker.read? body = some marker := by
    cases token with
    | literal text => cases hread
    | tag body => exact ⟨body, rfl, hread⟩
  induction roles generalizing tokens with
  | nil => exact ⟨[], tokens, ⟨rfl, by simp, List.filterMap_eq_nil_iff.1 h⟩, rfl⟩
  | cons role roles ih =>
    obtain ⟨before, opening, rest, rfl, hbefore, hopening, hrest⟩ := List.filterMap_eq_cons_iff.1 h
    obtain ⟨content, closing, tokens, rfl, hcontent, hclosing, htokens⟩ :=
      List.filterMap_eq_cons_iff.1 hrest
    obtain ⟨open', rfl, hopens⟩ := tag hopening
    obtain ⟨close', rfl, hcloses⟩ := tag hclosing
    obtain ⟨sections, after, ⟨rfl, hvalid, hafter⟩, rfl⟩ := ih htokens
    refine ⟨⟨before, open', role, content, close'⟩ :: sections, after, ⟨?_, ?_, hafter⟩, rfl⟩
    · simp [RoleSection.tokens]
    · rw [List.forall_mem_cons]
      exact ⟨⟨hbefore, hopens, hcontent, hcloses⟩, hvalid⟩

theorem Sections.Outline.finish_cases {o : Outline} {said : List Role} (h : o.finish = some said) :
    o.current? = none ∧ o.roles ≠ [] := by
  rw [finish] at h
  split at h
  · cases h
  · rename_i hopen
    rw [Bool.or_eq_true, not_or, Option.not_isSome_iff_eq_none, List.isEmpty_iff] at hopen
    exact hopen

/-- Where a text has sections, its markers come in pairs. -/
theorem exists_pairs_of_splitSections? (h : splitSections? text = some messages) :
    ∃ roles, roles ≠ [] ∧ findTags RoleMarker.read? text = roles.flatMap RoleMarker.pair := by
  have hroles := roles_splitSections? text
  rw [h, Option.map_some] at hroles
  obtain ⟨⟨roles, current?⟩, hfold, hfinish⟩ := Option.bind_eq_some_iff.1 hroles.symm
  obtain ⟨rfl, hne⟩ := Sections.Outline.finish_cases hfinish
  obtain ⟨added, hmarks, hroles⟩ := exists_pairs hfold
  rw [hroles] at hne
  exact ⟨added, hne, hmarks⟩

theorem exists_sectioned_of_pairs {roles : List Role} (hne : roles ≠ [])
    (h : findTags RoleMarker.read? text = roles.flatMap RoleMarker.pair) :
    ∃ sections after, sections ≠ [] ∧ Sectioned (tokenize text) sections after := by
  obtain ⟨sections, after, hsectioned, rfl⟩ := exists_sectioned h
  exact ⟨sections, after, fun he => hne (congrArg (List.map RoleSection.role) he), hsectioned⟩

theorem user_mem_sectionMessages (sections : List RoleSection) (after : List Token) :
    ∃ m ∈ sectionMessages sections after, m.role = .user := by
  rw [sectionMessages]
  split
  · rename_i huser
    obtain ⟨p, hp, hrole⟩ := List.any_eq_true.1 huser
    rw [List.append_nil]
    exact ⟨p.message, List.mem_map_of_mem hp, of_decide_eq_true hrole⟩
  · exact ⟨_, List.mem_concat_self, rfl⟩

/-- The meaning of role sections. A text is split exactly when its markers are one or more pairs;
there is one message for each pair, and the user's from outside if no pair is the user's. Any other
text is one message of the user, as every text of a later block is, so the user always speaks. -/
theorem splitSections?_sectioned (text : Text) :
    (∀ body marker, RoleMarker.read? body = some marker ↔ RoleMarker.Marks body marker) ∧
    ((splitSections? text).isSome ↔ ∃ roles, roles ≠ [] ∧
      findTags RoleMarker.read? text = roles.flatMap RoleMarker.pair) ∧
    (∀ messages, splitSections? text = some messages ↔
      ∃ sections after, sections ≠ [] ∧ Sectioned (tokenize text) sections after ∧
        messages = sectionMessages sections after) ∧
    blockMessages true text = (splitSections? text).getD [⟨.user, text⟩] ∧
    blockMessages false text = [⟨.user, text⟩] ∧
    ∀ first, ∃ m ∈ blockMessages first text, m.role = .user := by
  have hsplit (messages : List Message) : splitSections? text = some messages ↔
      ∃ sections after, sections ≠ [] ∧ Sectioned (tokenize text) sections after ∧
        messages = sectionMessages sections after := by
    constructor
    · intro h
      obtain ⟨roles, hne, hmarks⟩ := exists_pairs_of_splitSections? h
      obtain ⟨sections, after, hne, hsectioned⟩ := exists_sectioned_of_pairs hne hmarks
      rw [hsectioned.splitSections? hne] at h
      exact ⟨sections, after, hne, hsectioned, (Option.some.inj h).symm⟩
    · rintro ⟨sections, after, hne, hsectioned, rfl⟩
      exact hsectioned.splitSections? hne
  have hfirst : blockMessages true text = (splitSections? text).getD [⟨.user, text⟩] := by
    rw [blockMessages, if_pos rfl]
    cases splitSections? text <;> rfl
  refine ⟨fun _ _ => RoleMarker.read?_eq_some_iff, ?_, hsplit, hfirst, rfl, ?_⟩
  · constructor
    · intro h
      obtain ⟨messages, hm⟩ := Option.isSome_iff_exists.1 h
      exact exists_pairs_of_splitSections? hm
    · rintro ⟨roles, hne, hmarks⟩
      obtain ⟨sections, after, hne, hsectioned⟩ := exists_sectioned_of_pairs hne hmarks
      rw [hsectioned.splitSections? hne]
      rfl
  · intro first
    cases first with
    | false => exact ⟨_, List.mem_cons_self, rfl⟩
    | true =>
      rw [hfirst]
      cases hs : splitSections? text with
      | none => exact ⟨_, List.mem_cons_self, rfl⟩
      | some messages =>
        obtain ⟨sections, after, -, -, rfl⟩ := (hsplit messages).1 hs
        exact user_mem_sectionMessages sections after

end DialogScript
