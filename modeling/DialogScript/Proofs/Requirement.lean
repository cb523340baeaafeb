import DialogScript.Proofs.Coverage

/-!
Which required names are reported as missing. Each definition is judged by its own default, while
the text of a name is later looked up among the defaults of all definitions.
-/

namespace DialogScript

namespace Definition

/-- The name is supplied, or some definition has a default for it. -/
def HasText (definitions : List Definition) (supplied : Table Text) (name : Text) : Prop :=
  name ∈ supplied.names ∨ name ∈ (defaults definitions).names

/-- A required definition whose name has no text at all. -/
structure Missing (definitions : List Definition) (supplied : Table Text) (d : Definition) :
    Prop where
  required : d.required = true
  noText : ¬ HasText definitions supplied d.name

/-- The definition is the first of its kind. -/
def First (kind : Definition → Prop) (definitions : List Definition) (d : Definition) : Prop :=
  ∃ before later, definitions = before ++ d :: later ∧ (∀ d' ∈ before, ¬ kind d') ∧ kind d

theorem First.congr {kind kind' : Definition → Prop}
    (h : ∀ d ∈ definitions, kind d ↔ kind' d) (hd : First kind definitions d) :
    First kind' definitions d := by
  obtain ⟨before, later, rfl, hbefore, hd⟩ := hd
  refine ⟨before, later, rfl, ?_, ?_⟩
  · intro d' hm hkind
    exact hbefore d' hm ((h d' (List.mem_append_left _ hm)).2 hkind)
  · exact (h d (List.mem_append_right _ List.mem_cons_self)).1 hd

/-- A default is a text for its name, so no other definition is needed to meet one that has it. -/
theorem Missing.unmet {definitions : List Definition} {supplied : Table Text} {d : Definition}
    (h : Missing definitions supplied d) (hd : d ∈ definitions) : d.Unmet supplied where
  required := h.required
  noDefault := by
    by_contra hdefault
    exact h.noText (.inr (mem_names_defaults.2 ⟨d, hd, rfl, hdefault⟩))
  notSupplied hm := h.noText (.inl hm)

theorem Unmet.missing {supplied : Table Text} {d : Definition} (h : d.Unmet supplied)
    (hd : d.name ∉ (defaults definitions).names) : Missing definitions supplied d where
  required := h.required
  noText ht := ht.elim h.notSupplied hd

/-- The check passes exactly if every required name has a text, and fails with the first that has
none. -/
structure CheckedByName (definitions : List Definition) (supplied : Table Text) : Prop where
  ok : validateRequired definitions supplied = .ok () ↔
    ∀ d ∈ definitions, d.required = true → HasText definitions supplied d.name
  error : ∀ name, validateRequired definitions supplied = .error (.missingRequired name) ↔
    ∃ d, First (Missing definitions supplied) definitions d ∧ d.name = name

theorem forall_hasText_iff {definitions : List Definition} {supplied : Table Text} :
    (∀ d ∈ definitions, d.required = true → HasText definitions supplied d.name) ↔
      ∀ d ∈ definitions, ¬ Missing definitions supplied d := by
  constructor
  · intro h d hd hmissing
    exact hmissing.noText (h d hd hmissing.required)
  · intro h d hd hrequired
    by_contra hnone
    exact h d hd ⟨hrequired, hnone⟩

end Definition

theorem validateRequired_eq_ok_iff {definitions : List Definition} {supplied : Table Text} :
    validateRequired definitions supplied = .ok () ↔ ∀ d ∈ definitions, ¬ d.Unmet supplied := by
  constructor
  · exact validateRequired_ok
  · intro h
    cases hvalid : validateRequired definitions supplied with
    | ok => rfl
    | error cause =>
      obtain ⟨before, d, later, rfl, -, hunmet, -⟩ := validateRequired_error hvalid
      exact (h d (List.mem_append_right _ List.mem_cons_self) hunmet).elim

theorem validateRequired_eq_error_iff {definitions : List Definition} {supplied : Table Text} :
    validateRequired definitions supplied = .error (.missingRequired name) ↔
      ∃ d, Definition.First (Definition.Unmet supplied) definitions d ∧ d.name = name := by
  constructor
  · intro h
    obtain ⟨before, d, later, hsplit, hbefore, hunmet, hcause⟩ := validateRequired_error h
    cases hcause
    exact ⟨d, ⟨before, later, hsplit, hbefore, hunmet⟩, rfl⟩
  · rintro ⟨d, ⟨before, later, hsplit, hbefore, hunmet⟩, rfl⟩
    have hfind : definitions.find? (fun d =>
        d.required && d.defaultValue.isNone && (supplied.get? d.name).isNone) = some d := by
      rw [List.find?_eq_some_iff_append]
      refine ⟨Definition.unmet_iff.2 hunmet, before, later, hsplit, ?_⟩
      intro d' hm
      rw [Bool.not_eq_true', ← Bool.not_eq_true, Definition.unmet_iff]
      exact hbefore d' hm
    rw [validateRequired, hfind]

namespace Definition

/-- Where no required definition leaves its default to another one, a definition is unmet exactly
if its name has no text. -/
theorem checkedByName_of_own {definitions : List Definition}
    (h : ∀ d ∈ definitions, d.required = true → d.defaultValue = none →
      d.name ∉ (defaults definitions).names) (supplied : Table Text) :
    CheckedByName definitions supplied := by
  have hkind : ∀ d ∈ definitions, d.Unmet supplied ↔ Missing definitions supplied d := by
    intro d hd
    constructor
    · intro hunmet
      exact hunmet.missing (h d hd hunmet.required hunmet.noDefault)
    · intro hmissing
      exact hmissing.unmet hd
  constructor
  · rw [validateRequired_eq_ok_iff, forall_hasText_iff]
    exact forall₂_congr fun d hd => not_congr (hkind d hd)
  · intro name
    rw [validateRequired_eq_error_iff]
    apply exists_congr
    intro d
    apply and_congr_left'
    exact ⟨First.congr hkind, First.congr fun d hd => (hkind d hd).symm⟩

/-- Supplying all other names leaves the definition as the only one that can be unmet. -/
theorem not_checkedByName {definitions : List Definition} {d : Definition} (hd : d ∈ definitions)
    (hrequired : d.required = true) (hnone : d.defaultValue = none)
    (hdefault : d.name ∈ (defaults definitions).names) :
    ∃ supplied, ¬ CheckedByName definitions supplied := by
  let others := (definitions.map name).filter fun name => name ≠ d.name
  have hothers (other : Text) :
      other ∈ Table.names (others.map fun name => (name, ([] : Text))) ↔ other ∈ others := by
    rw [Table.names, List.map_map]
    exact iff_of_eq (congrArg (other ∈ ·) (List.map_id others))
  refine ⟨others.map fun name => (name, []), ?_⟩
  intro h
  have hunmet : d.Unmet (others.map fun name => (name, [])) := by
    refine ⟨hrequired, hnone, ?_⟩
    rw [hothers, List.mem_filter]
    simp
  apply validateRequired_eq_ok_iff.1 (h.ok.2 ?_) d hd hunmet
  intro d' hd' _
  by_cases he : d'.name = d.name
  · rw [he]
    exact .inr hdefault
  · left
    rw [hothers, List.mem_filter]
    exact ⟨List.mem_map_of_mem hd', by simpa using he⟩

end Definition

/-- Definitions are checked one by one: the first is reported that is required, has no default of
its own and is not supplied. All required names of a list that passes have a text. The check of the
names themselves comes to the same for all supplied values exactly if no required definition
leaves its default to another definition of its name. -/
theorem validateRequired_names (definitions : List Definition) :
    (∀ supplied, validateRequired definitions supplied = .ok () ↔
      ∀ d ∈ definitions, ¬ d.Unmet supplied) ∧
    (∀ supplied name, validateRequired definitions supplied = .error (.missingRequired name) ↔
      ∃ d, Definition.First (Definition.Unmet supplied) definitions d ∧ d.name = name) ∧
    (∀ supplied, validateRequired definitions supplied = .ok () →
      ∀ d ∈ definitions, d.required = true → Definition.HasText definitions supplied d.name) ∧
    ((∀ supplied, Definition.CheckedByName definitions supplied) ↔
      ∀ d ∈ definitions, d.required = true → d.defaultValue = none →
        d.name ∉ (Definition.defaults definitions).names) := by
  refine ⟨fun _ => validateRequired_eq_ok_iff, fun _ _ => validateRequired_eq_error_iff, ?_, ?_⟩
  · intro supplied hvalid
    rw [Definition.forall_hasText_iff]
    intro d hd hmissing
    exact validateRequired_ok hvalid d hd (hmissing.unmet hd)
  · constructor
    · intro h d hd hrequired hnone hdefault
      obtain ⟨supplied, hnot⟩ := Definition.not_checkedByName hd hrequired hnone hdefault
      exact hnot (h supplied)
    · exact Definition.checkedByName_of_own

/-- A name is reported to have no default though a later definition has one, which takes its place
in the text. -/
theorem validateRequired_other_default :
    let definitions : List Definition := [.mandatory ['a'], .optional ['a'] "calm".toList]
    validateRequired definitions [] = .error (.missingRequired ['a']) ∧
    ['a'] ∈ (Definition.defaults definitions).names ∧
    Placeholder.resolve [] (Definition.defaults definitions) (Token.tag ['a']).raw =
      "calm".toList ∧
    ¬ Definition.CheckedByName definitions [] := by
  intro definitions
  have herror : validateRequired definitions [] = .error (.missingRequired ['a']) := rfl
  have hdefault : ['a'] ∈ (Definition.defaults definitions).names := by decide
  refine ⟨herror, hdefault, rfl, ?_⟩
  intro h
  obtain ⟨d, ⟨-, -, -, -, hmissing⟩, hname⟩ := (h.error ['a']).1 herror
  apply hmissing.noText
  rw [hname]
  exact .inr hdefault

end DialogScript
