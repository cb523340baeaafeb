import DialogScript.Placeholder
import DialogScript.Proofs.BlockCut

/-! What is checked before a run: that output names differ and that required names have a text. -/

namespace DialogScript

/-- The name repeats an earlier one, and the names before it do not. -/
def RepeatsFirst (names : List Text) (name : Text) : Prop :=
  ∃ before after, names = before ++ name :: after ∧ before.Nodup ∧ name ∈ before

theorem nodup_of_firstRepeat? (h : firstRepeat? seen names = none) :
    names.Nodup ∧ names.Disjoint seen := by
  induction names generalizing seen with
  | nil => exact ⟨List.nodup_nil, List.disjoint_nil_left seen⟩
  | cons name rest ih =>
    rw [firstRepeat?] at h
    split at h
    · cases h
    · rename_i hname
      obtain ⟨hnodup, hrest⟩ := ih h
      rw [List.disjoint_cons_right] at hrest
      rw [List.nodup_cons, List.disjoint_cons_left]
      exact ⟨⟨hrest.1, hnodup⟩, hname, hrest.2⟩

theorem repeats_of_firstRepeat? (h : firstRepeat? seen names = some name) :
    ∃ before after, names = before ++ name :: after ∧ before.Nodup ∧ before.Disjoint seen ∧
      (name ∈ before ∨ name ∈ seen) := by
  -- on the names that are left; those passed so far are among the seen ones
  induction names generalizing seen with
  | nil => cases h
  | cons first rest ih =>
    rw [firstRepeat?] at h
    split at h
    · rename_i hseen
      cases h
      exact ⟨[], rest, rfl, List.nodup_nil, List.disjoint_nil_left seen, .inr hseen⟩
    · rename_i hfirst
      obtain ⟨before, after, rfl, hnodup, hbefore, hname⟩ := ih h
      rw [List.disjoint_cons_right] at hbefore
      rw [List.mem_cons, or_left_comm, ← or_assoc, ← List.mem_cons] at hname
      refine ⟨first :: before, after, rfl, ?_, ?_, hname⟩
      · rw [List.nodup_cons]
        exact ⟨hbefore.1, hnodup⟩
      · rw [List.disjoint_cons_left]
        exact ⟨hfirst, hbefore.2⟩

theorem nodup_of_parseBlocks (h : parseBlocks t = .ok blocks) :
    (blocks.map Block.output).Nodup := by
  rw [parseBlocks] at h
  split at h
  · cases h
  · rename_i hnone
    cases h
    exact (nodup_of_firstRepeat? hnone).1

theorem repeatsFirst_of_parseBlocks (h : parseBlocks t = .error cause) :
    ∃ name, cause = .duplicateOutput name ∧
      RepeatsFirst ((Block.cut (tokenize t)).map Block.output) name := by
  rw [parseBlocks] at h
  split at h
  · rename_i name hsome
    cases h
    obtain ⟨before, after, hnames, hnodup, -, hname⟩ := repeats_of_firstRepeat? hsome
    exact ⟨name, rfl, before, after, hnames, hnodup, hname.resolve_right List.not_mem_nil⟩
  · cases h

theorem exists_trailing (tokens : List Token) :
    ∃ front last, Block.cut tokens = front ++ [.trailing last] := by
  obtain ⟨slices, last, -, -, -, hcut⟩ := exists_slices tokens
  exact ⟨_, _, hcut⟩

namespace Definition

/-- A required definition that no text is there for. -/
structure Unmet (supplied : Table Text) (d : Definition) : Prop where
  required : d.required = true
  noDefault : d.defaultValue = none
  notSupplied : d.name ∉ supplied.names

theorem unmet_iff {supplied : Table Text} {d : Definition} :
    (d.required && d.defaultValue.isNone && (supplied.get? d.name).isNone) = true ↔
      d.Unmet supplied := by
  rw [Bool.and_eq_true, Bool.and_eq_true, Option.isNone_iff_eq_none, ← Option.not_isSome,
    Bool.not_eq_true', ← Bool.not_eq_true, ← Table.mem_names_iff]
  exact ⟨fun ⟨⟨hr, hd⟩, hs⟩ => ⟨hr, hd, hs⟩, fun ⟨hr, hd, hs⟩ => ⟨⟨hr, hd⟩, hs⟩⟩

end Definition

theorem validateRequired_ok (h : validateRequired definitions supplied = .ok ()) :
    ∀ d ∈ definitions, ¬ d.Unmet supplied := by
  rw [validateRequired] at h
  split at h
  · cases h
  · rename_i hnone
    intro d hd
    rw [← Definition.unmet_iff]
    exact List.find?_eq_none.1 hnone d hd

theorem validateRequired_error (h : validateRequired definitions supplied = .error cause) :
    ∃ before d later, definitions = before ++ d :: later ∧
      (∀ d' ∈ before, ¬ d'.Unmet supplied) ∧ d.Unmet supplied ∧
      cause = .missingRequired d.name := by
  rw [validateRequired] at h
  split at h
  · rename_i d hsome
    cases h
    obtain ⟨hd, before, later, hsplit, hbefore⟩ := List.find?_eq_some_iff_append.1 hsome
    refine ⟨before, d, later, hsplit, ?_, Definition.unmet_iff.1 hd, rfl⟩
    intro d' hm hunmet
    have hmet := hbefore d' hm
    rw [Definition.unmet_iff.2 hunmet] at hmet
    cases hmet
  · cases h

end DialogScript
