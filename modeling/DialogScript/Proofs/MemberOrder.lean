import DialogScript.Json
import Mathlib.Data.Char
import Mathlib.Data.List.Induction
import Mathlib.Data.List.Lex

/-! The members of an object, put in the order of their keys. -/

namespace DialogScript

theorem Text.before_iff_lt {a b : Text} : a.before b = true ↔ a < b := List.lex_eq_true_iff_lt

theorem Text.not_before_iff_le {a b : Text} : (!b.before a) = true ↔ a ≤ b := by
  rw [Bool.not_eq_true', ← Bool.not_eq_true, before_iff_lt, not_lt]

namespace Json

/-- The keys stand in their order, none of them twice. -/
def InOrder (members : List (Text × α)) : Prop := members.Pairwise fun a b => a.1.before b.1 = true

theorem mem_insertMember {sorted : List (Text × α)} (h : m ∈ insertMember key value sorted) :
    m = (key, value) ∨ m ∈ sorted := by
  induction sorted with
  | nil => exact .inl (List.mem_singleton.1 h)
  | cons entry rest ih =>
    rw [insertMember] at h
    split at h
    next =>
      rcases List.mem_cons.1 h with h | h
      · exact .inl h
      · exact .inr (List.mem_cons_of_mem _ h)
    next =>
      split at h
      next => exact List.mem_cons.1 h
      next =>
        rcases List.mem_cons.1 h with h | h
        · exact .inr (List.mem_cons.2 (.inl h))
        · exact (ih h).imp_right (List.mem_cons_of_mem _)

theorem InOrder.insertMember {sorted : List (Text × α)} (h : InOrder sorted) (key : Text)
    (value : α) : InOrder (insertMember key value sorted) := by
  induction sorted with
  | nil => exact .cons (fun _ hm => (List.not_mem_nil hm).elim) .nil
  | cons entry rest ih =>
    obtain ⟨k, v⟩ := entry
    obtain ⟨hk, hrest⟩ := List.pairwise_cons.1 h
    rw [Json.insertMember]
    split
    next he =>
      subst he
      exact .cons hk hrest
    next hne =>
      split
      next hbefore =>
        refine .cons ?_ h
        intro m hm
        rcases List.mem_cons.1 hm with rfl | hm
        · exact hbefore
        · rw [Text.before_iff_lt] at hbefore ⊢
          exact lt_trans hbefore (Text.before_iff_lt.1 (hk m hm))
      next hbefore =>
        refine .cons ?_ (ih hrest)
        intro m hm
        rcases mem_insertMember hm with rfl | hm
        · rw [Text.before_iff_lt] at hbefore ⊢
          exact (lt_or_gt_of_ne hne).resolve_left hbefore
        · exact hk m hm

theorem insertMember_of_before {sorted : List (Text × α)} (h : ∀ m ∈ sorted, m.1.before key = true)
    (value : α) : insertMember key value sorted = sorted ++ [(key, value)] := by
  induction sorted with
  | nil => rfl
  | cons entry rest ih =>
    obtain ⟨k, v⟩ := entry
    obtain ⟨hk, hrest⟩ := List.forall_mem_cons.1 h
    rw [Text.before_iff_lt] at hk
    have hne : key ≠ k := ne_of_gt hk
    have hnot : ¬ key.before k = true := by
      rw [Text.before_iff_lt]
      exact lt_asymm hk
    rw [insertMember, if_neg hne, if_neg hnot, ih hrest]
    rfl

theorem sortMembers_concat (members : List (Text × α)) (m : Text × α) :
    sortMembers (members ++ [m]) = insertMember m.1 m.2 (sortMembers members) := by
  rw [sortMembers, List.foldl_append]
  rfl

theorem inOrder_sortMembers (members : List (Text × α)) : InOrder (sortMembers members) := by
  induction members using List.reverseRecOn with
  | nil => exact .nil
  | append_singleton members m ih =>
    rw [sortMembers_concat]
    exact ih.insertMember m.1 m.2

theorem mem_sortMembers {members : List (Text × α)} (h : m ∈ sortMembers members) :
    m ∈ members := by
  induction members using List.reverseRecOn with
  | nil => exact h
  | append_singleton members m' ih =>
    rw [sortMembers_concat] at h
    rw [List.mem_append, List.mem_singleton]
    exact (mem_insertMember h).symm.imp_left ih

/-- Members in order are left as they are. -/
theorem InOrder.sortMembers {members : List (Text × α)} (h : InOrder members) :
    sortMembers members = members := by
  induction members using List.reverseRecOn with
  | nil => rfl
  | append_singleton members m ih =>
    obtain ⟨hmembers, -, hbefore⟩ := List.pairwise_append.1 h
    rw [sortMembers_concat, ih hmembers]
    apply insertMember_of_before
    intro m' hm
    exact hbefore m' hm m List.mem_cons_self

end Json

end DialogScript
