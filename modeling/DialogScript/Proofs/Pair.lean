import DialogScript.Text
import Mathlib.Data.List.Infix

/-! Texts in which a character never stands twice in a row. -/

namespace DialogScript.Text

def NoPair (c : Char) (t : Text) : Prop := ¬ [c, c] <:+: t

theorem noPair_nil (c : Char) : NoPair c [] := by
  intro h
  cases List.infix_nil.1 h

theorem noPair_concat_iff {t : Text} :
    NoPair c (t ++ [d]) ↔ NoPair c t ∧ ¬ (d = c ∧ t.getLast? = some c) := by
  have hlast : [c, c] <:+ t ++ [d] ↔ d = c ∧ t.getLast? = some c := by
    rw [List.suffix_concat_iff]
    constructor
    · rintro (h | ⟨u, hu, hsuf⟩)
      · cases h
      · have hcc : [c] ++ [c] = u ++ [d] := hu
        obtain ⟨rfl, hd⟩ := List.append_inj' hcc rfl
        obtain ⟨v, rfl⟩ := hsuf
        exact ⟨(List.singleton_inj.1 hd).symm, List.getLast?_concat⟩
    · rintro ⟨rfl, h⟩
      obtain ⟨v, rfl⟩ := List.getLast?_eq_some_iff.1 h
      exact .inr ⟨[d], rfl, List.suffix_append _ _⟩
  rw [NoPair, List.infix_concat_iff, hlast, NoPair]
  tauto

theorem noPair_of_notMem {t : Text} (h : c ∉ t) : NoPair c t := by
  intro hp
  exact h (hp.subset List.mem_cons_self)

theorem NoPair.left {a b : Text} (h : NoPair c (a ++ b)) : NoPair c a := by
  intro hp
  exact h (hp.trans (List.prefix_append a b).isInfix)

theorem NoPair.append {a b : Text} (ha : NoPair c a) (hb : NoPair c b)
    (hseam : ¬ (a.getLast? = some c ∧ b.head? = some c)) : NoPair c (a ++ b) := by
  intro hp
  rcases List.infix_append_iff.1 hp with hp | hp | ⟨l, r, he, hl, hr⟩
  · exact ha hp
  · exact hb hp
  · match l, he with
    | [], he =>
      rw [List.nil_append] at he
      rw [← he] at hr
      exact hb hr.isInfix
    | [x], he =>
      obtain ⟨hx, rfl⟩ := List.cons_eq_cons.1 he
      rw [← hx] at hl
      obtain ⟨a', rfl⟩ := hl
      obtain ⟨b', rfl⟩ := hr
      exact hseam ⟨List.getLast?_concat, rfl⟩
    | [x, y], he =>
      obtain ⟨hx, he⟩ := List.cons_eq_cons.1 he
      rw [← hx, ← (List.cons_eq_cons.1 he).1] at hl
      exact ha hl.isInfix

/-- A pair can only stand where all of its characters do. -/
theorem NoPair.between {a t b : Text} (ha : c ∉ a) (h : NoPair c t) (hb : c ∉ b) :
    NoPair c (a ++ t ++ b) := by
  have hat : NoPair c (a ++ t) :=
    (noPair_of_notMem ha).append h fun hs => ha (List.mem_of_getLast? hs.1)
  exact hat.append (noPair_of_notMem hb) fun hs => hb (List.mem_of_head? hs.2)

end DialogScript.Text
