import DialogScript.Text.Blank
import Mathlib.Data.List.TakeWhile

/-! Blanks around a text and the text that trimming leaves. -/

namespace DialogScript.Text

def Blank (t : Text) : Prop := ∀ c ∈ t, isBlank c

def NoBlank (t : Text) : Prop := ∀ c ∈ t, isBlank c = false

instance (t : Text) : Decidable t.NoBlank := List.decidableBAll _ t

theorem Blank.notMem {t : Text} (h : Blank t) (hc : isBlank c = false) : c ∉ t := by
  intro hm
  rw [h c hm] at hc
  cases hc

theorem blank_takeWhile (t : Text) : Blank (t.takeWhile isBlank) := by
  intro c hc
  exact List.mem_takeWhile_imp hc

theorem trimEnd_append_blank (t : Text) {w : Text} (h : Blank w) :
    (t ++ w).trimEnd = t.trimEnd := by
  have hr : ∀ c ∈ w.reverse, isBlank c := fun c hc => h c (List.mem_reverse.1 hc)
  rw [trimEnd, List.reverse_append, List.dropWhile_append_of_pos hr, trimEnd]

theorem trim_blank_append {w : Text} (h : Blank w) (t : Text) : trim (w ++ t) = t.trim := by
  rw [trim, trimStart, List.dropWhile_append_of_pos h]
  rfl

theorem trim_append_blank (t : Text) {w : Text} (h : Blank w) : trim (t ++ w) = t.trim := by
  rw [trim, trimStart, List.dropWhile_append]
  split
  · rename_i he
    rw [List.dropWhile_eq_nil_iff.2 h, trim, trimStart, List.isEmpty_iff.1 he]
  · exact trimEnd_append_blank _ h

theorem exists_trimStart_eq (t : Text) : ∃ b, t.trimStart = t.trim ++ b ∧ Blank b := by
  refine ⟨(t.trimStart.reverse.takeWhile isBlank).reverse, ?_, ?_⟩
  · rw [trim, trimEnd, ← List.reverse_append, List.takeWhile_append_dropWhile,
      List.reverse_reverse]
  · intro c hc
    exact blank_takeWhile _ c (List.mem_reverse.1 hc)

/-- Trimming takes blanks from both ends and nothing else. -/
theorem exists_blank_trim (t : Text) : ∃ a b, t = a ++ t.trim ++ b ∧ Blank a ∧ Blank b := by
  obtain ⟨b, hb, hblank⟩ := exists_trimStart_eq t
  refine ⟨t.takeWhile isBlank, b, ?_, blank_takeWhile t, hblank⟩
  rw [List.append_assoc, ← hb]
  exact List.takeWhile_append_dropWhile.symm

theorem NoBlank.trim {t : Text} (h : t.NoBlank) : t.trim = t := by
  have drop {t : Text} (h : t.NoBlank) : t.dropWhile isBlank = t := by
    cases t with
    | nil => rfl
    | cons c t => exact List.dropWhile_cons_of_neg (ne_true_of_eq_false (h c List.mem_cons_self))
  have hr : NoBlank t.reverse := fun c hc => h c (List.mem_reverse.1 hc)
  rw [Text.trim, trimStart, drop h, trimEnd, drop hr, List.reverse_reverse]

end DialogScript.Text
