import DialogScript.Proofs.MemberOrder

/-! The order of texts is that of their UTF-8 bytes. -/

namespace DialogScript.Text

/-- The UTF-8 form of a text. -/
def bytes (t : Text) : List UInt8 := t.flatMap String.utf8EncodeChar

/-- The form of a lower character comes first, whatever stands behind the two. -/
theorem utf8EncodeChar_append_lt {c d : Char} (h : c < d) (s t : List UInt8) :
    String.utf8EncodeChar c ++ s < String.utf8EncodeChar d ++ t := by
  have hlt : c.val.toNat < d.val.toNat := h
  have hd : d.val.toNat < 0x110000 := by
    rcases d.valid with hd | ⟨-, hd⟩
    · exact Nat.lt_trans hd (by decide)
    · exact hd
  rw [String.utf8EncodeChar, String.utf8EncodeChar]
  generalize c.val.toNat = v at hlt
  generalize d.val.toNat = w at hlt hd
  -- of two forms of different lengths the longer begins with the higher byte
  repeat' split
  all_goals
    simp only [List.cons_append, List.nil_append, List.cons_lt_cons_iff, UInt8.lt_iff_toNat_lt,
      ← UInt8.toNat_inj, UInt8.toNat_ofNat']
    simp (disch := omega) only [Nat.mod_eq_of_lt]
    omega

theorem bytes_lt {a b : Text} (h : a < b) : a.bytes < b.bytes := by
  induction h with
  | @nil c rest =>
    obtain ⟨x, xs, hform⟩ := List.exists_cons_of_ne_nil (String.utf8EncodeChar_ne_nil (c := c))
    rw [bytes, bytes, List.flatMap_cons, hform]
    exact List.nil_lt_cons _ _
  | cons _ ih =>
    rw [bytes, bytes, List.flatMap_cons, List.flatMap_cons]
    exact List.append_left_lt ih
  | rel h =>
    rw [bytes, bytes, List.flatMap_cons, List.flatMap_cons]
    exact utf8EncodeChar_append_lt h _ _

theorem before_iff_bytes_lt {a b : Text} : a.before b = true ↔ a.bytes < b.bytes := by
  rw [before_iff_lt]
  constructor
  · exact bytes_lt
  · intro h
    by_contra hnot
    rcases lt_or_eq_of_le (not_lt.1 hnot) with hlt | rfl
    · exact List.lt_asymm h (bytes_lt hlt)
    · exact List.lt_irrefl _ h

end DialogScript.Text
