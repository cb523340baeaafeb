import DialogScript.Proofs.Pair
import DialogScript.Token.Lossless

/-! What one character does to a scan, and how a scan goes on behind tokens that are finished. -/

namespace DialogScript

/-- A text between the braces of a tag. The closing braces are the first pair behind the opening
ones, so a body does not end in a brace that would pair with them. -/
structure IsBody (body : Text) : Prop where
  noOpen : body.NoPair '{'
  noClose : Text.NoPair '}' (body ++ ['}'])

theorem IsBody.noOpen_concat (h : IsBody body) : Text.NoPair '{' (body ++ ['}']) := by
  rw [Text.noPair_concat_iff]
  exact ⟨h.noOpen, fun h => absurd h.1 (by decide)⟩

namespace Scan

/-- All that one character can do to a scan. -/
inductive Moves : Scan → Char → Scan → Prop
  | enter : Moves ⟨ts, '{' :: t, none⟩ '{' ⟨ts, t, some []⟩
  | text (h : ¬ (c = '{' ∧ t.head? = some '{')) : Moves ⟨ts, t, none⟩ c ⟨ts, c :: t, none⟩
  | close :
      Moves ⟨ts, t, some ('}' :: b)⟩ '}' ⟨.tag b.reverse :: closeText ⟨ts, t, none⟩, [], none⟩
  | restart : Moves ⟨ts, t, some ('{' :: b)⟩ '{' ⟨ts, b ++ '{' :: '{' :: t, some []⟩
  | body (hclose : ¬ (c = '}' ∧ b.head? = some '}')) (hopen : ¬ (c = '{' ∧ b.head? = some '{')) :
      Moves ⟨ts, t, some b⟩ c ⟨ts, t, some (c :: b)⟩

theorem Moves.eq_step (h : Moves s c s') : s.step c = s' := by
  cases h with
  | enter => rfl
  | text h =>
    simp only [step]
    split
    · exact (h ⟨rfl, rfl⟩).elim
    · rfl
  | close => rfl
  | restart => rfl
  | body hclose hopen =>
    simp only [step]
    split
    · exact (hclose ⟨rfl, rfl⟩).elim
    · exact (hopen ⟨rfl, rfl⟩).elim
    · rfl

theorem moves_step (s : Scan) (c : Char) : Moves s c (s.step c) := by
  have head {x : Char} {t : Text} (h : t.head? = some x) : t = x :: t.tail :=
    List.eq_cons_of_mem_head? h
  obtain ⟨ts, t, body?⟩ := s
  cases body? with
  | none =>
    by_cases h : c = '{' ∧ t.head? = some '{'
    · obtain ⟨rfl, h⟩ := h
      rw [head h]
      exact .enter
    · have hm : Moves ⟨ts, t, none⟩ c ⟨ts, c :: t, none⟩ := .text h
      rwa [hm.eq_step]
  | some b =>
    by_cases hclose : c = '}' ∧ b.head? = some '}'
    · obtain ⟨rfl, h⟩ := hclose
      rw [head h]
      exact .close
    · by_cases hopen : c = '{' ∧ b.head? = some '{'
      · obtain ⟨rfl, h⟩ := hopen
        rw [head h]
        exact .restart
      · have hm : Moves ⟨ts, t, some b⟩ c ⟨ts, t, some (c :: b)⟩ := .body hclose hopen
        rwa [hm.eq_step]

/-- The same scan behind tokens that were finished earlier. -/
def behind (earlier : List Token) (s : Scan) : Scan := { s with tokens := s.tokens ++ earlier }

theorem closeText_behind (earlier : List Token) (s : Scan) :
    (s.behind earlier).closeText = s.closeText ++ earlier := by
  obtain ⟨ts, t, body?⟩ := s
  cases t with
  | nil => rfl
  | cons c t => rfl

theorem step_behind (earlier : List Token) (s : Scan) (c : Char) :
    (s.behind earlier).step c = (s.step c).behind earlier := by
  apply Moves.eq_step
  have h := moves_step s c
  generalize s.step c = s' at h
  cases h with
  | enter => exact .enter
  | text h => exact .text h
  | @close ts t b =>
    have hm : Moves ⟨ts ++ earlier, t, some ('}' :: b)⟩ '}' _ := .close
    have hc := closeText_behind earlier ⟨ts, t, none⟩
    simp only [behind] at hc
    rwa [hc] at hm
  | restart => exact .restart
  | body hclose hopen => exact .body hclose hopen

theorem foldl_behind (earlier : List Token) (s : Scan) (text : Text) :
    text.foldl step (s.behind earlier) = (text.foldl step s).behind earlier := by
  induction text generalizing s with
  | nil => rfl
  | cons c rest ih => rw [List.foldl_cons, step_behind, ih, List.foldl_cons]

theorem finish_behind (earlier : List Token) (s : Scan) :
    (s.behind earlier).finish = earlier.reverse ++ s.finish := by
  obtain ⟨ts, t, body?⟩ := s
  cases body? with
  | none =>
    have h := closeText_behind earlier ⟨ts, t, none⟩
    simp only [behind] at h
    simp only [finish, behind, h, List.reverse_append]
  | some b =>
    have h := closeText_behind earlier ⟨ts, b ++ '{' :: '{' :: t, some b⟩
    simp only [behind] at h
    simp only [finish, behind, h, List.reverse_append]

theorem tokens_suffix_step (s : Scan) (c : Char) : s.tokens <:+ (s.step c).tokens := by
  have h := moves_step s c
  generalize s.step c = s' at h
  cases h with
  | enter => exact List.suffix_rfl
  | text h => exact List.suffix_rfl
  | @close ts t b =>
    have hc : ts <:+ closeText ⟨ts, t, none⟩ := by
      unfold closeText
      split
      · exact List.suffix_rfl
      · exact List.suffix_cons _ _
    exact hc.trans (List.suffix_cons _ _)
  | restart => exact List.suffix_rfl
  | body hclose hopen => exact List.suffix_rfl

theorem tokens_suffix_foldl (s : Scan) (text : Text) : s.tokens <:+ (text.foldl step s).tokens := by
  induction text generalizing s with
  | nil => exact List.suffix_rfl
  | cons c rest ih => exact (s.tokens_suffix_step c).trans (ih (s.step c))

end Scan

end DialogScript
