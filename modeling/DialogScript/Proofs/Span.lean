import DialogScript.Proofs.Scan

/-!
Where the tags of a text stand. A range is a tag when its braces pair up from the start of their run
and nothing between them opens or closes a tag, whatever stands around it.
-/

namespace DialogScript

namespace Text

/-- The characters from one place up to another. -/
def slice (t : Text) (start stop : Nat) : Text := (t.take stop).drop start

/-- How often a character stands in a row at the end of a text. -/
def runAtEnd (c : Char) (t : Text) : Nat := (t.reverse.takeWhile (· = c)).length

theorem runAtEnd_concat_self (c : Char) (t : Text) : runAtEnd c (t ++ [c]) = runAtEnd c t + 1 := by
  simp [runAtEnd]

theorem runAtEnd_concat_of_ne (h : d ≠ c) (t : Text) : runAtEnd c (t ++ [d]) = 0 := by
  simp [runAtEnd, h]

theorem take_append_slice (t : Text) (h : i ≤ j) : t.take i ++ t.slice i j = t.take j := by
  have hi : t.take i = (t.take j).take i := by rw [List.take_take, Nat.min_eq_left h]
  rw [hi, slice, List.take_append_drop]

theorem slice_middle (p x q : Text) (hi : p.length = i) (hj : j = i + x.length) :
    slice (p ++ x ++ q) i j = x := by
  rw [slice, List.take_left' (by rw [List.length_append]; omega), List.drop_left' hi]

theorem length_slice (t : Text) (i j : Nat) : (t.slice i j).length = min j t.length - i := by
  rw [slice, List.length_drop, List.length_take]

end Text

/-- A tag with the place where it begins and the one behind it. -/
structure Span where
  start : Nat
  stop : Nat
  body : Text

namespace Token

def isTag : Token → Bool
  | literal _ => false
  | tag _ => true

/-- The tags among tokens whose text begins at a place. -/
def spans (start : Nat) : List Token → List Span
  | [] => []
  | literal text :: rest => spans (start + text.length) rest
  | tag body :: rest =>
    ⟨start, start + (tag body).raw.length, body⟩ :: spans (start + (tag body).raw.length) rest

theorem spans_append (start : Nat) (a b : List Token) :
    spans start (a ++ b) = spans start a ++ spans (start + (a.flatMap raw).length) b := by
  induction a generalizing start with
  | nil => rfl
  | cons token a ih =>
    rw [List.flatMap_cons, List.length_append, ← Nat.add_assoc]
    cases token with
    | literal text => exact ih _
    | tag body => exact congrArg (_ :: ·) (ih _)

theorem start_le_of_mem_spans (h : span ∈ spans start tokens) : start ≤ span.start := by
  induction tokens generalizing start with
  | nil => cases h
  | cons token rest ih =>
    cases token with
    | literal text => exact (Nat.le_add_right _ _).trans (ih h)
    | tag body =>
      rcases List.mem_cons.1 h with rfl | h
      · exact Nat.le_refl _
      · exact (Nat.le_add_right _ _).trans (ih h)

theorem pairwise_spans (start : Nat) (tokens : List Token) :
    (spans start tokens).Pairwise fun a b => a.stop ≤ b.start := by
  induction tokens generalizing start with
  | nil => exact .nil
  | cons token rest ih =>
    cases token with
    | literal text => exact ih _
    | tag body => exact .cons (fun _ h => start_le_of_mem_spans h) (ih _)

end Token

/-- The range is that of a tag, as far as the text alone tells. -/
structure IsTagAt (t : Text) (start stop : Nat) : Prop where
  opening : t.slice start (start + 2) = ['{', '{']
  even : Text.runAtEnd '{' (t.take start) % 2 = 0
  room : start + 2 ≤ stop - 2
  closing : t.slice (stop - 2) stop = ['}', '}']
  noOpen : ¬ ['{', '{'] <:+: t.slice (start + 2) (stop - 2)
  noClose : ¬ ['}', '}'] <:+: t.slice (start + 2) (stop - 2)
  last : (t.slice (start + 2) (stop - 2)).getLast? ≠ some '}'

/-- A text holds a tag in the place of a span. -/
def Stands (t : Text) (span : Span) : Prop :=
  ∃ p q, t = p ++ (Token.tag span.body).raw ++ q ∧ p.length = span.start ∧
    span.stop = span.start + (Token.tag span.body).raw.length ∧
    p.runAtEnd '{' % 2 = 0 ∧ IsBody span.body

theorem isBody_iff : IsBody b ↔
    ¬ ['{', '{'] <:+: b ∧ ¬ ['}', '}'] <:+: b ∧ b.getLast? ≠ some '}' := by
  constructor
  · intro h
    obtain ⟨hclose, hlast⟩ := Text.noPair_concat_iff.1 h.noClose
    exact ⟨h.noOpen, hclose, fun hl => hlast ⟨rfl, hl⟩⟩
  · rintro ⟨hopen, hclose, hlast⟩
    exact ⟨hopen, Text.noPair_concat_iff.2 ⟨hclose, fun h => hlast h.2⟩⟩

theorem isBody_of_notMem {b : Text} (h : '{' ∉ b ∧ '}' ∉ b) : IsBody b := by
  rw [isBody_iff]
  refine ⟨Text.noPair_of_notMem h.1, Text.noPair_of_notMem h.2, ?_⟩
  intro hlast
  exact h.2 (List.mem_of_getLast? hlast)

/-- A text whose pairs of braces could only stand in its middle, where they do not. -/
theorem isBody_between {a t b : Text} (ha : '{' ∉ a ∧ '}' ∉ a) (hopen : t.NoPair '{')
    (hclose : t.NoPair '}') (hb : '{' ∉ b ∧ '}' ∉ b) (hne : b ≠ []) : IsBody (a ++ t ++ b) := by
  rw [isBody_iff, List.getLast?_append_of_ne_nil _ hne]
  refine ⟨Text.NoPair.between ha.1 hopen hb.1, Text.NoPair.between ha.2 hclose hb.2, ?_⟩
  intro hlast
  exact hb.2 (List.mem_of_getLast? hlast)

theorem isTagAt_iff_stands (t : Text) (i j : Nat) (b : Text) :
    IsTagAt t i j ∧ b = t.slice (i + 2) (j - 2) ↔ Stands t ⟨i, j, b⟩ := by
  have hraw : (Token.tag b).raw = ['{', '{'] ++ b ++ ['}', '}'] := rfl
  have hlen : (Token.tag b).raw.length = b.length + 4 := by
    simp [hraw, Nat.add_assoc]
  constructor
  · rintro ⟨h, hb⟩
    have hopen := congrArg List.length h.opening
    have hclose := congrArg List.length h.closing
    have hbody := congrArg List.length hb
    have hroom := h.room
    rw [Text.length_slice] at hopen hclose hbody
    simp only [List.length_cons, List.length_nil] at hopen hclose
    refine ⟨t.take i, t.drop j, ?_, ?_, ?_, h.even, ?_⟩
    · calc
        t = t.take j ++ t.drop j := (List.take_append_drop j t).symm
        _ = t.take i ++ t.slice i (i + 2) ++ t.slice (i + 2) (j - 2) ++ t.slice (j - 2) j ++
            t.drop j := by
          rw [Text.take_append_slice t (by omega), Text.take_append_slice t hroom,
            Text.take_append_slice t (by omega)]
        _ = t.take i ++ (Token.tag b).raw ++ t.drop j := by
          rw [h.opening, h.closing, ← hb, hraw]
          simp only [List.append_assoc]
    · rw [List.length_take]
      dsimp only
      omega
    · rw [hlen]
      dsimp only
      omega
    · rw [isBody_iff, hb]
      exact ⟨h.noOpen, h.noClose, h.last⟩
  · rintro ⟨p, q, ht, hp, hj, heven, hbody⟩
    dsimp only at ht hp hj hbody
    rw [hlen] at hj
    rw [isBody_iff] at hbody
    have hopening : t = p ++ ['{', '{'] ++ (b ++ ['}', '}'] ++ q) := by
      rw [ht, hraw]
      simp only [List.append_assoc]
    have hmiddle : t = (p ++ ['{', '{']) ++ b ++ (['}', '}'] ++ q) := by
      rw [hopening]
      simp only [List.append_assoc]
    have hclosing : t = (p ++ ['{', '{'] ++ b) ++ ['}', '}'] ++ q := by
      rw [hmiddle]
      simp only [List.append_assoc]
    have hb : t.slice (i + 2) (j - 2) = b := by
      rw [hmiddle]
      exact Text.slice_middle _ _ _ (by simp [hp]) (by omega)
    refine ⟨⟨?_, ?_, by omega, ?_, ?_, ?_, ?_⟩, hb.symm⟩
    · rw [hopening]
      exact Text.slice_middle _ _ _ hp rfl
    · rw [hopening, List.append_assoc, List.take_left' hp]
      exact heven
    · rw [hclosing]
      exact Text.slice_middle _ _ _ (by simp [hp]; omega) (by simp; omega)
    · rw [hb]
      exact hbody.1
    · rw [hb]
      exact hbody.2.1
    · rw [hb]
      exact hbody.2.2

end DialogScript
