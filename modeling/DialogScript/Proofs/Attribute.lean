import DialogScript.Directive
import DialogScript.Proofs.Blank
import Mathlib.Data.List.Basic
import Mathlib.Data.List.Induction

/-! A directive as its keyword and its words, and words as keys with values. -/

namespace DialogScript

namespace Text

theorem words_append_cons (hc : isBlank c) (a b : Text) :
    words (a ++ c :: b) = words a ++ words b := by
  rw [words, List.splitOnP_append_cons a b hc, List.filter_append]
  rfl

theorem Blank.words {t : Text} (h : Blank t) : t.words = [] := by
  induction t with
  | nil => rfl
  | cons c t ih =>
    obtain ⟨hc, ht⟩ := List.forall_mem_cons.1 h
    exact (words_append_cons hc [] t).trans (ih ht)

theorem mem_of_mem_splitOnP {p : Char → Bool} {t part : Text} (h : part ∈ t.splitOnP p) :
    ∀ c ∈ part, c ∈ t ∧ p c = false := by
  intro c hc
  induction t generalizing part with
  | nil =>
    rw [List.splitOnP_nil, List.mem_singleton] at h
    rw [h] at hc
    cases hc
  | cons d t ih =>
    have later {part : Text} (h : part ∈ t.splitOnP p) (hc : c ∈ part) : c ∈ d :: t ∧ p c = false :=
      ⟨List.mem_cons_of_mem _ (ih h hc).1, (ih h hc).2⟩
    rw [List.splitOnP_cons_eq_if_modifyHead] at h
    split at h
    · rcases List.mem_cons.1 h with rfl | h
      · cases hc
      · exact later h hc
    · rename_i hd
      obtain ⟨first, rest, he⟩ := List.exists_cons_of_ne_nil (List.splitOnP_ne_nil p t)
      rw [he] at later
      rw [he, List.modifyHead_cons] at h
      rcases List.mem_cons.1 h with rfl | h
      · rcases List.mem_cons.1 hc with rfl | hc
        · exact ⟨List.mem_cons_self, eq_false_of_ne_true hd⟩
        · exact later List.mem_cons_self hc
      · exact later (List.mem_cons_of_mem _ h) hc

theorem noBlank_of_mem_words {t word : Text} (h : word ∈ t.words) : word.NoBlank := by
  intro c hc
  exact (mem_of_mem_splitOnP (List.mem_filter.1 h).1 c hc).2

theorem NoBlank.words {t : Text} (h : t.NoBlank) (hne : t ≠ []) : t.words = [t] := by
  rw [Text.words, List.splitOnP_eq_singleton h]
  simp [hne]

theorem notMem_of_mem_words {t word : Text} (h : word ∈ t.words) (hc : c ∉ t) : c ∉ word :=
  fun hword => hc (mem_of_mem_splitOnP (List.mem_filter.1 h).1 c hword).1

theorem words_blank_append {w : Text} (h : Blank w) (t : Text) : words (w ++ t) = words t := by
  induction w with
  | nil => rfl
  | cons c w ih =>
    obtain ⟨hc, hw⟩ := List.forall_mem_cons.1 h
    exact (words_append_cons hc [] (w ++ t)).trans (ih hw)

theorem words_append_blank (t : Text) {w : Text} (h : Blank w) : words (t ++ w) = words t := by
  cases w with
  | nil => rw [List.append_nil]
  | cons c w =>
    obtain ⟨hc, hw⟩ := List.forall_mem_cons.1 h
    have hnil : words w = [] := Blank.words hw
    rw [words_append_cons hc, hnil, List.append_nil]

/-- Blanks end a word. -/
theorem words_noBlank_append {t w : Text} (h : t.NoBlank) (hne : t ≠ []) (hw : Blank w)
    (hblank : w ≠ []) (rest : Text) : words (t ++ (w ++ rest)) = t :: words rest := by
  obtain ⟨c, w, rfl⟩ := List.exists_cons_of_ne_nil hblank
  obtain ⟨hc, hw⟩ := List.forall_mem_cons.1 hw
  rw [List.cons_append, words_append_cons hc, h.words hne, words_blank_append hw]
  rfl

theorem words_trim (t : Text) : t.trim.words = t.words := by
  obtain ⟨a, b, ht, ha, hb⟩ := exists_blank_trim t
  calc
    t.trim.words = words (a ++ t.trim ++ b) := by
      rw [words_append_blank _ hb, words_blank_append ha]
    _ = t.words := congrArg words ht.symm

/-- Words with a blank in front of each are the words of the text that they make. -/
theorem words_flatMap_cons (hc : isBlank c) {ws : List Text}
    (h : ∀ w ∈ ws, w ≠ [] ∧ w.NoBlank) : words (ws.flatMap (c :: ·)) = ws := by
  induction ws using List.reverseRecOn with
  | nil => rfl
  | append_singleton ws w ih =>
    rw [List.forall_mem_append, List.forall_mem_singleton] at h
    rw [List.flatMap_append, List.flatMap_singleton, words_append_cons hc, ih h.1,
      h.2.2.words h.2.1]

theorem splitFirst?_eq_some_iff {mark : Char} {t before after : Text} :
    t.splitFirst? mark = some (before, after) ↔ t = before ++ mark :: after ∧ mark ∉ before := by
  induction t generalizing before with
  | nil => simp [splitFirst?]
  | cons c t ih =>
    rw [splitFirst?]
    split
    · rename_i hc
      subst hc
      constructor
      · intro h
        cases h
        exact ⟨rfl, List.not_mem_nil⟩
      · rintro ⟨h, hnot⟩
        cases before with
        | nil =>
          cases h
          rfl
        | cons d before =>
          cases h
          exact (hnot List.mem_cons_self).elim
    · rename_i hc
      constructor
      · intro h
        obtain ⟨⟨b, a⟩, hs, he⟩ := Option.map_eq_some_iff.1 h
        cases he
        obtain ⟨rfl, hnot⟩ := ih.1 hs
        refine ⟨rfl, ?_⟩
        rw [List.mem_cons, not_or]
        exact ⟨Ne.symm hc, hnot⟩
      · rintro ⟨h, hnot⟩
        cases before with
        | nil =>
          cases h
          exact (hc rfl).elim
        | cons d before =>
          cases h
          rw [List.mem_cons, not_or] at hnot
          rw [ih.2 ⟨rfl, hnot.2⟩]
          rfl

/-- What is found last is found in the last element, or else before it. -/
theorem getLast?_filterMap_concat (f : α → Option β) (l : List α) (a : α) :
    ((l ++ [a]).filterMap f).getLast? = (f a).or (l.filterMap f).getLast? := by
  rw [List.filterMap_append, List.getLast?_append]
  cases h : f a with
  | none => rw [List.filterMap_cons_none h, List.filterMap_nil]; rfl
  | some b => rw [List.filterMap_cons_some h, List.filterMap_nil]; rfl

/-- Values with a word each: the one that a word stands for is found by it, and by no other word. -/
theorem find?_word_eq_some_iff {word : α → Text} {all : List α}
    (h : ∀ a, all.find? (fun b => word b = word a) = some a) {t : Text} {a : α} :
    all.find? (fun b => word b = t) = some a ↔ t = word a := by
  constructor
  · intro hfind
    have hword := List.find?_some hfind
    rw [decide_eq_true_eq] at hword
    exact hword.symm
  · rintro rfl
    exact h a

end Text

namespace Directive

/-- A body begins as a directive: blanks, the keyword, and a part that is empty or begins with a
blank. -/
structure Opens (keyword body part : Text) : Prop where
  eq : ∃ w, Text.Blank w ∧ body = w ++ '#' :: (keyword ++ part)
  bounded : ∀ c ∈ part.head?, isBlank c

theorem Opens.arguments? (h : Opens keyword body part) :
    arguments? keyword body = some part.trim := by
  obtain ⟨⟨w, hw, rfl⟩, hpart⟩ := h
  have hs : Text.trimStart (w ++ '#' :: (keyword ++ part)) = '#' :: (keyword ++ part) := by
    rw [Text.trimStart, List.dropWhile_append_of_pos hw]
    rfl
  have hp : keyword.isPrefixOf? (keyword ++ part) = some part := by
    rw [List.isPrefixOf?_eq_some_iff_append_eq]
  simp only [Directive.arguments?, hs, hp]
  cases part with
  | nil => rfl
  | cons c part => exact if_pos (hpart c rfl)

theorem exists_opens (h : arguments? keyword body = some args) :
    ∃ part, Opens keyword body part ∧ part.trim = args := by
  rw [arguments?] at h
  split at h
  · rename_i rest hs
    have hbody {part : Text} (hp : keyword.isPrefixOf? rest = some part) :
        ∃ w, Text.Blank w ∧ body = w ++ '#' :: (keyword ++ part) := by
      refine ⟨body.takeWhile isBlank, Text.blank_takeWhile body, ?_⟩
      rw [List.append_eq_of_isPrefixOf?_eq_some hp, ← hs]
      exact List.takeWhile_append_dropWhile.symm
    split at h
    · rename_i hp
      cases h
      exact ⟨[], ⟨hbody hp, fun c hc => by cases hc⟩, rfl⟩
    · rename_i c part hp
      split at h
      · rename_i hc
        cases h
        refine ⟨c :: part, ⟨hbody hp, ?_⟩, rfl⟩
        intro d hd
        cases hd
        exact hc
      · cases h
    · cases h
  · cases h

/-- An attribute as it is written. -/
def written (a : Text × Text) : Text := a.1 ++ '=' :: a.2

theorem noBlank_written {key value : Text} (hkey : key.NoBlank) (hvalue : value.NoBlank) :
    (written (key, value)).NoBlank := by
  intro c hc
  rcases List.mem_append.1 hc with hc | hc
  · exact hkey c hc
  · rcases List.mem_cons.1 hc with rfl | hc
    · rfl
    · exact hvalue c hc

theorem notMem_written {key value : Text} (hkey : c ∉ key) (hc : c ≠ '=') (hvalue : c ∉ value) :
    c ∉ written (key, value) := by
  rw [written, List.mem_append, List.mem_cons]
  rintro (h | h | h)
  · exact hkey h
  · exact hc h
  · exact hvalue h

theorem noBlank_of_written {key value : Text} (h : (written (key, value)).NoBlank) :
    value.NoBlank := by
  intro c hc
  exact h c (List.mem_append_right _ (List.mem_cons_of_mem _ hc))

theorem written_ne_nil (a : Text × Text) : written a ≠ [] := by
  simp [written]

/-- The key and the value of an attribute are not empty, and the key ends at the first `=`. -/
structure Writable (a : Text × Text) : Prop where
  noMark : '=' ∉ a.1
  key : a.1 ≠ []
  value : a.2 ≠ []

theorem attribute?_eq_some_iff {word : Text} {a : Text × Text} :
    attribute? word = some a ↔ word = written a ∧ Writable a := by
  obtain ⟨key, value⟩ := a
  rw [attribute?]
  constructor
  · intro h
    split at h
    · rename_i k v hs
      obtain ⟨rfl, hmark⟩ := Text.splitFirst?_eq_some_iff.1 hs
      split at h
      · cases h
      · rename_i hne
        cases h
        simp only [Bool.or_eq_true, List.isEmpty_iff, not_or] at hne
        exact ⟨rfl, hmark, hne.1, hne.2⟩
    · cases h
  · rintro ⟨rfl, hmark, hkey, hvalue⟩
    have hs : (written (key, value)).splitFirst? '=' = some (key, value) :=
      Text.splitFirst?_eq_some_iff.2 ⟨rfl, hmark⟩
    have hne : ¬ (key.isEmpty || value.isEmpty) = true := by
      simp only [Bool.or_eq_true, List.isEmpty_iff, not_or]
      exact ⟨hkey, hvalue⟩
    rw [hs]
    exact if_neg hne

theorem attributes?_eq_some_iff {args : Text} {attributes : List (Text × Text)} :
    attributes? args = some attributes ↔
      args.words = attributes.map written ∧ ∀ a ∈ attributes, Writable a := by
  rw [attributes?]
  generalize args.words = words
  induction words generalizing attributes with
  | nil =>
    cases attributes with
    | nil => simp
    | cons a attributes => simp
  | cons word words ih =>
    rw [List.mapM_cons]
    constructor
    · intro h
      obtain ⟨a, ha, h⟩ := Option.bind_eq_some_iff.1 h
      obtain ⟨rest, hrest, h⟩ := Option.bind_eq_some_iff.1 h
      cases h
      obtain ⟨rfl, hw⟩ := attribute?_eq_some_iff.1 ha
      obtain ⟨rfl, hws⟩ := ih.1 hrest
      exact ⟨rfl, List.forall_mem_cons.2 ⟨hw, hws⟩⟩
    · rintro ⟨h, hw⟩
      cases attributes with
      | nil => cases h
      | cons a attributes =>
        obtain ⟨hword, hwords⟩ := List.cons_eq_cons.1 h
        obtain ⟨ha, hrest⟩ := List.forall_mem_cons.1 hw
        rw [attribute?_eq_some_iff.2 ⟨hword, ha⟩, ih.2 ⟨hwords, hrest⟩]
        rfl

end Directive

end DialogScript
