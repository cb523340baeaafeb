import DialogScript.Proofs.SectionFill

/-!
Texts whose literal runs open no tag. Put into such a text in place of placeholders, texts of the
same kind bring their own tags with them and change no other.
-/

namespace DialogScript

theorem Plain.noPair_append (ha : Plain a) (hb : Text.NoPair '{' b) :
    Text.NoPair '{' (a ++ b) :=
  ha.noOpen.append hb fun h => ha.last h.1

/-- No literal run among the tokens holds a pair of opening braces. -/
def TidyTokens (tokens : List Token) : Prop := ∀ run, .literal run ∈ tokens → run.NoPair '{'

def Tidy (text : Text) : Prop := TidyTokens (tokenize text)

/-- The text is tidy and does not end in an opening brace. -/
def Whole (text : Text) : Prop := ∀ run, .literal run ∈ tokenize text → Plain run

theorem Settled.isBody (h : Settled tokens) (ht : .tag body ∈ tokens) : IsBody body := by
  induction h with
  | nil => cases ht
  | literal => simp at ht
  | @tag other rest hb _ ih =>
    rcases List.mem_cons.1 ht with he | ht
    · cases he
      exact hb
    · exact ih ht
  | @literal_tag text other rest _ _ hb _ ih =>
    rw [List.mem_cons, List.mem_cons] at ht
    rcases ht with he | he | ht
    · cases he
    · cases he
      exact hb
    · exact ih ht

theorem Whole.isClosed (h : Whole text) : ∀ token ∈ tokenize text, token.IsClosed := by
  intro token ht
  cases token with
  | literal run => exact h run ht
  | tag body => exact (settled_tokenize text).isBody ht

theorem tokenize_noOpen_cases (h : Text.NoPair '{' text) :
    tokenize text = [] ∨ tokenize text = [.literal text] := by
  rw [tokenize_of_noOpen h]
  rcases Token.push_literal_cases text [] with ⟨-, he⟩ | he | ⟨next, rest, he, -⟩
  · exact .inl he
  · exact .inr he
  · cases he

/-- In front of a tag every token of a tidy text is closed. -/
theorem Settled.isClosed_of_tag {tokens : List Token} (h : Settled (tokens ++ [.tag body]))
    (ht : TidyTokens tokens) : ∀ token ∈ tokens, token.IsClosed := by
  have hopen : ∀ run, .literal run ∈ tokens ++ [.tag body] → run.NoPair '{' := by
    intro run hr
    rw [List.mem_append, List.mem_singleton] at hr
    rcases hr with hr | hr
    · exact ht run hr
    · cases hr
  obtain ⟨front, last, he, hfront, hlast⟩ := h.exists_closed hopen
  rcases tokenize_noOpen_cases hlast with hlast | hlast
  · rw [hlast, List.append_nil] at he
    intro token hm
    apply hfront
    rw [← he]
    exact List.mem_append_left _ hm
  · -- the tokens end in a tag, so no run can be the last
    rw [hlast] at he
    cases (List.append_inj' he rfl).2

theorem Token.IsClosed.tidyTokens_push {token : Token} (hc : token.IsClosed)
    (ht : TidyTokens tokens) : TidyTokens (token.push tokens) := by
  intro run hr
  cases token with
  | tag body =>
    rcases List.mem_cons.1 hr with he | hr
    · cases he
    · exact ht run hr
  | literal text =>
    rcases Token.push_literal_cases text tokens with ⟨-, h⟩ | h | ⟨next, rest, rfl, h⟩
    · rw [h] at hr
      exact ht run hr
    · rw [h] at hr
      rcases List.mem_cons.1 hr with he | hr
      · cases he
        exact Plain.noOpen hc
      · exact ht run hr
    · rw [h] at hr
      rcases List.mem_cons.1 hr with he | hr
      · cases he
        exact Plain.noPair_append hc (ht next List.mem_cons_self)
      · exact ht run (List.mem_cons_of_mem _ hr)

theorem tidy_of_noOpen (h : Text.NoPair '{' text) : Tidy text := by
  intro run hr
  rcases tokenize_noOpen_cases h with he | he
  · rw [he] at hr
    cases hr
  · rw [he, List.mem_singleton] at hr
    cases hr
    exact h

theorem Tidy.flatMap_raw_append {tokens : List Token} (ht : ∀ token ∈ tokens, token.IsClosed)
    (h : Tidy next) : Tidy (tokens.flatMap Token.raw ++ next) := by
  rw [Tidy, Token.tokenize_flatMap_raw_append ht]
  induction tokens with
  | nil => exact h
  | cons token tokens ih =>
    rw [List.forall_mem_cons] at ht
    exact ht.1.tidyTokens_push (ih ht.2)

namespace Placeholder

/-- The tokens that a token is read as once its placeholder is replaced. -/
def expand (meaning : Text → Text) (token : Token) : List Token :=
  match token.read? name? with
  | some name => tokenize (meaning name)
  | none => [token]

theorem flatMap_raw_expand (meaning : Text → Text) (token : Token) :
    (expand meaning token).flatMap Token.raw = fill meaning token := by
  rw [expand, fill]
  cases token.read? name? with
  | none => exact List.flatMap_singleton _ _
  | some name => exact flatMap_raw_tokenize _

theorem expand_tokenize_of_noOpen (h : Text.NoPair '{' text) (meaning : Text → Text) :
    (tokenize text).flatMap (expand meaning) = tokenize text := by
  rcases tokenize_noOpen_cases h with he | he
  · rw [he]
    rfl
  · rw [he]
    rfl

/-- The resolved text is that of the expanded tokens, which are closed up to a last run. -/
theorem exists_expanded {meaning : Text → Text} (ht : Tidy text)
    (hm : ∀ name ∈ referenced text, Whole (meaning name)) :
    ∃ front last, (tokenize text).flatMap (expand meaning) = front ++ tokenize last ∧
      resolveWith meaning text = front.flatMap Token.raw ++ last ∧
      (∀ token ∈ front, token.IsClosed) ∧ last.NoPair '{' := by
  obtain ⟨front, last, he, hfront, hlast⟩ := (settled_tokenize text).exists_closed ht
  refine ⟨front.flatMap (expand meaning), last, ?_, ?_, ?_, hlast⟩
  · rw [he, List.flatMap_append, expand_tokenize_of_noOpen hlast]
  · have hraw : (tokenize last).flatMap (fill meaning) = last := resolveWith_of_noOpen hlast meaning
    rw [resolveWith, he, List.flatMap_append, hraw, List.flatMap_assoc]
    simp only [flatMap_raw_expand]
  · intro token hmem
    obtain ⟨old, hold, hnew⟩ := List.mem_flatMap.1 hmem
    rw [expand] at hnew
    cases hn : old.read? name? with
    | none =>
      rw [hn, List.mem_singleton] at hnew
      rw [hnew]
      exact hfront old hold
    | some name =>
      rw [hn] at hnew
      have hold' : old ∈ tokenize text := by
        rw [he]
        exact List.mem_append_left _ hold
      exact (hm name (mem_referenced hold' hn)).isClosed token hnew

end Placeholder

theorem Tidy.resolveWith {meaning : Text → Text} (ht : Tidy text)
    (hm : ∀ name ∈ Placeholder.referenced text, Whole (meaning name)) :
    Tidy (Placeholder.resolveWith meaning text) := by
  obtain ⟨front, last, -, he, hfront, hlast⟩ := Placeholder.exists_expanded ht hm
  rw [he]
  exact (tidy_of_noOpen hlast).flatMap_raw_append hfront

/-- The tags of a resolved text are those of the text with those of the values in between. -/
theorem Tidy.findTags_resolveWith {meaning : Text → Text} (ht : Tidy text)
    (hm : ∀ name ∈ Placeholder.referenced text, Whole (meaning name))
    (reader : Text → Option α) :
    findTags reader (Placeholder.resolveWith meaning text) =
      (tokenize text).flatMap fun token =>
        (Placeholder.expand meaning token).filterMap (Token.read? reader) := by
  obtain ⟨front, last, htokens, he, hfront, -⟩ := Placeholder.exists_expanded ht hm
  rw [he, Token.findTags_closed_append hfront, findTags, ← List.filterMap_append, ← htokens,
    List.filterMap_flatMap]

theorem Tidy.findTags_resolveWith_congr {meaning meaning' : Text → Text} (ht : Tidy text)
    (hm : ∀ name ∈ Placeholder.referenced text, Whole (meaning name))
    (hm' : ∀ name ∈ Placeholder.referenced text, Whole (meaning' name))
    {reader : Text → Option α} (h : ∀ name ∈ Placeholder.referenced text,
      findTags reader (meaning name) = findTags reader (meaning' name)) :
    findTags reader (Placeholder.resolveWith meaning text) =
      findTags reader (Placeholder.resolveWith meaning' text) := by
  rw [ht.findTags_resolveWith hm, ht.findTags_resolveWith hm']
  apply List.flatMap_congr
  intro token hmem
  rw [Placeholder.expand, Placeholder.expand]
  cases hn : token.read? Placeholder.name? with
  | none => rfl
  | some name => exact h name (Placeholder.mem_referenced hmem hn)

end DialogScript
