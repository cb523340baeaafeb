import DialogScript.Proofs.Blank
import DialogScript.Proofs.Closed

/-! Texts and values without an opening brace, and tokens that nothing behind their text changes. -/

namespace DialogScript

theorem tokenize_of_noOpen (h : text.NoPair '{') :
    tokenize text = Token.push (.literal text) [] := by
  by_cases hne : text = []
  · rw [hne]
    rfl
  · have hq : Quiet text := by
      rw [Quiet, Scan.foldl_noOpen h]
    rw [hq.tokenize hne]
    exact (if_neg hne).symm

theorem findTags_of_noOpen (h : Text.NoPair '{' text) (reader : Text → Option α) :
    findTags reader text = [] := by
  rw [findTags, tokenize_of_noOpen h, List.filterMap_eq_flatMap_toList,
    Token.flatMap_push _ fun _ _ => rfl]
  rfl

theorem resolveWith_of_noOpen (h : Text.NoPair '{' text) (meaning : Text → Text) :
    Placeholder.resolveWith meaning text = text := by
  rw [Placeholder.resolveWith, tokenize_of_noOpen h, Token.flatMap_push _ fun _ _ => rfl]
  exact List.append_nil text

theorem plain_of_notMem (h : '{' ∉ text) : Plain text where
  noOpen := Text.noPair_of_notMem h
  last hl := h (List.mem_of_getLast? hl)

namespace Scan

theorem step_of_not_brace (s : Scan) (hopen : c ≠ '{') (hclose : c ≠ '}') :
    (s.step c).tokens = s.tokens ∧ (s.step c).pending = s.pending ++ [c] := by
  have h := moves_step s c
  generalize s.step c = s' at h
  cases h with
  | enter => exact (hopen rfl).elim
  | text h => exact ⟨rfl, by simp [pending]⟩
  | close => exact (hclose rfl).elim
  | restart => exact (hopen rfl).elim
  | body => exact ⟨rfl, by simp [pending]⟩

theorem foldl_of_not_brace (s : Scan) (hopen : '{' ∉ w) (hclose : '}' ∉ w) :
    (w.foldl step s).tokens = s.tokens ∧ (w.foldl step s).pending = s.pending ++ w := by
  induction w generalizing s with
  | nil => exact ⟨rfl, (List.append_nil _).symm⟩
  | cons c w ih =>
    rw [List.mem_cons, not_or] at hopen hclose
    obtain ⟨ht, hp⟩ := s.step_of_not_brace (Ne.symm hopen.1) (Ne.symm hclose.1)
    obtain ⟨ht', hp'⟩ := ih (s.step c) hopen.2 hclose.2
    rw [hp, List.append_assoc] at hp'
    exact ⟨ht'.trans ht, hp'⟩

end Scan

/-- Text without braces behind a text ends up behind the resolved one. -/
theorem resolveWith_append_of_not_brace (meaning : Text → Text) (text : Text) (hopen : '{' ∉ w)
    (hclose : '}' ∉ w) : Placeholder.resolveWith meaning (text ++ w) =
      Placeholder.resolveWith meaning text ++ w := by
  have hfinish (s : Scan) : s.finish.flatMap (Placeholder.fill meaning) =
      s.tokens.reverse.flatMap (Placeholder.fill meaning) ++ s.pending := by
    rw [Scan.finish_eq, List.flatMap_append]
    split
    · rename_i h
      rw [h]
      rfl
    · rw [List.flatMap_singleton]
      rfl
  obtain ⟨ht, hp⟩ := (text.foldl Scan.step {}).foldl_of_not_brace hopen hclose
  rw [Placeholder.resolveWith, tokenize, List.foldl_append, hfinish, ht, hp, ← List.append_assoc,
    ← hfinish]
  rfl

/-- Blanks around a text are the same blanks around the resolved one. -/
theorem trim_resolveWith_trim (meaning : Text → Text) (text : Text) :
    (Placeholder.resolveWith meaning text.trim).trim =
      (Placeholder.resolveWith meaning text).trim := by
  obtain ⟨a, b, he, ha, hb⟩ := Text.exists_blank_trim text
  have hplain : Plain a := plain_of_notMem (ha.notMem rfl)
  conv_rhs => rw [he, List.append_assoc, hplain.closed.resolveWith_append,
    resolveWith_of_noOpen hplain.noOpen,
    resolveWith_append_of_not_brace meaning _ (hb.notMem rfl) (hb.notMem rfl)]
  rw [Text.trim_blank_append ha, Text.trim_append_blank _ hb]

namespace Token

/-- Nothing behind its text changes how the token is read. -/
def IsClosed : Token → Prop
  | literal text => Plain text
  | tag body => IsBody body

theorem IsClosed.tokenize_append (h : IsClosed token) (next : Text) :
    tokenize (token.raw ++ next) = token.push (tokenize next) := by
  cases token with
  | literal text => exact Plain.tokenize_append h next
  | tag body => exact IsBody.tokenize_tag_append h next

theorem IsClosed.closed (h : IsClosed token) : Closed token.raw := by
  cases token with
  | literal text => exact Plain.closed h
  | tag body => exact IsBody.closed h

theorem IsClosed.resolveWith_raw (h : IsClosed token) (meaning : Text → Text) :
    Placeholder.resolveWith meaning token.raw = Placeholder.fill meaning token := by
  have ht := h.tokenize_append []
  rw [List.append_nil] at ht
  rw [Placeholder.resolveWith, ht, flatMap_push _ fun _ _ => rfl]
  exact List.append_nil _

theorem tokenize_flatMap_raw_append {tokens : List Token} (h : ∀ token ∈ tokens, IsClosed token)
    (next : Text) : tokenize (tokens.flatMap raw ++ next) = tokens.foldr push (tokenize next) := by
  induction tokens with
  | nil => rfl
  | cons token rest ih =>
    rw [List.forall_mem_cons] at h
    rw [List.flatMap_cons, List.append_assoc, h.1.tokenize_append, ih h.2, List.foldr_cons]

theorem findTags_closed_append {tokens : List Token} (h : ∀ token ∈ tokens, IsClosed token)
    (next : Text) (reader : Text → Option α) :
    findTags reader (tokens.flatMap raw ++ next) =
      tokens.filterMap (read? reader) ++ findTags reader next := by
  rw [findTags, tokenize_flatMap_raw_append h, List.filterMap_eq_flatMap_toList,
    flatMap_foldr_push _ fun _ _ => rfl, ← List.filterMap_eq_flatMap_toList,
    ← List.filterMap_eq_flatMap_toList]
  rfl

theorem findTags_flatMap_raw_append {tokens : List Token} (h : ∀ token ∈ tokens, IsClosed token)
    (hlast : Text.NoPair '{' last) (reader : Text → Option α) :
    findTags reader (tokens.flatMap raw ++ last) = tokens.filterMap (read? reader) := by
  rw [findTags_closed_append h, findTags_of_noOpen hlast, List.append_nil]

end Token

/-- A literal run in front of a tag ends in no brace if it holds no pair of them. -/
theorem Leads.plain (hl : Leads text) (h : Text.NoPair '{' text) : Plain text := by
  refine ⟨h, ?_⟩
  intro hlast
  obtain ⟨front, rfl⟩ := List.getLast?_eq_some_iff.1 hlast
  rw [Leads, List.foldl_append, Scan.foldl_noOpen h, List.reverse_append] at hl
  have hbody : some ['{'] = some [] := congrArg Scan.body? hl
  cases hbody

/-- Tokens without a pair of braces in their literal runs are closed up to the last run. -/
theorem Settled.exists_closed (h : Settled tokens)
    (hopen : ∀ text, .literal text ∈ tokens → Text.NoPair '{' text) :
    ∃ (front : List Token) (last : Text), tokens = front ++ DialogScript.tokenize last ∧
      (∀ token ∈ front, token.IsClosed) ∧ last.NoPair '{' := by
  induction h with
  | nil => exact ⟨[], [], rfl, by simp, Text.noPair_nil _⟩
  | @literal text hne hq =>
    exact ⟨[], text, (hq.tokenize hne).symm, by simp, hopen text List.mem_cons_self⟩
  | @tag body rest hb _ ih =>
    obtain ⟨front, last, rfl, hfront, hlast⟩ :=
      ih fun text ht => hopen text (List.mem_cons_of_mem _ ht)
    refine ⟨.tag body :: front, last, rfl, ?_, hlast⟩
    rw [List.forall_mem_cons]
    exact ⟨hb, hfront⟩
  | @literal_tag text body rest _ hl hb _ ih =>
    obtain ⟨front, last, rfl, hfront, hlast⟩ :=
      ih fun text ht => hopen text (List.mem_cons_of_mem _ (List.mem_cons_of_mem _ ht))
    refine ⟨.literal text :: .tag body :: front, last, rfl, ?_, hlast⟩
    rw [List.forall_mem_cons, List.forall_mem_cons]
    exact ⟨hl.plain (hopen text List.mem_cons_self), hb, hfront⟩

end DialogScript
