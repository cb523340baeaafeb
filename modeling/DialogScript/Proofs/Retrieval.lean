import DialogScript.Proofs.Stretch
import DialogScript.Run
import DialogScript.Token.Lossless

/-!
What rendering a block asks for and what it makes of the answers. The directives of the resolved
text are looked up in their order until one fails, and each gives way to the passages found for it.
-/

namespace DialogScript

/-- A knowledge directive with the tokens in front of it and the passages that it was given. -/
structure Ask where
  before : List Token
  body : Text
  filters : Filters
  passages : List Text

namespace Ask

def tokens (a : Ask) : List Token := a.before ++ [.tag a.body]

/-- The same text with the passages in place of the directive. -/
def answer (s : Setting) (bag : Bag) (a : Ask) : Text :=
  a.before.flatMap Token.raw ++
    Placeholder.resolve bag s.defaults (s.separator.intercalate a.passages)

end Ask

theorem Unread.segments (h : Unread Knowledge.filters? tokens) :
    tokens.map Knowledge.segment = tokens.map fun token => .text token.raw := by
  apply List.map_congr_left
  intro token ht
  simp only [Knowledge.segment, h token ht]

theorem query?_segment_eq_none (token : Token) :
    (Knowledge.segment token).query? = none ↔ token.read? Knowledge.filters? = none := by
  cases h : token.read? Knowledge.filters? with
  | none => simp [Knowledge.segment, h, Segment.query?]
  | some filters => simp [Knowledge.segment, h, Segment.query?]

theorem unread_tokenize (h : knowledgeQueries text = []) :
    Unread Knowledge.filters? (tokenize text) := by
  rw [knowledgeQueries, splitKnowledge, List.filterMap_map, List.filterMap_eq_nil_iff] at h
  intro token ht
  rw [← query?_segment_eq_none]
  exact h token ht

theorem any_query? (text : Text) :
    ((splitKnowledge text).any fun segment => segment.query?.isSome) = false ↔
      knowledgeQueries text = [] := by
  rw [knowledgeQueries, List.any_eq_false, List.filterMap_eq_nil_iff]
  simp

namespace Setting

/-- The source finds the passages, after the lookups made before. -/
def Answers (s : Setting) (earlier : List Filters) (filters : Filters)
    (passages : List Text) : Prop :=
  ∃ source, s.source? = some source ∧ source earlier filters = .ok passages

/-- Why there are no passages, and what has been looked up in vain. -/
inductive Refuses (s : Setting) (earlier : List Filters) (filters : Filters) :
    List Filters → RetrievalCause → Prop
  | noSource (h : s.source? = none) : Refuses s earlier filters [] .noSource
  | failed (h : s.source? = some source) (hf : source earlier filters = .error cause) :
      Refuses s earlier filters [filters] (.failed cause)

theorem retrieve_cases (s : Setting) (lookups : List Filters) (q : Query) :
    (∃ passages, s.Answers lookups q.filters passages ∧
      s.retrieve lookups q =
        (lookups ++ [q.filters], .ok (s.separator.intercalate passages))) ∨
    ∃ made cause, s.Refuses lookups q.filters made cause ∧
      s.retrieve lookups q = (lookups ++ made, .error (.retrieval q.fullMatch cause)) := by
  cases hs : s.source? with
  | none =>
    refine .inr ⟨[], .noSource, .noSource hs, ?_⟩
    simp only [retrieve, hs, List.append_nil]
  | some source =>
    cases hf : source lookups q.filters with
    | ok passages =>
      refine .inl ⟨passages, ⟨source, hs, hf⟩, ?_⟩
      simp only [retrieve, hs, hf]
    | error cause =>
      refine .inr ⟨[q.filters], .failed cause, .failed hs hf, ?_⟩
      simp only [retrieve, hs, hf]

/-- The outcome of some lookups with more text in front. -/
def behind (front : Text) (outcome : List Filters × Except RunError Text) :
    List Filters × Except RunError Text :=
  (outcome.1, outcome.2.map (front ++ ·))

theorem behind_behind (a b : Text) (outcome : List Filters × Except RunError Text) :
    behind a (behind b outcome) = behind (a ++ b) outcome := by
  obtain ⟨lookups, result⟩ := outcome
  cases result with
  | error e => rfl
  | ok text => simp [behind, Except.map]

theorem splice_text (s : Setting) (bag : Bag) (lookups : List Filters) (t : Text)
    (rest : List Segment) :
    s.splice bag lookups (.text t :: rest) = behind t (s.splice bag lookups rest) := by
  rw [splice]
  rcases s.splice bag lookups rest with ⟨after, e | text⟩ <;> rfl

theorem splice_query (s : Setting) (bag : Bag) (lookups : List Filters) (q : Query)
    (rest : List Segment) :
    s.splice bag lookups (.query q :: rest) =
      match s.retrieve lookups q with
      | (after, .error e) => (after, .error e)
      | (after, .ok passages) =>
        behind (Placeholder.resolve bag s.defaults passages) (s.splice bag after rest) := by
  rw [splice]
  rcases s.retrieve lookups q with ⟨after, e | passages⟩
  · rfl
  · dsimp only
    rcases s.splice bag after rest with ⟨last, e | text⟩ <;> rfl

theorem splice_unread (s : Setting) (bag : Bag) (lookups : List Filters)
    (h : Unread Knowledge.filters? tokens) (rest : List Segment) :
    s.splice bag lookups (tokens.map Knowledge.segment ++ rest) =
      behind (tokens.flatMap Token.raw) (s.splice bag lookups rest) := by
  rw [h.segments]
  clear h
  induction tokens with
  | nil =>
    rcases hs : s.splice bag lookups rest with ⟨after, e | text⟩ <;> simp [hs, behind, Except.map]
  | cons token tokens ih =>
    rw [List.map_cons, List.cons_append, splice_text, ih, behind_behind, List.flatMap_cons]

/-- Directives that were answered one after another, with nothing between them that asks. -/
inductive Asked (s : Setting) : List Filters → List Ask → Prop
  | nil : Asked s lookups []
  | cons (unread : Unread Knowledge.filters? a.before)
      (reads : Knowledge.filters? a.body = some a.filters)
      (answers : s.Answers lookups a.filters a.passages)
      (rest : Asked s (lookups ++ [a.filters]) asks) : Asked s lookups (a :: asks)

/-- How rendering ends behind the directives that were answered: the tokens that are left hold no
other, or their first one is refused. -/
inductive Ends (s : Setting) (bag : Bag) (lookups : List Filters) (asks : List Ask) :
    List Token → List Filters × Except RunError Text → Prop
  | done (unread : Unread Knowledge.filters? rest) :
      Ends s bag lookups asks rest
        (lookups ++ asks.map Ask.filters,
          .ok (asks.flatMap (Ask.answer s bag) ++ rest.flatMap Token.raw))
  | refused (unread : Unread Knowledge.filters? before)
      (reads : Knowledge.filters? body = some filters)
      (refuses : s.Refuses (lookups ++ asks.map Ask.filters) filters made cause) :
      Ends s bag lookups asks (before ++ .tag body :: rest)
        (lookups ++ asks.map Ask.filters ++ made, .error (.retrieval (Token.tag body).raw cause))

theorem Ends.cons {s : Setting} {a : Ask}
    (h : Ends s bag (lookups ++ [a.filters]) asks rest outcome) :
    Ends s bag lookups (a :: asks) rest (behind (a.answer s bag) outcome) := by
  have hmade : lookups ++ [a.filters] ++ asks.map Ask.filters =
      lookups ++ (a :: asks).map Ask.filters := by simp
  cases h with
  | done unread =>
    rw [hmade, behind, Except.map, ← List.append_assoc, ← List.flatMap_cons]
    exact .done unread
  | refused unread reads refuses =>
    rw [hmade] at refuses
    rw [hmade]
    exact .refused unread reads refuses

theorem splice_stretches (s : Setting) (bag : Bag) (lookups : List Filters)
    {stretches : List (Stretch Filters)} {last : List Token}
    (hvalid : ∀ p ∈ stretches, p.Valid Knowledge.filters?)
    (hlast : Unread Knowledge.filters? last) :
    ∃ asks rest, stretches.flatMap Stretch.tokens ++ last = asks.flatMap Ask.tokens ++ rest ∧
      s.Asked lookups asks ∧
      s.Ends bag lookups asks rest (s.splice bag lookups
        ((stretches.flatMap Stretch.tokens ++ last).map Knowledge.segment)) := by
  -- on the stretches, after any lookups: the first is answered, or rendering ends there
  induction stretches generalizing lookups with
  | nil =>
    have hs := s.splice_unread bag lookups hlast []
    rw [List.append_nil, splice, behind, Except.map, List.append_nil] at hs
    refine ⟨[], last, rfl, .nil, ?_⟩
    have hends : s.Ends bag lookups [] last _ := .done hlast
    rw [List.map_nil, List.append_nil, List.flatMap_nil, List.nil_append] at hends
    rw [List.flatMap_nil, List.nil_append, hs]
    exact hends
  | cons p stretches ih =>
    rw [List.forall_mem_cons] at hvalid
    obtain ⟨hp, hvalid⟩ := hvalid
    have hsegment : Knowledge.segment (.tag p.body) = .query ⟨(Token.tag p.body).raw, p.found⟩ := by
      simp only [Knowledge.segment, Token.read?, hp.reads]
    have hsplit : (p :: stretches).flatMap Stretch.tokens ++ last =
        p.before ++ .tag p.body :: (stretches.flatMap Stretch.tokens ++ last) := by
      simp [Stretch.tokens]
    rw [hsplit, List.map_append, s.splice_unread bag lookups hp.unread, List.map_cons, hsegment,
      splice_query]
    rcases s.retrieve_cases lookups ⟨(Token.tag p.body).raw, p.found⟩ with
      ⟨passages, hanswers, hr⟩ | ⟨made, cause, hrefuses, hr⟩
    · obtain ⟨asks, rest, htokens, hasked, hends⟩ := ih (lookups ++ [p.found]) hvalid
      let a : Ask := ⟨p.before, p.body, p.found, passages⟩
      refine ⟨a :: asks, rest, ?_, .cons hp.unread hp.reads hanswers hasked, ?_⟩
      · rw [htokens, List.flatMap_cons, Ask.tokens, List.append_assoc, List.append_assoc]
        rfl
      · rw [hr]
        dsimp only
        rw [behind_behind]
        exact Ends.cons (a := a) hends
    · rw [← List.append_nil lookups] at hrefuses
      have hends : s.Ends bag lookups []
          (p.before ++ .tag p.body :: (stretches.flatMap Stretch.tokens ++ last)) _ :=
        .refused hp.unread hp.reads hrefuses
      rw [List.map_nil, List.append_nil] at hends
      rw [hr]
      exact ⟨[], _, rfl, .nil, hends⟩

/-- Splicing looks the directives of some tokens up in their order until one is refused. -/
theorem splice_asks (s : Setting) (bag : Bag) (lookups : List Filters) (tokens : List Token) :
    ∃ asks rest, tokens = asks.flatMap Ask.tokens ++ rest ∧ s.Asked lookups asks ∧
      s.Ends bag lookups asks rest (s.splice bag lookups (tokens.map Knowledge.segment)) := by
  obtain ⟨stretches, last, rfl, hvalid, hlast⟩ := exists_stretches Knowledge.filters? tokens
  exact s.splice_stretches bag lookups hvalid hlast

theorem splice_of_no_query (s : Setting) (bag : Bag) (lookups : List Filters)
    (h : knowledgeQueries text = []) :
    s.splice bag lookups (splitKnowledge text) = (lookups, .ok text) := by
  have hs := s.splice_unread bag lookups (unread_tokenize h) []
  rw [List.append_nil, splice, behind, Except.map, List.append_nil, flatMap_raw_tokenize] at hs
  exact hs

/-- Taking a text that asks for nothing as it is agrees with splicing it. -/
theorem render_eq_splice (s : Setting) (bag : Bag) (lookups : List Filters) (b : Block) :
    s.render bag lookups b =
      s.splice bag lookups (splitKnowledge (Placeholder.resolve bag s.defaults b.template)) := by
  rw [render]
  split
  · rfl
  · rename_i h
    rw [Bool.not_eq_true, any_query?] at h
    exact (s.splice_of_no_query bag lookups h).symm

/-- Rendering in full. The directives of the resolved text are looked up in order, each with its own
filters, until one is refused; if none is, each stands for its resolved passages and all else is
copied. A text without a query comes out of the loop as it is taken without it. -/
theorem render_asks (s : Setting) (bag : Bag) (lookups : List Filters) (b : Block) :
    let resolved := Placeholder.resolve bag s.defaults b.template
    (knowledgeQueries resolved = [] →
      s.render bag lookups b = (lookups, .ok resolved) ∧
      s.splice bag lookups (splitKnowledge resolved) = (lookups, .ok resolved)) ∧
    ∃ asks rest,
      tokenize resolved = asks.flatMap Ask.tokens ++ rest ∧
      resolved = (asks.flatMap fun a => a.before.flatMap Token.raw ++ (Token.tag a.body).raw) ++
        rest.flatMap Token.raw ∧
      s.Asked lookups asks ∧
      s.Ends bag lookups asks rest (s.render bag lookups b) := by
  intro resolved
  constructor
  · intro h
    have hs := s.splice_of_no_query bag lookups h
    exact ⟨(s.render_eq_splice bag lookups b).trans hs, hs⟩
  · obtain ⟨asks, rest, htokens, hasked, hends⟩ := s.splice_asks bag lookups (tokenize resolved)
    have htext := flatMap_raw_tokenize resolved
    rw [htokens, List.flatMap_append, List.flatMap_assoc] at htext
    refine ⟨asks, rest, htokens, ?_, hasked, ?_⟩
    · simp only [Ask.tokens, List.flatMap_append, List.flatMap_singleton] at htext
      exact htext.symm
    · rw [render_eq_splice]
      exact hends

example :
    let first := (Token.tag "#knowledgebase id=a".toList).raw
    let second := (Token.tag "#knowledgebase name=b".toList).raw
    let source : KnowledgeSource := fun earlier _ =>
      if earlier.isEmpty then .ok [first, "c".toList] else .error "offline".toList
    let s : Setting := { generator := .echo [], source? := some source }
    let ids : Filters := { id := some ["a".toList] }
    s.render [] [] (.trailing (first ++ ['.'])) = ([ids], .ok (first ++ "\nc.".toList)) ∧
    s.render [] [] (.trailing (first ++ second)) =
      ([ids, { names := some ["b".toList] }],
        .error (.retrieval second (.failed "offline".toList))) := ⟨rfl, rfl⟩

end Setting

end DialogScript
