import DialogScript.Proofs.SectionFill

/-!
Values without an opening brace leave the structure of a text as it is: the text that they are put
into holds the same directives and the same role sections as before.
-/

namespace DialogScript

/-- A text as closed tokens, still closed without their placeholders, and a last literal run. -/
structure Cut (meaning : Text → Text) (text : Text) (front : List Token) (last : Text) : Prop where
  tokenize_eq : tokenize text = front ++ tokenize last
  closed : ∀ token ∈ front, token.IsClosed
  settled : ∀ token ∈ front.map (Placeholder.settle meaning), token.IsClosed
  noOpen : last.NoPair '{'

theorem exists_cut {meaning : Text → Text}
    (hopen : ∀ run, .literal run ∈ tokenize text → run.NoPair '{')
    (hvalue : ∀ name ∈ Placeholder.referenced text, '{' ∉ meaning name) :
    ∃ front last, Cut meaning text front last := by
  obtain ⟨front, last, he, hclosed, hlast⟩ := (settled_tokenize text).exists_closed hopen
  refine ⟨front, last, he, hclosed, ?_, hlast⟩
  intro token ht
  obtain ⟨old, hold, rfl⟩ := List.mem_map.1 ht
  rcases Placeholder.settle_cases meaning old with ⟨name, body, rfl, hname, hs⟩ | ⟨-, hs⟩
  · have hmem : .tag body ∈ tokenize text := by
      rw [he]
      exact List.mem_append_left _ hold
    rw [hs]
    exact plain_of_notMem (hvalue name (Placeholder.mem_referenced hmem hname))
  · rw [hs]
    exact hclosed old hold

namespace Cut

theorem resolveWith_eq (h : Cut meaning text front last) :
    Placeholder.resolveWith meaning text =
      (front.map (Placeholder.settle meaning)).flatMap Token.raw ++ last := by
  have hlast : (tokenize last).flatMap (Placeholder.fill meaning) = last :=
    resolveWith_of_noOpen h.noOpen meaning
  rw [Placeholder.resolveWith, h.tokenize_eq, List.flatMap_append, hlast, List.flatMap_map]
  simp only [Placeholder.raw_settle]

theorem findTags_resolveWith (h : Cut meaning text front last) (reader : Text → Option α) :
    findTags reader (Placeholder.resolveWith meaning text) =
      (front.map (Placeholder.settle meaning)).filterMap (Token.read? reader) := by
  rw [h.resolveWith_eq, Token.findTags_flatMap_raw_append h.settled h.noOpen]

theorem findTags_eq (h : Cut meaning text front last) (reader : Text → Option α) :
    findTags reader text = front.filterMap (Token.read? reader) := by
  have hlast : (tokenize last).filterMap (Token.read? reader) = [] :=
    findTags_of_noOpen h.noOpen reader
  rw [findTags, h.tokenize_eq, List.filterMap_append, hlast, List.append_nil]

/-- A reader that leaves placeholders alone finds the same in the resolved text. -/
theorem findTags_keep (h : Cut meaning text front last) (reader : Text → Option α)
    (hreader : ∀ body name, Placeholder.name? body = some name → reader body = none) :
    findTags reader (Placeholder.resolveWith meaning text) = findTags reader text := by
  rw [h.findTags_resolveWith, h.findTags_eq, List.filterMap_map]
  congr 1
  funext token
  exact Placeholder.read?_settle meaning token reader hreader

theorem referenced_resolveWith (h : Cut meaning text front last) :
    Placeholder.referenced (Placeholder.resolveWith meaning text) = [] := by
  rw [Placeholder.referenced, h.findTags_resolveWith, List.filterMap_map]
  have hnone : Token.read? Placeholder.name? ∘ Placeholder.settle meaning = fun _ => none := by
    funext token
    exact Placeholder.read?_name?_settle meaning token
  rw [hnone, List.filterMap_none]
  rfl

theorem splitSections?_resolveWith (h : Cut meaning text front last) :
    splitSections? (Placeholder.resolveWith meaning text) =
      (splitSections? text).map (List.map (Message.resolved meaning)) := by
  have hstart : Sections.resolved meaning {} = {} := rfl
  have hfold := Sections.sealed_start.foldlM_settle h.closed meaning
  rw [hstart] at hfold
  rw [splitSections?, h.resolveWith_eq, Token.tokenize_flatMap_raw_append h.settled,
    Sections.foldlM_foldr_push, List.foldlM_append, hfold, splitSections?, h.tokenize_eq,
    List.foldlM_append]
  cases hs : front.foldlM Sections.step {} with
  | none => rfl
  | some s =>
    have hsealed := Sections.sealed_start.foldlM h.closed hs
    have hlast := hsealed.resolved_addText meaning last
    rw [resolveWith_of_noOpen h.noOpen] at hlast
    have hrun (s : Sections) := s.foldlM_tokenize_of_noOpen h.noOpen
    simp only [Option.map_some, Option.bind_eq_bind, Option.bind_some, hrun, ← hlast,
      Sections.finish_resolved]

end Cut

theorem Placeholder.resolveWith_of_referenced_nil (h : referenced text = [])
    (meaning : Text → Text) : resolveWith meaning text = text := by
  have hraw : ∀ token ∈ tokenize text, fill meaning token = token.raw := by
    intro token ht
    cases hn : token.read? name? with
    | none => simp only [fill, hn]
    | some name =>
      have hmem := mem_referenced ht hn
      rw [h] at hmem
      cases hmem
  rw [resolveWith, List.flatMap_congr hraw, flatMap_raw_tokenize]

theorem knowledgeQueries_eq_findTags (text : Text) :
    knowledgeQueries text = findTags (fun body =>
      (Knowledge.filters? body).map fun filters => ⟨(Token.tag body).raw, filters⟩) text := by
  rw [knowledgeQueries, splitKnowledge, List.filterMap_map, findTags]
  congr 1
  funext token
  cases token with
  | literal run => rfl
  | tag body =>
    rw [Function.comp_apply, Knowledge.segment, Token.read?, Token.read?]
    cases Knowledge.filters? body <;> rfl

theorem Cut.knowledgeQueries_resolveWith (h : Cut meaning text front last) :
    knowledgeQueries (Placeholder.resolveWith meaning text) = knowledgeQueries text := by
  rw [knowledgeQueries_eq_findTags, knowledgeQueries_eq_findTags]
  apply h.findTags_keep
  intro body name hname
  rw [Knowledge.filters?_of_name? hname]
  rfl

namespace Placeholder

/-- Values without an opening brace leave no placeholder and change no directive and no section. -/
theorem resolve_structure {text : Text} {bag : Bag} {defaults : Table Text}
    (hopen : ∀ run, .literal run ∈ tokenize text → ¬ ['{', '{'] <:+: run)
    (hvalue : ∀ name ∈ referenced text, '{' ∉ meaning bag defaults name) :
    referenced (resolve bag defaults text) = [] ∧
    (∀ bag' defaults', resolve bag' defaults' (resolve bag defaults text) =
      resolve bag defaults text) ∧
    knowledgeQueries (resolve bag defaults text) = knowledgeQueries text ∧
    splitSections? (resolve bag defaults text) = (splitSections? text).map (List.map fun m =>
      { m with content := (resolve bag defaults m.content).trim }) := by
  obtain ⟨front, last, hcut⟩ := exists_cut hopen hvalue
  have hnone := hcut.referenced_resolveWith
  have hagain (bag' : Bag) (defaults' : Table Text) :=
    resolveWith_of_referenced_nil hnone (meaning bag' defaults')
  exact ⟨hnone, hagain, hcut.knowledgeQueries_resolveWith, hcut.splitSections?_resolveWith⟩

/-- The law where a value that ends in a brace and a blank stands at the end of a section. -/
theorem resolve_structure_section :
    let query := (Token.tag "#knowledgebase id=a".toList).raw
    let text := (Token.tag "#role=system".toList).raw ++ " Be ".toList ++
      (Token.tag "mood".toList).raw ++ (Token.tag "/role".toList).raw ++ query
    let bag : Bag := [("mood".toList, .text "calm\x7d ".toList)]
    (∀ run, .literal run ∈ tokenize text → ¬ ['{', '{'] <:+: run) ∧
    (∀ name ∈ referenced text, '{' ∉ meaning bag [] name) ∧
    referenced text = ["mood".toList] ∧
    referenced (resolve bag [] text) = [] ∧
    knowledgeQueries (resolve bag [] text) = knowledgeQueries text ∧
    splitSections? (resolve bag [] text) =
      some [⟨.system, "Be calm\x7d".toList⟩, ⟨.user, query⟩] := by
  intro query text bag
  have hsections : splitSections? text = some [⟨.system, "Be ".toList ++
      (Token.tag "mood".toList).raw⟩, ⟨.user, query⟩] := rfl
  have htokens : tokenize text = [.tag "#role=system".toList, .literal " Be ".toList,
      .tag "mood".toList, .tag "/role".toList, .tag "#knowledgebase id=a".toList] := rfl
  have hopen : ∀ run, .literal run ∈ tokenize text → ¬ ['{', '{'] <:+: run := by
    intro run hrun
    have he : run = " Be ".toList := by simpa [htokens] using hrun
    rw [he]
    decide
  have hvalue : ∀ name ∈ referenced text, '{' ∉ meaning bag [] name := by
    have hnames : referenced text = ["mood".toList] := rfl
    rw [hnames, List.forall_mem_singleton]
    decide
  obtain ⟨hnone, -, hqueries, hsplit⟩ := resolve_structure hopen hvalue
  rw [hsections] at hsplit
  exact ⟨hopen, hvalue, rfl, hnone, hqueries, hsplit⟩

end Placeholder

end DialogScript
