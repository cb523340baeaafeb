import DialogScript.Lint
import DialogScript.Proofs.Retrieval
import DialogScript.Proofs.Separation

/-!
Knowledge directives that ask for nothing. The linter reports each of them and nothing else as a
directive without a filter, so that every knowledge directive of a text is either a query or
reported, in the whole text as in its blocks.
-/

namespace DialogScript

namespace Token

def isKnowledge (token : Token) : Bool := (token.read? Knowledge.arguments?).isSome

/-- A knowledge directive in whose text no query is found. -/
def isIdle (token : Token) : Bool := token.isKnowledge && (knowledgeQueries token.raw).isEmpty

def query? (token : Token) : Option Query := (Knowledge.segment token).query?

theorem query?_eq_none_iff (token : Token) :
    token.query? = none ↔ token.read? Knowledge.filters? = none := query?_segment_eq_none token

theorem isNone_query? (token : Token) :
    token.query?.isNone = (token.read? Knowledge.filters?).isNone := by
  rw [Bool.eq_iff_iff, Option.isNone_iff_eq_none, Option.isNone_iff_eq_none, query?_eq_none_iff]

theorem isKnowledge_of_query? (h : query? token ≠ none) : token.isKnowledge := by
  rw [ne_eq, query?_eq_none_iff] at h
  cases token with
  | literal run => exact (h rfl).elim
  | tag body =>
    obtain ⟨filters, hfilters⟩ := Option.ne_none_iff_exists'.1 h
    exact TagKind.fits_knowledge hfilters

end Token

/-- The knowledge directives of a text that ask for nothing. -/
def idleTags (text : Text) : List Token := (tokenize text).filter Token.isIdle

theorem knowledgeQueries_eq_filterMap (text : Text) :
    knowledgeQueries text = (tokenize text).filterMap Token.query? := List.filterMap_map

/-- A directive of a text is idle if the text has no query in its place. -/
theorem isIdle_eq (h : token ∈ tokenize text) :
    token.isIdle = (token.isKnowledge && token.query?.isNone) := by
  rw [Token.isIdle, knowledgeQueries_eq_filterMap, tokenize_token h]
  cases hq : token.query? with
  | none => rw [List.filterMap_cons_none hq]; rfl
  | some query => rw [List.filterMap_cons_some hq]; rfl

theorem length_knowledge (text : Text) :
    ((tokenize text).filter Token.isKnowledge).length =
      (knowledgeQueries text).length + (idleTags text).length := by
  rw [idleTags, List.length_eq_countP_add_countP fun token => token.query?.isSome,
    List.countP_filter, List.countP_filter, knowledgeQueries_eq_filterMap,
    List.length_filterMap_eq_countP, ← List.countP_eq_length_filter]
  congr 1
  · apply List.countP_congr
    intro token _
    rw [Bool.and_eq_true, and_iff_left_iff_imp]
    intro hquery
    apply Token.isKnowledge_of_query?
    rwa [← Option.isSome_iff_ne_none]
  · apply List.countP_congr
    intro token ht
    rw [isIdle_eq ht]
    cases token.query? <;> simp

theorem knowledgeQueries_blocks (h : parseBlocks text = .ok blocks) :
    (blocks.flatMap fun b => knowledgeQueries b.template) = knowledgeQueries text := by
  simp only [knowledgeQueries_eq_filterMap]
  apply filterMap_blocks h
  intro body b hread
  rw [Token.query?_eq_none_iff]
  exact TagKind.eq_none_of_fits (TagKind.fits_blockBreak hread) (fun _ => TagKind.fits_knowledge)
    nofun

theorem idleTags_blocks (h : parseBlocks text = .ok blocks) :
    (blocks.flatMap fun b => idleTags b.template) = idleTags text := by
  simp only [idleTags, ← List.filterMap_eq_filter]
  apply filterMap_blocks h
  intro body b hread
  have hknowledge (args : Text) (h : Knowledge.arguments? body = some args) :
      TagKind.knowledge.fits body := Option.isSome_of_eq_some h
  have hargs := TagKind.eq_none_of_fits (TagKind.fits_blockBreak hread) hknowledge nofun
  rw [Option.guard_eq_none_iff, Token.isIdle, Token.isKnowledge, Token.read?, hargs]
  rfl

namespace Lint

/-- The warning is about a knowledge directive without a filter. -/
def Warning.isUnfiltered : Warning → Bool
  | knowledgeWithoutFilter _ => true
  | _ => false

/-- What the linter has to say about knowledge directives. -/
def unfiltered (r : Record) : List Warning := (check r).warnings.filter Warning.isUnfiltered

theorem knowledge_eq (text : Text) :
    knowledge text = (idleTags text).map fun token => .knowledgeWithoutFilter token.raw := by
  -- the linter looks for directives in the segments that are kept, which are read a second time
  have hkept : knowledge text =
      ((splitKnowledge text).flatMap (Segment.findTags fun body =>
        if (Knowledge.arguments? body).isSome then some (Token.tag body).raw else none)).map
          .knowledgeWithoutFilter := by
    rw [knowledge, List.map_flatMap]
    congr 1
    funext segment
    cases segment <;> rfl
  rw [hkept, flatMap_findTags_splitKnowledge, findTags, idleTags,
    ← List.filterMap_eq_filter, List.map_filterMap, List.map_filterMap]
  apply List.filterMap_congr
  intro token ht
  rw [Option.guard, isIdle_eq ht, Token.isKnowledge, Token.isNone_query?]
  cases token with
  | literal run => rfl
  | tag body =>
    rw [Token.read?, Token.read?, Token.read?]
    cases Knowledge.filters? body <;> cases (Knowledge.arguments? body).isSome <;> rfl

theorem filter_breaks (text : Text) : (breaks text).filter Warning.isUnfiltered = [] := by
  rw [List.filter_eq_nil_iff, breaks, List.forall_mem_map]
  intro directive _
  exact Bool.false_ne_true

theorem filter_knowledge (text : Text) :
    (knowledge text).filter Warning.isUnfiltered = knowledge text := by
  rw [List.filter_eq_self, knowledge_eq, List.forall_mem_map]
  intro token _
  rfl

theorem filter_sections (first : Bool) (b : Block) :
    (sections first b).filter Warning.isUnfiltered = [] := by
  unfold sections
  split_ifs <;> rfl

theorem filter_allSections (blocks : List Block) :
    (allSections blocks).filter Warning.isUnfiltered = [] := by
  cases blocks with
  | nil => rfl
  | cons b rest =>
    rw [allSections, List.filter_append, filter_sections, List.nil_append, List.filter_flatMap,
      List.flatMap_eq_nil_iff]
    intro later _
    exact filter_sections false later

theorem filter_coverage (known : List Text) (blocks : List Block) :
    (coverage known blocks).filter Warning.isUnfiltered = [] := by
  induction blocks generalizing known with
  | nil => rfl
  | cons b rest ih =>
    rw [coverage, List.filter_append, ih, List.append_nil, List.filter_eq_nil_iff,
      List.forall_mem_map]
    intro name _
    exact Bool.false_ne_true

theorem filter_unused (declared : List Text) (blocks : List Block) :
    (unused declared blocks).filter Warning.isUnfiltered = [] := by
  rw [List.filter_eq_nil_iff, unused, List.forall_mem_map]
  intro name _
  exact Bool.false_ne_true

theorem unfiltered_eq {r : Record} (h : parseBlocks r.text = .ok blocks) :
    unfiltered r = (idleTags r.text).map fun token => .knowledgeWithoutFilter token.raw := by
  rw [unfiltered, check, h, ← knowledge_eq]
  simp only [List.filter_append, filter_breaks, filter_knowledge, filter_allSections,
    filter_coverage, filter_unused, List.nil_append, List.append_nil]

/-- The linter accounts for every knowledge directive of a template that splits into blocks. It
reports, in their order and by what they spell, those in which no query is found; all others are
queries. Both are those of the blocks one after another. -/
theorem unfiltered_directives {r : Record} (h : parseBlocks r.text = .ok blocks) :
    unfiltered r = (idleTags r.text).map (fun token => .knowledgeWithoutFilter token.raw) ∧
    (unfiltered r).map Warning.message = (idleTags r.text).map (fun token =>
      s!"Knowledge directive '{token.raw.toString}' has no filter and is kept as text") ∧
    ((tokenize r.text).filter Token.isKnowledge).length =
      (knowledgeQueries r.text).length + (unfiltered r).length ∧
    knowledgeQueries r.text = (blocks.flatMap fun b => knowledgeQueries b.template) ∧
    idleTags r.text = (blocks.flatMap fun b => idleTags b.template) ∧
    unfiltered r = (blocks.flatMap fun b => unfiltered { r with text := b.template }) := by
  have hreported := unfiltered_eq h
  have hidle := idleTags_blocks h
  refine ⟨hreported, ?_, ?_, (knowledgeQueries_blocks h).symm, hidle.symm, ?_⟩
  · rw [hreported, List.map_map]
    rfl
  · rw [hreported, List.length_map]
    exact length_knowledge r.text
  · have hblock (b : Block) (hb : b ∈ blocks) :
        unfiltered { r with text := b.template } = (idleTags b.template).map (fun token =>
          .knowledgeWithoutFilter token.raw) := unfiltered_eq (parseBlocks_block h hb)
    rw [hreported, List.flatMap_congr hblock, ← List.map_flatMap, hidle]

/-- The laws where a directive stands behind braces that open no tag, and another asks for something
only by a key that does not exist. -/
theorem unfiltered_directives_stray :
    let tag (body : String) := (Token.tag body.toList).raw
    let first := "\x7b\x7ba ".toList ++ tag "#knowledgebase x=1" ++ tag "#knowledgebase id=a"
    let last := tag " #knowledgebase " ++ ['{']
    let r : Record := { id := ['t'], name := ['t'], text := first ++ tag "#break output=b" ++ last }
    let blocks : List Block := [⟨first, ['b'], false, .text⟩, .trailing last]
    parseBlocks r.text = .ok blocks ∧
    unfiltered r = [.knowledgeWithoutFilter (tag "#knowledgebase x=1"),
      .knowledgeWithoutFilter (tag " #knowledgebase ")] ∧
    ((tokenize r.text).filter Token.isKnowledge).length = 3 := by
  intro tag first last r blocks
  have hcut : Block.cut (tokenize r.text) = blocks := by decide +kernel +zetaReduce
  have hparse : parseBlocks r.text = .ok blocks := by
    rw [parseBlocks, hcut]
    rfl
  obtain ⟨hreported, -, hlength, hqueries, hidle, -⟩ := unfiltered_directives hparse
  have hwarned : unfiltered r = [.knowledgeWithoutFilter (tag "#knowledgebase x=1"),
      .knowledgeWithoutFilter (tag " #knowledgebase ")] := by
    rw [hreported, hidle]
    decide +kernel +zetaReduce
  refine ⟨hparse, hwarned, ?_⟩
  rw [hlength, hwarned, hqueries]
  decide +kernel +zetaReduce

end Lint

end DialogScript
