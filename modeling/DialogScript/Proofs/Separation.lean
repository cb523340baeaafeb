import DialogScript.Proofs.BlockCut
import DialogScript.Proofs.TagKind
import DialogScript.Proofs.TokenSlice

/-!
Every pass over a text leaves the tags of the other grammars alone. Resolving copies all that are
not placeholders, splitting off queries keeps all that are not knowledge directives, and the blocks
hold all that are not break directives, each time in the order in which they stand in the text.
-/

namespace DialogScript

theorem findTags_token (h : token ∈ tokenize text) (reader : Text → Option α) :
    findTags reader token.raw = (token.read? reader).toList := by
  rw [findTags, tokenize_token h]
  cases hr : token.read? reader with
  | none => exact List.filterMap_cons_none hr
  | some found => exact List.filterMap_cons_some hr

/-- What a reader finds in a segment that is kept as text. -/
def Segment.findTags (reader : Text → Option α) : Segment → List α
  | text part => DialogScript.findTags reader part
  | query _ => []

/-- Reading the kept segments once more finds the tags that were not split off, each of them once
and no other. -/
theorem flatMap_findTags_splitKnowledge (reader : Text → Option α) (text : Text) :
    (splitKnowledge text).flatMap (Segment.findTags reader) =
      findTags (fun body => if (Knowledge.filters? body).isSome then none else reader body)
        text := by
  rw [splitKnowledge, List.flatMap_map, findTags, List.filterMap_eq_flatMap_toList]
  apply List.flatMap_congr
  intro token ht
  cases hf : token.read? Knowledge.filters? with
  | none =>
    rw [Knowledge.segment, hf, Segment.findTags, findTags_token ht]
    cases token with
    | literal run => rfl
    | tag body =>
      rw [Token.read?] at hf
      rw [Token.read?, Token.read?, hf]
      rfl
  | some filters =>
    rw [Knowledge.segment, hf, Segment.findTags]
    cases token with
    | literal run => rfl
    | tag body =>
      rw [Token.read?] at hf
      rw [Token.read?, hf]
      rfl

/-- What is read off the tokens of a text, but not off its break directives, is read off its blocks
one after another. -/
theorem filterMap_blocks (h : parseBlocks text = .ok blocks) {f : Token → Option α}
    (hf : ∀ body b, Break.read? body = some b → f (.tag body) = none) :
    (blocks.flatMap fun b => (tokenize b.template).filterMap f) = (tokenize text).filterMap f := by
  obtain ⟨slices, last, hslices, hvalid, -, hcut⟩ := exists_slices (tokenize text)
  have hlast : last <:+: tokenize text := by
    rw [hslices]
    exact (List.suffix_append _ _).isInfix
  have hslice (c : Slice) (hc : c ∈ slices) :
      (tokenize c.block.template).filterMap f = c.whole.filterMap f := by
    have hwhole : c.whole <:+: slices.flatMap Slice.whole :=
      List.infix_of_mem_flatten (List.mem_map_of_mem hc)
    have hpart : c.tokens <:+: tokenize text := by
      rw [hslices]
      exact (List.prefix_append _ _).isInfix.trans (hwhole.trans (List.prefix_append _ _).isInfix)
    have hread : tokenize c.block.template = c.tokens := tokenize_slice hpart
    rw [hread, Slice.whole, List.filterMap_append,
      List.filterMap_cons_none (hf c.body c.directive (hvalid c hc).reads), List.filterMap_nil,
      List.append_nil]
  calc
    (blocks.flatMap fun b => (tokenize b.template).filterMap f)
    _ = (slices.flatMap fun c => (tokenize c.block.template).filterMap f) ++ last.filterMap f := by
      rw [parseBlocks_eq_cut h, hcut, List.flatMap_append, List.flatMap_map,
        List.flatMap_singleton, Block.trailing, tokenize_slice hlast]
    _ = (slices.flatMap fun c => c.whole.filterMap f) ++ last.filterMap f := by
      rw [List.flatMap_congr hslice]
    _ = (tokenize text).filterMap f := by
      rw [hslices, List.filterMap_append, List.filterMap_flatMap]

/-- The text of a block is a block by itself. -/
theorem parseBlocks_block (h : parseBlocks text = .ok blocks) (hb : b ∈ blocks) :
    parseBlocks b.template = .ok [.trailing b.template] := by
  rw [parseBlocks_eq_cut h] at hb
  obtain ⟨front, part, back, he, htemplate, hunbroken⟩ := exists_tokens_of_mem_cut hb
  rw [htemplate]
  exact hunbroken.parseBlocks ((settled_tokenize text).slice ⟨front, back, he.symm⟩)

namespace TagKind

/-- The bodies of the tags of one kind, in the order in which they stand in a text. -/
def bodies (k : TagKind) (text : Text) : List Text := findTags (Option.guard k.fits) text

/-- A body of any kind but that of placeholders. -/
def isDirective (body : Text) : Bool := [blockBreak, knowledge, role].any fun k => k.fits body

theorem name?_of_isDirective (h : isDirective body) : Placeholder.name? body = none := by
  obtain ⟨k, hk, hfits⟩ := List.any_eq_true.1 h
  apply eq_none_of_fits hfits fun _ => fits_placeholder
  rintro rfl
  simp at hk

theorem bodies_splitKnowledge {k : TagKind} (hk : k ≠ knowledge) (text : Text) :
    (splitKnowledge text).flatMap (Segment.findTags (Option.guard k.fits)) = k.bodies text := by
  rw [flatMap_findTags_splitKnowledge, bodies]
  congr 1
  funext body
  split
  · rename_i hquery
    obtain ⟨filters, hfilters⟩ := Option.isSome_iff_exists.1 hquery
    symm
    apply eq_none_of_fits (fits_knowledge hfilters) ?_ hk.symm
    intro found hfound
    exact (Option.guard_eq_some_iff.1 hfound).2
  · rfl

theorem bodies_blocks {k : TagKind} (hk : k ≠ blockBreak) (h : parseBlocks text = .ok blocks) :
    (blocks.flatMap fun b => k.bodies b.template) = k.bodies text := by
  apply filterMap_blocks h
  intro body b hread
  apply eq_none_of_fits (fits_blockBreak hread) ?_ hk.symm
  intro found hfound
  exact (Option.guard_eq_some_iff.1 hfound).2

/-- A text falls apart at its directives, and resolving it resolves the pieces in between. -/
theorem exists_directives (text : Text) :
    ∃ (parts : List (Text × Text)) (last : Text),
      parts.map Prod.snd = findTags (Option.guard isDirective) text ∧
      tokenize text =
        (parts.flatMap fun part => tokenize part.1 ++ [.tag part.2]) ++ tokenize last ∧
      ∀ bag defaults, Placeholder.resolve bag defaults text =
        (parts.flatMap fun part =>
          Placeholder.resolve bag defaults part.1 ++ (Token.tag part.2).raw) ++
          Placeholder.resolve bag defaults last := by
  obtain ⟨stretches, last, he, hvalid, hlast⟩ :=
    exists_text_stretches (Option.guard isDirective) text
  have hbody (p : Stretch Text) (hp : p ∈ stretches) : p.body = p.found ∧ isDirective p.body :=
    Option.guard_eq_some_iff.1 (hvalid p hp).1.reads
  refine ⟨stretches.map fun p => (p.before.flatMap Token.raw, p.body), last, ?_, ?_, ?_⟩
  · have hfound (p : Stretch Text) (hp : p ∈ stretches) :
        p.tokens.filterMap (Token.read? (Option.guard isDirective)) = [p.body] := by
      rw [(hvalid p hp).1.filterMap_tokens, (hbody p hp).1]
    rw [findTags, he, List.filterMap_append, List.filterMap_eq_nil_iff.2 hlast, List.append_nil,
      List.filterMap_flatMap, List.flatMap_congr hfound, List.map_map, List.map_eq_flatMap]
    rfl
  · rw [he, List.flatMap_map]
    congr 1
    apply List.flatMap_congr
    intro p hp
    rw [(hvalid p hp).2, Stretch.tokens]
  · intro bag defaults
    rw [Placeholder.resolve, Placeholder.resolveWith, he, List.flatMap_append, List.flatMap_assoc,
      List.flatMap_map]
    congr 1
    apply List.flatMap_congr
    intro p hp
    have hfill : Placeholder.fill (Placeholder.meaning bag defaults) (.tag p.body) =
        (Token.tag p.body).raw := by
      rw [Placeholder.fill, Token.read?, name?_of_isDirective (hbody p hp).2]
    rw [Stretch.tokens, List.flatMap_append, List.flatMap_singleton, hfill, Placeholder.resolve,
      Placeholder.resolveWith, (hvalid p hp).2]

/-- No two grammars read the same body. So a text falls apart at the directives that it holds, each
of which resolving copies as it stands between the resolved pieces; the segments that are kept when
queries are split off hold all tags that are no knowledge directives; and its blocks hold all tags
that are no break directives, in their order. -/
theorem kinds_apart (text : Text) :
    (∀ body (k k' : TagKind), k.fits body → k'.fits body → k = k') ∧
    (∃ (parts : List (Text × Text)) (last : Text),
      parts.map Prod.snd = findTags (Option.guard isDirective) text ∧
      tokenize text =
        (parts.flatMap fun part => tokenize part.1 ++ [.tag part.2]) ++ tokenize last ∧
      ∀ bag defaults, Placeholder.resolve bag defaults text =
        (parts.flatMap fun part =>
          Placeholder.resolve bag defaults part.1 ++ (Token.tag part.2).raw) ++
          Placeholder.resolve bag defaults last) ∧
    (∀ k ≠ knowledge,
      (splitKnowledge text).flatMap (Segment.findTags (Option.guard k.fits)) = k.bodies text) ∧
    ∀ k ≠ blockBreak, ∀ blocks, parseBlocks text = .ok blocks →
      (blocks.flatMap fun b => k.bodies b.template) = k.bodies text :=
  ⟨fun _ _ _ => eq_of_fits, exists_directives text, fun _ hk => bodies_splitKnowledge hk text,
    fun _ hk _ => bodies_blocks hk⟩

/-- The laws for a text with tags of all kinds, some of which open nothing and ask for nothing. -/
theorem kinds_apart_all :
    let tag (body : String) := (Token.tag body.toList).raw
    let first := tag " tone " ++ tag "#break" ++ tag "#role=robot" ++ tag "#knowledgebase id=a"
    let last := tag " /role " ++ tag "#knowledgebase" ++ tag "b"
    let text := first ++ tag "#break output=b" ++ last
    let blocks : List Block := [⟨first, ['b'], false, .text⟩, .trailing last]
    placeholder.fits " tone ".toList ∧ ¬ role.fits " tone ".toList ∧
    parseBlocks text = .ok blocks ∧
    (blocks.flatMap fun b => role.bodies b.template) = ["#role=robot".toList, " /role ".toList] ∧
    (splitKnowledge text).flatMap (Segment.findTags (Option.guard placeholder.fits)) =
      [" tone ".toList, ['b']] := by
  intro tag first last text blocks
  have hcut : Block.cut (tokenize text) = blocks := by decide +kernel +zetaReduce
  have hparse : parseBlocks text = .ok blocks := by
    rw [parseBlocks, hcut]
    rfl
  obtain ⟨hunique, -, hkept, hblocks⟩ := kinds_apart text
  have hfits : placeholder.fits " tone ".toList := rfl
  refine ⟨hfits, ?_, hparse, ?_, ?_⟩
  · intro hrole
    cases hunique _ _ _ hfits hrole
  · rw [hblocks role (by decide) blocks hparse]
    decide +kernel +zetaReduce
  · rw [hkept placeholder (by decide)]
    decide +kernel +zetaReduce

end TagKind

end DialogScript
