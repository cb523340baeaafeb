import DialogScript.Block.Break
import DialogScript.Proofs.Settled
import DialogScript.Proofs.Stretch

/-! The blocks of a template are slices of its tokens, so each is read again as it was cut. -/

namespace DialogScript

/-- None of the tokens is a break directive. -/
def Unbroken (tokens : List Token) : Prop := ∀ token ∈ tokens, token.read? Break.read? = none

/-- Tokens in front of the first break directive belong to the first block. -/
theorem Unbroken.cut_append (h : Unbroken tokens) (rest : List Token) :
    Block.cut (tokens ++ rest) =
      (Block.cut rest).modifyHead (Block.prepend (tokens.flatMap Token.raw)) := by
  induction tokens with
  | nil => exact (congrFun List.modifyHead_id _).symm
  | cons token tokens ih =>
    rw [Unbroken, List.forall_mem_cons] at h
    rw [List.cons_append, Block.cut, h.1, ih h.2]
    cases Block.cut rest with
    | nil => rfl
    | cons b blocks => simp [Block.prepend]

theorem Unbroken.cut (h : Unbroken tokens) :
    Block.cut tokens = [.trailing (tokens.flatMap Token.raw)] := by
  have hcut := h.cut_append []
  rw [List.append_nil] at hcut
  rw [hcut, Block.cut, List.modifyHead_cons, Block.prepend, Block.trailing, List.append_nil]
  rfl

/-- The text of tokens without a break directive is one block. -/
theorem Unbroken.parseBlocks (h : Unbroken tokens) (hs : Settled tokens) :
    parseBlocks (tokens.flatMap Token.raw) = .ok [.trailing (tokens.flatMap Token.raw)] := by
  rw [DialogScript.parseBlocks, hs.tokenize, h.cut]
  rfl

theorem parseBlocks_eq_cut (h : parseBlocks t = .ok blocks) : blocks = Block.cut (tokenize t) := by
  simp only [parseBlocks] at h
  split at h
  · cases h
  · exact (Except.ok.inj h).symm

/-- The tokens of a block with the break directive behind them. -/
structure Slice where
  tokens : List Token
  body : Text
  directive : Break

def Slice.block (c : Slice) : Block := c.directive.block (c.tokens.flatMap Token.raw)

def Slice.whole (c : Slice) : List Token := c.tokens ++ [.tag c.body]

/-- A slice ends at its first break directive. -/
structure Slice.Valid (c : Slice) : Prop where
  unbroken : Unbroken c.tokens
  reads : Break.read? c.body = some c.directive

theorem Slice.Valid.read?_block {c : Slice} (h : c.Valid) :
    Break.read? c.body = some ⟨c.block.output, c.block.forget, c.block.outputType⟩ := h.reads

/-- Slices and a rest are cut at the end of each slice. -/
theorem cut_slices {slices : List Slice} (hvalid : ∀ c ∈ slices, c.Valid) (hlast : Unbroken last) :
    Block.cut (slices.flatMap Slice.whole ++ last) =
      slices.map Slice.block ++ [.trailing (last.flatMap Token.raw)] := by
  induction slices with
  | nil => exact hlast.cut
  | cons c slices ih =>
    rw [List.forall_mem_cons] at hvalid
    have hread : (Token.tag c.body).read? Break.read? = some c.directive := hvalid.1.reads
    rw [List.flatMap_cons, Slice.whole, List.append_assoc, List.append_assoc,
      hvalid.1.unbroken.cut_append, List.singleton_append, Block.cut, hread, ih hvalid.2]
    simp [Slice.block, Break.block, Block.prepend]

/-- Cutting tokens at break directives takes them apart into slices and a rest. -/
theorem exists_slices (tokens : List Token) :
    ∃ (slices : List Slice) (last : List Token),
      tokens = slices.flatMap Slice.whole ++ last ∧ (∀ c ∈ slices, c.Valid) ∧ Unbroken last ∧
      Block.cut tokens = slices.map Slice.block ++ [.trailing (last.flatMap Token.raw)] := by
  obtain ⟨stretches, last, rfl, hstretches, hlast⟩ := exists_stretches Break.read? tokens
  let slice (p : Stretch Break) : Slice := ⟨p.before, p.body, p.found⟩
  have hvalid : ∀ c ∈ stretches.map slice, c.Valid := by
    intro c hc
    obtain ⟨p, hp, rfl⟩ := List.mem_map.1 hc
    exact ⟨(hstretches p hp).unread, (hstretches p hp).reads⟩
  have hwhole : stretches.flatMap Stretch.tokens = (stretches.map slice).flatMap Slice.whole := by
    rw [List.flatMap_map]
    rfl
  rw [hwhole]
  exact ⟨stretches.map slice, last, rfl, hvalid, hlast, cut_slices hvalid hlast⟩

/-- A block is made of tokens of the text, none of which is a break directive. -/
theorem exists_tokens_of_mem_cut (h : b ∈ Block.cut tokens) :
    ∃ front middle back, tokens = front ++ middle ++ back ∧
      b.template = middle.flatMap Token.raw ∧ Unbroken middle := by
  obtain ⟨slices, last, rfl, hvalid, hlast, hcut⟩ := exists_slices tokens
  rw [hcut, List.mem_append, List.mem_singleton] at h
  rcases h with h | rfl
  · obtain ⟨c, hc, rfl⟩ := List.mem_map.1 h
    obtain ⟨before, after, rfl⟩ := List.append_of_mem hc
    refine ⟨before.flatMap Slice.whole, c.tokens,
      .tag c.body :: (after.flatMap Slice.whole ++ last), ?_, rfl, (hvalid c hc).unbroken⟩
    simp [Slice.whole]
  · exact ⟨slices.flatMap Slice.whole, last, [], by simp, rfl, hlast⟩

/-- Splitting a template goes along with tokenizing it: its tokens are those of its blocks with a
break directive behind each but the last, and no block holds one. -/
theorem parseBlocks_slices {t : Text} {blocks : List Block} (h : parseBlocks t = .ok blocks) :
    ∃ (parts : List (Block × Text)) (last : Text),
      blocks = parts.map Prod.fst ++ [.trailing last] ∧
      (∀ part ∈ parts, Token.tag part.2 ∈ tokenize t ∧
        Break.read? part.2 = some ⟨part.1.output, part.1.forget, part.1.outputType⟩) ∧
      tokenize t =
        (parts.flatMap fun part => tokenize part.1.template ++ [.tag part.2]) ++ tokenize last ∧
      t = (parts.flatMap fun part => part.1.template ++ (Token.tag part.2).raw) ++ last ∧
      ∀ b ∈ blocks, parseBlocks b.template = .ok [.trailing b.template] := by
  obtain ⟨slices, last, hslices, hvalid, hlast, hcut⟩ := exists_slices (tokenize t)
  have hsettled := settled_tokenize t
  rw [hslices] at hsettled
  have hpart {c : Slice} (hc : c ∈ slices) : Settled c.whole := by
    obtain ⟨front, back, rfl⟩ := List.append_of_mem hc
    rw [List.flatMap_append, List.flatMap_cons] at hsettled
    exact hsettled.left.right.left
  have hread {c : Slice} (hc : c ∈ slices) : tokenize c.block.template = c.tokens :=
    (hpart hc).left.tokenize
  have hwhole (c : Slice) :
      c.whole.flatMap Token.raw = c.block.template ++ (Token.tag c.body).raw := by
    rw [Slice.whole, List.flatMap_append, List.flatMap_singleton]
    rfl
  refine ⟨slices.map fun c => (c.block, c.body), last.flatMap Token.raw, ?_, ?_, ?_, ?_, ?_⟩
  · rw [parseBlocks_eq_cut h, hcut, List.map_map]
    rfl
  · intro part hp
    obtain ⟨c, hc, rfl⟩ := List.mem_map.1 hp
    refine ⟨?_, (hvalid c hc).read?_block⟩
    rw [hslices, List.mem_append, List.mem_flatMap]
    exact .inl ⟨c, hc, List.mem_concat_self⟩
  · rw [hslices, hsettled.right.tokenize, List.flatMap_map]
    congr 1
    apply List.flatMap_congr
    intro c hc
    rw [Slice.whole, hread hc]
  · rw [List.flatMap_map]
    conv_lhs => rw [← flatMap_raw_tokenize t, hslices, List.flatMap_append, List.flatMap_assoc]
    simp only [hwhole]
  · rw [parseBlocks_eq_cut h, hcut, List.forall_mem_append, List.forall_mem_singleton]
    refine ⟨?_, hlast.parseBlocks hsettled.right⟩
    intro b hb
    obtain ⟨c, hc, rfl⟩ := List.mem_map.1 hb
    exact (hvalid c hc).unbroken.parseBlocks (hpart hc).left

/-- The law where a tag is left open in front of a break directive and braces are odd behind it. -/
theorem parseBlocks_slices_nested :
    let first := '{' :: '{' :: "a ".toList
    let last := '{' :: (Token.tag "b".toList).raw ++ ['}']
    let t := first ++ (Token.tag "#break output=x forget=true".toList).raw ++ last
    let blocks : List Block := [⟨first, "x".toList, true, .text⟩, .trailing last]
    parseBlocks t = .ok blocks ∧
    ∃ (parts : List (Block × Text)) (last : Text),
      blocks = parts.map Prod.fst ++ [.trailing last] ∧
      tokenize t =
        (parts.flatMap fun part => tokenize part.1.template ++ [.tag part.2]) ++ tokenize last ∧
      ∀ b ∈ blocks, parseBlocks b.template = .ok [.trailing b.template] := by
  intro first last t blocks
  have h : parseBlocks t = .ok blocks := rfl
  obtain ⟨parts, last, hblocks, -, htokens, -, hagain⟩ := parseBlocks_slices h
  exact ⟨h, parts, last, hblocks, htokens, hagain⟩

end DialogScript
