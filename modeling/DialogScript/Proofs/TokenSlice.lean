import DialogScript.Proofs.Settled
import DialogScript.Proofs.Stretch

/-!
Slices of the tokens of a text. Each is read back from its own text, whatever braces stood around
it, so a text can be taken apart at any of its tags without changing how the pieces are read.
-/

namespace DialogScript

theorem Settled.slice (h : Settled tokens) (hpart : part <:+: tokens) : Settled part := by
  obtain ⟨front, back, rfl⟩ := hpart
  exact h.left.right

theorem tokenize_slice (h : part <:+: tokenize text) :
    tokenize (part.flatMap Token.raw) = part :=
  ((settled_tokenize text).slice h).tokenize

theorem tokenize_token (h : token ∈ tokenize text) : tokenize token.raw = [token] := by
  obtain ⟨front, back, he⟩ := List.append_of_mem h
  have hpart : [token] <:+: tokenize text := by
    rw [he, List.append_cons]
    exact ⟨front, back, rfl⟩
  have hread := tokenize_slice hpart
  rwa [List.flatMap_singleton] at hread

/-- Tokens next to each other in a text are read back from what they spell, and each of them from
what it spells; the text on either side is read as the tokens on that side. -/
theorem tokenize_slices {part : List Token} (h : part <:+: tokenize text) :
    tokenize (part.flatMap Token.raw) = part ∧
    (∀ token ∈ part, tokenize token.raw = [token]) ∧
    ∃ front back, text = front ++ part.flatMap Token.raw ++ back ∧
      tokenize text = tokenize front ++ part ++ tokenize back := by
  refine ⟨tokenize_slice h, fun token ht => tokenize_token (h.subset ht), ?_⟩
  obtain ⟨front, back, he⟩ := h
  have hfront : front <:+: tokenize text := ⟨[], part ++ back, by rw [← he]; simp⟩
  have hback : back <:+: tokenize text := ⟨front ++ part, [], by rw [← he]; simp⟩
  refine ⟨front.flatMap Token.raw, back.flatMap Token.raw, ?_, ?_⟩
  · rw [← List.flatMap_append, ← List.flatMap_append, he, flatMap_raw_tokenize]
  · rw [tokenize_slice hfront, tokenize_slice hback, he]

/-- The law for the tag and the run in the middle of braces that pair up with none of theirs. -/
theorem tokenize_slices_braces :
    let text := "\x7b\x7ba \x7b\x7b\x7bb\x7d\x7d\x7d\x7b\x7bc\x7b\x7bd\x7d\x7d".toList
    let part : List Token := [.tag "\x7bb".toList, .literal "\x7d\x7b\x7bc".toList]
    part <:+: tokenize text ∧
    tokenize "\x7b\x7b\x7bb\x7d\x7d\x7d\x7b\x7bc".toList = part ∧
    tokenize "\x7d\x7b\x7bc".toList = [.literal "\x7d\x7b\x7bc".toList] := by
  intro text part
  have h : part <:+: tokenize text := ⟨[.literal "\x7b\x7ba ".toList], [.tag ['d']], rfl⟩
  obtain ⟨hpart, htokens, -⟩ := tokenize_slices h
  exact ⟨h, hpart, htokens _ (List.mem_cons_of_mem _ List.mem_cons_self)⟩

/-- A text is taken apart at the tags that a reader reads: each piece is read as the tokens in front
of its tag. -/
theorem exists_text_stretches (reader : Text → Option α) (text : Text) :
    ∃ (stretches : List (Stretch α)) (last : Text),
      tokenize text = stretches.flatMap Stretch.tokens ++ tokenize last ∧
      (∀ p ∈ stretches, p.Valid reader ∧ tokenize (p.before.flatMap Token.raw) = p.before) ∧
      Unread reader (tokenize last) := by
  obtain ⟨stretches, last, he, hvalid, hlast⟩ := exists_stretches reader (tokenize text)
  have hsuffix : last <:+: tokenize text := by
    rw [he]
    exact (List.suffix_append _ _).isInfix
  have hread := tokenize_slice hsuffix
  refine ⟨stretches, last.flatMap Token.raw, ?_, ?_, ?_⟩
  · rw [hread, he]
  · intro p hp
    have htokens : p.tokens <:+: stretches.flatMap Stretch.tokens :=
      List.infix_of_mem_flatten (List.mem_map_of_mem hp)
    have hpart : p.before <:+: tokenize text := by
      rw [he]
      exact (List.prefix_append _ _).isInfix.trans (htokens.trans (List.prefix_append _ _).isInfix)
    exact ⟨hvalid p hp, tokenize_slice hpart⟩
  · rwa [hread]

end DialogScript
