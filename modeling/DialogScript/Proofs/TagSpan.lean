import DialogScript.Proofs.Settled
import DialogScript.Proofs.Span
import Mathlib.Data.List.Chain

/-! Tokenizing finds the tags that stand in a text, all of them and no other. -/

namespace DialogScript

/-- A tag is open at the end of a text, behind some prefix of it. -/
structure OpenAt (u p b : Text) : Prop where
  eq : u = p ++ '{' :: '{' :: b
  even : p.runAtEnd '{' % 2 = 0
  noOpen : b.NoPair '{'
  noClose : b.NoPair '}'

theorem OpenAt.nil_of_append {p a b c : Text} (h : OpenAt u p b) (h' : OpenAt u (p ++ a) c) :
    a = [] := by
  have he := h.eq.symm.trans h'.eq
  rw [List.append_assoc, List.append_cancel_left_eq] at he
  match a, he with
  | [], _ => rfl
  -- one brace later the run in front has an odd length; any later the brace pair is in the body
  | [x], he =>
    obtain ⟨rfl, -⟩ := List.cons_eq_cons.1 he
    have heven := h'.even
    rw [Text.runAtEnd_concat_self] at heven
    have hodd := h.even
    omega
  | x :: y :: a, he =>
    have hb : b = a ++ '{' :: '{' :: c := (List.cons_eq_cons.1 (List.cons_eq_cons.1 he).2).2
    exact (h.noOpen ⟨a, c, by rw [hb]; simp⟩).elim

/-- At most one tag is open. -/
theorem OpenAt.unique (h : OpenAt u p b) (h' : OpenAt u p' b') : p = p' ∧ b = b' := by
  have hp : p = p' := by
    rcases List.append_eq_append_iff.1 (h.eq.symm.trans h'.eq) with ⟨a, rfl, -⟩ | ⟨a, rfl, -⟩
    · rw [h.nil_of_append h', List.append_nil]
    · rw [h'.nil_of_append h, List.append_nil]
  subst hp
  have he := h.eq.symm.trans h'.eq
  rw [List.append_cancel_left_eq] at he
  exact ⟨rfl, (List.cons_eq_cons.1 (List.cons_eq_cons.1 he).2).2⟩

theorem OpenAt.concat_cases (h : OpenAt (u ++ [c]) p b) :
    (b = [] ∧ c = '{' ∧ u = p ++ ['{']) ∨ ∃ b', b = b' ++ [c] ∧ OpenAt u p b' := by
  cases b using List.reverseRecOn with
  | nil =>
    have he : u ++ [c] = (p ++ ['{']) ++ ['{'] := by
      rw [h.eq]
      simp
    obtain ⟨hu, hc⟩ := List.append_inj' he rfl
    exact .inl ⟨rfl, List.singleton_inj.1 hc, hu⟩
  | append_singleton b d =>
    have he : u ++ [c] = (p ++ '{' :: '{' :: b) ++ [d] := by
      rw [h.eq]
      simp
    obtain ⟨hu, hc⟩ := List.append_inj' he rfl
    obtain rfl := List.singleton_inj.1 hc
    exact .inr ⟨b, rfl, hu, h.even, h.noOpen.left, h.noClose.left⟩

theorem OpenAt.concat (h : OpenAt u p b) (hopen : ¬ (c = '{' ∧ b.getLast? = some '{'))
    (hclose : ¬ (c = '}' ∧ b.getLast? = some '}')) : OpenAt (u ++ [c]) p (b ++ [c]) where
  eq := by rw [h.eq]; simp
  even := h.even
  noOpen := Text.noPair_concat_iff.2 ⟨h.noOpen, hopen⟩
  noClose := Text.noPair_concat_iff.2 ⟨h.noClose, hclose⟩

/-- Behind a body that could be followed by an opening brace, the run of braces is still even. -/
theorem OpenAt.even_runAtEnd (h : OpenAt u p (b ++ ['{'])) :
    Text.runAtEnd '{' (p ++ '{' :: '{' :: b) % 2 = 0 := by
  cases b using List.reverseRecOn with
  | nil =>
    rw [List.append_cons, Text.runAtEnd_concat_self, Text.runAtEnd_concat_self, Nat.add_assoc,
      Nat.add_mod_right]
    exact h.even
  | append_singleton b d =>
    have hd : d ≠ '{' := by
      rintro rfl
      exact (Text.noPair_concat_iff.1 h.noOpen).2 ⟨rfl, List.getLast?_concat⟩
    have he : p ++ '{' :: '{' :: (b ++ [d]) = (p ++ '{' :: '{' :: b) ++ [d] := by simp
    rw [he, Text.runAtEnd_concat_of_ne hd]

namespace Scan

/-- What a scan knows of the text that it has read: whether a tag is open, and where. -/
structure Faithful (u : Text) (s : Scan) : Prop where
  consumed : s.consumed = u
  closed : s.body? = none → ∀ {p b}, ¬ OpenAt u p b
  odd : s.body? = none → (s.text.head? = some '{' ↔ u.runAtEnd '{' % 2 = 1)
  opened : ∀ {b}, s.body? = some b →
    OpenAt u (s.tokens.reverse.flatMap Token.raw ++ s.text.reverse) b.reverse

theorem faithful_start : Faithful [] {} where
  consumed := rfl
  closed _ _ _ h := by
    have he := congrArg List.length h.eq
    simp at he
  odd _ := by simp [Text.runAtEnd]
  opened h := by cases h

theorem Faithful.of_open {s : Scan} (hc : s.consumed = u) (hb : s.body? = some b)
    (ho : OpenAt u (s.tokens.reverse.flatMap Token.raw ++ s.text.reverse) b.reverse) :
    Faithful u s where
  consumed := hc
  closed hn := by
    rw [hb] at hn
    cases hn
  odd hn := by
    rw [hb] at hn
    cases hn
  opened hs := by
    rw [hb] at hs
    cases hs
    exact ho

theorem Faithful.of_closed {s : Scan} (hc : s.consumed = u) (hb : s.body? = none)
    (hclosed : ∀ {p b}, ¬ OpenAt u p b)
    (hodd : s.text.head? = some '{' ↔ u.runAtEnd '{' % 2 = 1) : Faithful u s where
  consumed := hc
  closed _ := hclosed
  odd _ := hodd
  opened hs := by
    rw [hb] at hs
    cases hs

theorem Faithful.move (h : Faithful u s) (hm : Moves s c s') : Faithful (u ++ [c]) s' := by
  have hc : s'.consumed = u ++ [c] := by rw [← hm.eq_step, consumed_step, h.consumed]
  cases hm with
  | @enter ts t =>
    have hu : u = (ts.reverse.flatMap Token.raw ++ t.reverse) ++ ['{'] := by
      rw [← h.consumed]
      simp [Scan.consumed]
    have hodd := (h.odd rfl).1 rfl
    rw [hu, Text.runAtEnd_concat_self] at hodd
    refine .of_open hc rfl ⟨hc.symm, ?_, Text.noPair_nil _, Text.noPair_nil _⟩
    dsimp only
    omega
  | @text c ts t hne =>
    have heven : c = '{' → u.runAtEnd '{' % 2 = 0 := by
      intro hc
      have hodd : u.runAtEnd '{' % 2 ≠ 1 := fun hodd => hne ⟨hc, (h.odd rfl).2 hodd⟩
      omega
    apply Faithful.of_closed hc rfl
    · intro p b ho
      rcases ho.concat_cases with ⟨rfl, rfl, rfl⟩ | ⟨b, rfl, ho'⟩
      · have hodd := heven rfl
        rw [Text.runAtEnd_concat_self] at hodd
        have hp := ho.even
        omega
      · exact h.closed rfl ho'
    · by_cases hb : c = '{'
      · subst hb
        have hu := heven rfl
        rw [Text.runAtEnd_concat_self]
        exact ⟨fun _ => by omega, fun _ => rfl⟩
      · rw [Text.runAtEnd_concat_of_ne hb]
        simp [hb]
  | @close ts t b =>
    have ho := h.opened rfl
    apply Faithful.of_closed hc rfl
    · intro p b' ho'
      rcases ho'.concat_cases with ⟨-, hb, -⟩ | ⟨b', rfl, hb⟩
      · cases hb
      · obtain ⟨-, rfl⟩ := ho.unique hb
        rw [List.reverse_cons] at ho'
        exact (Text.noPair_concat_iff.1 ho'.noClose).2 ⟨rfl, List.getLast?_concat⟩
    · rw [Text.runAtEnd_concat_of_ne (by decide)]
      simp
  | @restart ts t b =>
    have ho := h.opened rfl
    rw [List.reverse_cons] at ho
    have heven := ho.even_runAtEnd
    refine .of_open hc rfl ⟨hc.symm, ?_, Text.noPair_nil _, Text.noPair_nil _⟩
    simpa using heven
  | @body c ts t b hclose hopen =>
    rw [← List.getLast?_reverse] at hclose hopen
    apply Faithful.of_open hc rfl
    rw [List.reverse_cons]
    exact (h.opened rfl).concat hopen hclose

theorem faithful_foldl (u : Text) : Faithful u (u.foldl step {}) := by
  induction u using List.reverseRecOn with
  | nil => exact faithful_start
  | append_singleton u c ih =>
    rw [List.foldl_append]
    exact ih.move (moves_step _ c)

end Scan

/-- The character closes the tag that is open at the end of a text, and this is its span. -/
def Closes (u : Text) (c : Char) (span : Span) : Prop :=
  c = '}' ∧ span.stop = u.length + 1 ∧
    ∃ p, p.length = span.start ∧ OpenAt u p (span.body ++ ['}'])

theorem raw_append_concat (p b : Text) :
    p ++ (Token.tag b).raw = (p ++ '{' :: '{' :: (b ++ ['}'])) ++ ['}'] := by
  simp [Token.raw]

theorem stands_concat_iff : Stands (u ++ [c]) span ↔ Stands u span ∨ Closes u c span := by
  constructor
  · rintro ⟨p, q, he, hp, hstop, heven, hbody⟩
    cases q using List.reverseRecOn with
    | nil =>
      rw [List.append_nil, raw_append_concat] at he
      obtain ⟨rfl, hc⟩ := List.append_inj' he rfl
      refine .inr ⟨List.singleton_inj.1 hc, ?_, p, hp, rfl, heven, hbody.noOpen_concat,
        hbody.noClose⟩
      rw [hstop, ← hp, ← List.length_append, raw_append_concat, List.length_append]
      rfl
    | append_singleton q d =>
      rw [← List.append_assoc] at he
      exact .inl ⟨p, q, (List.append_inj' he rfl).1, hp, hstop, heven, hbody⟩
  · rintro (⟨p, q, he, hp, hstop, heven, hbody⟩ | ⟨rfl, hstop, p, hp, ho⟩)
    · exact ⟨p, q ++ [c], by rw [he, List.append_assoc], hp, hstop, heven, hbody⟩
    · have he : u ++ ['}'] = p ++ (Token.tag span.body).raw := by
        rw [raw_append_concat, ho.eq]
      refine ⟨p, [], by rw [he, List.append_nil], hp, ?_, ho.even, ho.noOpen.left, ho.noClose⟩
      rw [hstop, ← hp, ← List.length_append, ← he, List.length_append]
      rfl

namespace Scan

theorem spans_closeText (s : Scan) :
    Token.spans 0 s.closeText.reverse = Token.spans 0 s.tokens.reverse := by
  unfold closeText
  split
  · rfl
  · rw [List.reverse_cons, Token.spans_append]
    exact List.append_nil _

/-- One character finishes the tag that it closes, and no other. -/
theorem Faithful.mem_spans_move (h : Faithful u s) (hm : Moves s c s') (span : Span) :
    span ∈ Token.spans 0 s'.tokens.reverse ↔
      span ∈ Token.spans 0 s.tokens.reverse ∨ Closes u c span := by
  have hnone (hc : ¬ Closes u c span) (ht : s'.tokens = s.tokens) :
      span ∈ Token.spans 0 s'.tokens.reverse ↔
        span ∈ Token.spans 0 s.tokens.reverse ∨ Closes u c span := by
    rw [ht, or_iff_left hc]
  cases hm with
  | enter => exact hnone (fun hc => absurd hc.1 (by decide)) rfl
  | text => exact hnone (fun ⟨_, _, p, _, ho⟩ => h.closed rfl ho) rfl
  | @close ts t b =>
    have hopen := h.opened rfl
    rw [List.reverse_cons] at hopen
    have hlen : (closeText ⟨ts, t, none⟩).reverse.flatMap Token.raw =
        ts.reverse.flatMap Token.raw ++ t.reverse := flatMap_raw_closeText ⟨ts, t, none⟩
    have hstop : (ts.reverse.flatMap Token.raw ++ t.reverse).length +
        (Token.tag b.reverse).raw.length = u.length + 1 := by
      rw [← List.length_append, raw_append_concat, ← hopen.eq, List.length_append]
      rfl
    rw [List.reverse_cons, Token.spans_append, spans_closeText, hlen, Nat.zero_add, Token.spans,
      Token.spans, hstop, List.mem_append, List.mem_singleton]
    apply or_congr_right
    constructor
    · intro he
      rw [he]
      exact ⟨rfl, rfl, _, rfl, hopen⟩
    · intro hc
      obtain ⟨-, hs, p, hp, ho⟩ := hc
      obtain ⟨rfl, hb⟩ := ho.unique hopen
      obtain ⟨start, stop, body⟩ := span
      obtain ⟨rfl, -⟩ := List.append_inj' hb rfl
      exact congrArg₂ (Span.mk · · b.reverse) hp.symm hs
  | restart => exact hnone (fun hc => absurd hc.1 (by decide)) rfl
  | @body c ts t b hclose hopen =>
    apply hnone ?_ rfl
    intro hc
    obtain ⟨rfl, -, p, -, ho⟩ := hc
    obtain ⟨-, hb⟩ := ho.unique (h.opened rfl)
    have hlast : b.head? = some '}' := by
      rw [← List.getLast?_reverse, ← hb, List.getLast?_concat]
    exact hclose ⟨rfl, hlast⟩

theorem mem_spans_foldl (u : Text) (span : Span) :
    span ∈ Token.spans 0 (u.foldl step {}).tokens.reverse ↔ Stands u span := by
  induction u using List.reverseRecOn with
  | nil =>
    constructor
    · intro h
      cases h
    · rintro ⟨p, q, he, -⟩
      have hl := congrArg List.length he
      simp [Token.raw] at hl
  | append_singleton u c ih =>
    rw [List.foldl_append, stands_concat_iff, ← ih]
    exact (faithful_foldl u).mem_spans_move (moves_step _ c) span

end Scan

theorem mem_spans_tokenize (t : Text) (span : Span) :
    span ∈ Token.spans 0 (tokenize t) ↔ Stands t span := by
  rw [← Scan.mem_spans_foldl, tokenize, Scan.finish_eq, Token.spans_append]
  split
  · exact Iff.of_eq (congrArg _ (List.append_nil _))
  · exact Iff.of_eq (congrArg _ (List.append_nil _))

theorem Settled.literal_nil_notMem (h : Settled tokens) : .literal [] ∉ tokens := by
  induction h with
  | nil => exact List.not_mem_nil
  | literal hne => simpa using hne
  | tag _ _ ih => simpa using ih
  | literal_tag hne _ _ _ ih => simpa [ih] using hne

theorem Settled.isChain (h : Settled tokens) : tokens.IsChain fun a b => a.isTag ∨ b.isTag := by
  have tag_cons {body : Text} {rest : List Token} (hr : rest.IsChain fun a b => a.isTag ∨ b.isTag) :
      (Token.tag body :: rest).IsChain fun a b => a.isTag ∨ b.isTag :=
    hr.cons fun _ _ => .inl rfl
  induction h with
  | nil => exact .nil
  | literal => exact .singleton _
  | tag _ _ ih => exact tag_cons ih
  | literal_tag _ _ _ _ ih => exact .cons_cons (.inr rfl) (tag_cons ih)

/-- Tokenizing in full. The tokens spell the text; no literal run is empty or next to another; and
the tags are, in order, the ranges of the text that read as tags by themselves. -/
theorem tokenize_spans (t : Text) :
    (tokenize t).flatMap Token.raw = t ∧
    .literal [] ∉ tokenize t ∧
    ((tokenize t).IsChain fun a b => a.isTag ∨ b.isTag) ∧
    (∀ body, .tag body ∈ tokenize t → (Token.tag body).raw = ['{', '{'] ++ body ++ ['}', '}']) ∧
    ((Token.spans 0 (tokenize t)).Pairwise fun a b => a.stop ≤ b.start) ∧
    ∀ i j body, ⟨i, j, body⟩ ∈ Token.spans 0 (tokenize t) ↔
      IsTagAt t i j ∧ body = t.slice (i + 2) (j - 2) := by
  refine ⟨flatMap_raw_tokenize t, (settled_tokenize t).literal_nil_notMem,
    (settled_tokenize t).isChain, fun _ _ => rfl, Token.pairwise_spans 0 _, ?_⟩
  intro i j body
  rw [mem_spans_tokenize, isTagAt_iff_stands]

example :
    let odd := (Token.tag ['{', 'a']).raw
    let even := ['{', '{'] ++ (Token.tag ['b']).raw
    Token.spans 0 (tokenize (odd ++ even)) = [⟨0, 6, ['{', 'a']⟩, ⟨8, 13, ['b']⟩] := rfl

end DialogScript
