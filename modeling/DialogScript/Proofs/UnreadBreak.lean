import DialogScript.Lint
import DialogScript.Proofs.BlockCut
import DialogScript.Proofs.BreakGrammar
import DialogScript.Proofs.TagSpan
import DialogScript.Proofs.Whole

/-!
Break directives that the linter does not see. It looks at tags only, so the characters that open a
directive pass unnoticed where they open no tag, and there alone.
-/

namespace DialogScript

theorem Token.raw_tag_append (body t : Text) :
    (tag body).raw ++ t = '{' :: '{' :: (body ++ '}' :: '}' :: t) := by
  simp [raw]

namespace Break

/-- What stands behind the keyword: a blank, or the end of the tag. -/
def Bounded (rest : Text) : Prop := (∃ c ∈ rest.head?, isBlank c) ∨ ['}', '}'] <+: rest

/-- A text begins with the characters that open a break directive. -/
def Begins (t : Text) : Prop := ∃ rest, t = '{' :: '{' :: "#break".toList ++ rest ∧ Bounded rest

/-- A text that is empty or begins with a tag's braces. -/
def Braced (t : Text) : Prop := t = [] ∨ ∃ rest, t = '{' :: '{' :: rest

theorem Bounded.append (h : Bounded rest) (u : Text) : Bounded (rest ++ u) := by
  rcases h with ⟨c, hc, hblank⟩ | h
  · exact .inl ⟨c, List.mem_head?_append_of_mem_head? hc, hblank⟩
  · exact .inr (h.trans (List.prefix_append rest u))

theorem Braced.not_bounded (h : Braced t) : ¬ Bounded t := by
  rcases h with rfl | ⟨rest, rfl⟩
  · rintro (⟨c, hc, -⟩ | h)
    · cases hc
    · cases List.prefix_nil.1 h
  · rintro (⟨c, hc, hblank⟩ | h)
    · cases hc
      cases hblank
    · cases (List.cons_prefix_cons.1 h).1

theorem Bounded.of_append (h : Bounded (rest ++ t)) (ht : Braced t) : Bounded rest := by
  match rest, h with
  | [], h => exact (ht.not_bounded h).elim
  | [c], h =>
    rcases h with ⟨d, hd, hblank⟩ | h
    · exact .inl ⟨d, hd, hblank⟩
    · rcases ht with rfl | ⟨u, rfl⟩
      · exact .inr h
      · cases (List.cons_prefix_cons.1 (List.cons_prefix_cons.1 h).2).1
  | c :: d :: rest, h =>
    rcases h with ⟨e, he, hblank⟩ | h
    · exact .inl ⟨e, he, hblank⟩
    · obtain ⟨hc, h⟩ := List.cons_prefix_cons.1 h
      obtain ⟨hd, -⟩ := List.cons_prefix_cons.1 h
      subst hc hd
      exact .inr (List.prefix_append ['}', '}'] rest)

theorem Begins.append (h : Begins t) (u : Text) : Begins (t ++ u) := by
  obtain ⟨rest, rfl, hrest⟩ := h
  exact ⟨rest ++ u, List.append_assoc _ _ _, hrest.append u⟩

theorem Begins.exists_cons (h : Begins t) : ∃ rest, t = '{' :: '{' :: '#' :: rest := by
  obtain ⟨rest, rfl, -⟩ := h
  exact ⟨_, rfl⟩

/-- The characters do not reach into a tag behind them. -/
theorem Begins.of_append {a t : Text} (h : Begins (a ++ t)) (ha : a ≠ []) (ht : Braced t) :
    Begins a := by
  obtain ⟨rest, he, hrest⟩ := h
  rcases List.append_eq_append_iff.1 he with ⟨c, hc, rfl⟩ | ⟨c, rfl, rfl⟩
  · exfalso
    match c, hc, ht with
    | [], _, ht => exact ht.not_bounded hrest
    | d :: c, hc, ht =>
      obtain ⟨u, hu⟩ := ht.resolve_left (List.cons_ne_nil _ _)
      match a, hc with
      | [], _ => exact ha rfl
      | [x], hc =>
        cases hc
        cases hu
      | x :: y :: a, hc =>
        have hd : d = '{' := (List.cons_eq_cons.1 hu).1
        have hmem : '{' ∈ "#break".toList := by
          have htail : "#break".toList = a ++ d :: c :=
            (List.cons_eq_cons.1 (List.cons_eq_cons.1 hc).2).2
          rw [htail, hd]
          exact List.mem_append_right _ List.mem_cons_self
        exact absurd hmem (by decide)
  · exact ⟨c, rfl, hrest.of_append ht⟩

/-- Where a text ends in front of a tag, the characters stand on one side of the seam. -/
theorem Begins.seam {p o a t : Text} (h : Begins o) (he : p ++ o = a ++ t) (ht : Braced t) :
    (∃ q, a = p ++ q ∧ Begins q) ∨ ∃ p', p = a ++ p' ∧ t = p' ++ o := by
  rcases List.append_eq_append_iff.1 he with ⟨q, rfl, rfl⟩ | ⟨p', rfl, hp⟩
  · by_cases hq : q = []
    · subst hq
      exact .inr ⟨[], by simp, rfl⟩
    · exact .inl ⟨q, rfl, h.of_append hq ht⟩
  · exact .inr ⟨p', rfl, hp⟩

/-- The characters do not stand inside the tag of a directive, except that they may begin it. -/
theorem Begins.tag {p o t : Text} (h : Begins o) (he : p ++ o = (Token.tag body).raw ++ t)
    (hb : IsBody body) (hfirst : body.head? ≠ some '{') :
    p = [] ∨ ∃ p', p = (Token.tag body).raw ++ p' ∧ t = p' ++ o := by
  obtain ⟨o', rfl⟩ := h.exists_cons
  rw [Token.raw_tag_append] at he
  match p, he with
  | [], _ => exact .inl rfl
  | [c], he =>
    exfalso
    have hbody : '{' :: '#' :: o' = body ++ '}' :: '}' :: t :=
      (List.cons_eq_cons.1 (List.cons_eq_cons.1 he).2).2
    cases body with
    | nil => cases (List.cons_eq_cons.1 hbody).1
    | cons d body => exact hfirst (congrArg some (List.cons_eq_cons.1 hbody).1.symm)
  | c :: d :: p, he =>
    obtain ⟨hc, hrest⟩ := List.cons_eq_cons.1 he
    obtain ⟨hd, hbody⟩ := List.cons_eq_cons.1 hrest
    subst hc hd
    right
    rcases List.append_eq_append_iff.1 hbody with ⟨x, rfl, hx⟩ | ⟨y, rfl, hy⟩
    · exfalso
      match x, hx with
      | [], hx => cases hx
      | [e], hx => cases hx
      | e :: f :: x, hx =>
        obtain ⟨he, hx⟩ := List.cons_eq_cons.1 hx
        obtain ⟨hf, -⟩ := List.cons_eq_cons.1 hx
        subst he hf
        exact hb.noOpen ⟨p, x, by simp⟩
    · match y, hy with
      | [], hy => cases hy
      | [e], hy => cases hy
      | e :: f :: y, hy =>
        cases hy
        exact ⟨y, by simp [Token.raw], rfl⟩

/-- A tag that begins with the characters has the body of a directive. -/
theorem Begins.opens {q : Text} (h : Begins ((Token.tag body).raw ++ q)) (hb : IsBody body) :
    ∃ part, Directive.Opens "break".toList body part := by
  obtain ⟨rest, he, hrest⟩ := h
  have hbody : body ++ '}' :: '}' :: q = "#break".toList ++ rest := by
    rw [Token.raw_tag_append] at he
    exact (List.cons_eq_cons.1 (List.cons_eq_cons.1 he).2).2
  rcases List.append_eq_append_iff.1 hbody with ⟨a, ha, hq⟩ | ⟨part, rfl, rfl⟩
  · match a, ha, hq with
    | [], ha, _ =>
      rw [List.append_nil] at ha
      exact ⟨[], ⟨[], by simp [Text.Blank], ha.symm⟩, fun c hc => by cases hc⟩
    | c :: a, ha, hq =>
      have hmem : '}' ∈ "#break".toList := by
        rw [ha, (List.cons_eq_cons.1 hq).1]
        exact List.mem_append_right _ List.mem_cons_self
      exact absurd hmem (by decide)
  · refine ⟨part, ⟨[], by simp [Text.Blank], rfl⟩, ?_⟩
    intro c hc
    rcases hrest with ⟨d, hd, hblank⟩ | hclose
    · rw [List.head?_append, hc] at hd
      cases hd
      exact hblank
    · exfalso
      match part, hc, hclose with
      | [c], hc, hclose =>
        have hclosing : c = '}' := (List.cons_prefix_cons.1 hclose).1.symm
        subst hclosing
        exact hb.noClose ⟨"#break".toList, [], by simp⟩
      | c :: d :: part, hc, hclose =>
        obtain ⟨h₁, hclose⟩ := List.cons_prefix_cons.1 hclose
        obtain ⟨h₂, -⟩ := List.cons_prefix_cons.1 hclose
        subst h₁ h₂
        exact hb.noClose ⟨"#break".toList, part ++ ['}'], by simp⟩

end Break

namespace Token

theorem tag_mem_of_mem_spans (h : span ∈ spans start tokens) : .tag span.body ∈ tokens := by
  induction tokens generalizing start with
  | nil => cases h
  | cons token rest ih =>
    cases token with
    | literal text => exact List.mem_cons_of_mem _ (ih h)
    | tag body =>
      rcases List.mem_cons.1 h with rfl | h
      · exact List.mem_cons_self
      · exact List.mem_cons_of_mem _ (ih h)

theorem start_lt_of_mem_spans (h : span ∈ spans start tokens) :
    span.start < start + (tokens.flatMap raw).length := by
  induction tokens generalizing start with
  | nil => cases h
  | cons token rest ih =>
    rw [List.flatMap_cons, List.length_append, ← Nat.add_assoc]
    cases token with
    | literal text => exact ih h
    | tag body =>
      rcases List.mem_cons.1 h with rfl | h
      · have hraw : 0 < (tag body).raw.length := Nat.succ_pos _
        dsimp only
        omega
      · exact ih h

/-- A tag that stands within some of the tokens is one of them. -/
theorem tag_mem_of_start {front middle back : List Token}
    (h : span ∈ spans 0 (front ++ middle ++ back))
    (hfront : (front.flatMap raw).length ≤ span.start)
    (hback : span.start < ((front ++ middle).flatMap raw).length) : .tag span.body ∈ middle := by
  rw [spans_append, spans_append, List.mem_append, List.mem_append] at h
  rcases h with (h | h) | h
  · have hlt := start_lt_of_mem_spans h
    omega
  · exact tag_mem_of_mem_spans h
  · have hle := start_le_of_mem_spans h
    omega

end Token

theorem Break.head?_of_read? (h : Break.read? body = some b) : body.head? ≠ some '{' := by
  intro hhead
  obtain ⟨args, hargs, -⟩ := Option.bind_eq_some_iff.1 h
  obtain ⟨part, ⟨⟨w, hw, rfl⟩, -⟩, -⟩ := Directive.exists_opens hargs
  cases w with
  | nil => cases hhead
  | cons c w =>
    cases hhead
    exact absurd (hw '{' List.mem_cons_self) (by decide)

/-- Where the characters stand in a text, they stand in a block or begin a tag. -/
theorem begins_cases {slices : List Slice} {last : List Token} {p o : Text} (ho : Break.Begins o)
    (hslices : ∀ c ∈ slices, c.Valid ∧ IsBody c.body)
    (he : p ++ o = (slices.flatMap Slice.whole ++ last).flatMap Token.raw) :
    (∃ b ∈ slices.map Slice.block ++ [.trailing (last.flatMap Token.raw)],
      ∃ q q', b.template = q ++ q' ∧ Break.Begins q') ∨
    ∃ front body back, slices.flatMap Slice.whole ++ last = front ++ .tag body :: back ∧
      p = front.flatMap Token.raw := by
  induction slices generalizing p with
  | nil => exact .inl ⟨_, List.mem_singleton_self _, p, o, he.symm, ho⟩
  | cons c slices ih =>
    obtain ⟨⟨hvalid, hb⟩, hrest⟩ := List.forall_mem_cons.1 hslices
    have htext : p ++ o = c.block.template ++ ((Token.tag c.body).raw ++
        (slices.flatMap Slice.whole ++ last).flatMap Token.raw) := by
      rw [he]
      simp [Slice.whole, Slice.block, Break.block]
    -- they stand in the first block, begin the directive that ends it, or stand behind that
    rcases ho.seam htext (.inr ⟨_, rfl⟩) with ⟨q, hq, hbegins⟩ | ⟨p', rfl, ht⟩
    · exact .inl ⟨c.block, List.mem_cons_self, p, q, hq, hbegins⟩
    · rcases ho.tag ht.symm hb (Break.head?_of_read? hvalid.reads) with rfl | ⟨p'', rfl, ht'⟩
      · refine .inr ⟨c.tokens, c.body, slices.flatMap Slice.whole ++ last, ?_, ?_⟩
        · simp [Slice.whole]
        · rw [List.append_nil]
          rfl
      · rcases ih hrest ht'.symm with ⟨b, hmem, hin⟩ | ⟨front, body, back, htokens, rfl⟩
        · exact .inl ⟨b, List.mem_cons_of_mem _ hmem, hin⟩
        · refine .inr ⟨c.whole ++ front, body, back, ?_, ?_⟩
          · rw [List.flatMap_cons, List.append_assoc, htokens, List.append_assoc]
          · simp [Slice.whole, Slice.block, Break.block]

theorem Break.Begins.lt_length {t : Text} (h : Break.Begins (t.drop i)) : i < t.length := by
  by_contra hle
  rw [List.drop_eq_nil_of_le (Nat.le_of_not_lt hle)] at h
  obtain ⟨rest, hrest⟩ := h.exists_cons
  cases hrest

/-- The characters that begin a tag give it the body of a directive. -/
theorem Break.Begins.exists_opens {t : Text} (h : Break.Begins (t.drop i)) (ht : IsTagAt t i j) :
    ∃ body part, ⟨i, j, body⟩ ∈ Token.spans 0 (tokenize t) ∧
      Directive.Opens "break".toList body part := by
  have hstands := (isTagAt_iff_stands t i j _).1 ⟨ht, rfl⟩
  have hspan := (mem_spans_tokenize t _).2 hstands
  obtain ⟨p, q, he, hp, -, -, hbody⟩ := hstands
  rw [he, List.append_assoc, List.drop_left' hp] at h
  obtain ⟨part, hopens⟩ := h.opens hbody
  exact ⟨_, part, hspan, hopens⟩

theorem Break.malformed_of_opens (h : Directive.Opens "break".toList body part)
    (hread : Break.read? body = none) : Break.malformed body = true := by
  rw [malformed, hread, arguments?, h.arguments?]
  rfl

/-- The characters open a tag, or they stand in a block. -/
theorem isTagAt_or_begins {t : Text} (h : Break.Begins (t.drop i)) :
    (∃ j, IsTagAt t i j) ∨
      ∃ b ∈ Block.cut (tokenize t), ∃ k, Break.Begins (b.template.drop k) := by
  obtain ⟨slices, last, htokens, hvalid, -, hcut⟩ := exists_slices (tokenize t)
  have hslices : ∀ c ∈ slices, c.Valid ∧ IsBody c.body := by
    intro c hc
    have hmem : .tag c.body ∈ tokenize t := by
      rw [htokens, List.mem_append, List.mem_flatMap]
      exact .inl ⟨c, hc, List.mem_concat_self⟩
    exact ⟨hvalid c hc, (settled_tokenize t).isBody hmem⟩
  have he : t.take i ++ t.drop i = (slices.flatMap Slice.whole ++ last).flatMap Token.raw := by
    rw [List.take_append_drop, ← htokens, flatMap_raw_tokenize]
  rcases begins_cases h hslices he with ⟨b, hb, q, q', hq, hbegins⟩ | ⟨front, body, back, hf, hp⟩
  · right
    rw [hcut]
    refine ⟨b, hb, q.length, ?_⟩
    rw [hq, List.drop_left]
    exact hbegins
  · left
    have hlength : (front.flatMap Token.raw).length = i := by
      rw [← hp, List.length_take, Nat.min_eq_left h.lt_length.le]
    have hspan : ⟨i, i + (Token.tag body).raw.length, body⟩ ∈ Token.spans 0 (tokenize t) := by
      rw [htokens, hf, Token.spans_append, Nat.zero_add, hlength]
      exact List.mem_append_right _ List.mem_cons_self
    exact ⟨_, ((isTagAt_iff_stands t _ _ _).2 ((mem_spans_tokenize t _).1 hspan)).1⟩

namespace Lint

/-- A directive that is not read as one is reported when it is a tag. -/
theorem malformedBreak_mem {text : Text} (ht : .tag body ∈ tokenize text)
    (h : Break.malformed body = true) :
    .malformedBreak (Token.tag body).raw ∈ breaks text := by
  rw [breaks, List.mem_map]
  refine ⟨(Token.tag body).raw, ?_, rfl⟩
  rw [tagsWhere, findTags, List.mem_filterMap]
  exact ⟨.tag body, ht, if_pos h⟩

/-- Where nothing is reported, the characters begin a tag nowhere in a block. -/
theorem not_isTagAt_of_begins {t : Text} (hbreaks : breaks t = []) (hb : b ∈ Block.cut (tokenize t))
    (h : Break.Begins (b.template.drop k)) :
    ∃ i, Break.Begins (t.drop i) ∧ ∀ j, ¬ IsTagAt t i j := by
  obtain ⟨front, middle, back, htokens, htemplate, hunbroken⟩ := exists_tokens_of_mem_cut hb
  have hk := h.lt_length
  have ht : t = front.flatMap Token.raw ++ (b.template ++ back.flatMap Token.raw) := by
    rw [htemplate, ← List.append_assoc, ← List.flatMap_append, ← List.flatMap_append, ← htokens,
      flatMap_raw_tokenize]
  have hdrop : t.drop ((front.flatMap Token.raw).length + k) =
      b.template.drop k ++ back.flatMap Token.raw := by
    conv_lhs => rw [ht]
    rw [← List.drop_drop, List.drop_left, List.drop_append_of_le_length hk.le]
  have hbegins : Break.Begins (t.drop ((front.flatMap Token.raw).length + k)) := by
    rw [hdrop]
    exact h.append _
  refine ⟨_, hbegins, ?_⟩
  intro j htag
  obtain ⟨body, part, hspan, hopens⟩ := hbegins.exists_opens htag
  rw [htokens] at hspan
  have hmem : .tag body ∈ middle := by
    apply Token.tag_mem_of_start hspan
    · exact Nat.le_add_right _ _
    · rw [List.flatMap_append, List.length_append, ← htemplate]
      exact Nat.add_lt_add_left hk _
  have hreported : Warning.malformedBreak (Token.tag body).raw ∈ breaks t := by
    apply malformedBreak_mem
    · rw [htokens]
      exact List.mem_append_left _ (List.mem_append_right _ hmem)
    · exact Break.malformed_of_opens hopens (hunbroken _ hmem)
  rw [hbreaks] at hreported
  cases hreported

/-- In a record that lints clean, the characters that open a break directive stand in no block
exactly when they begin a tag wherever they stand in the text. -/
theorem unread_break_iff {r : Record} (herrors : (check r).errors = [])
    (hwarnings : (check r).warnings = []) :
    ∃ blocks, parseBlocks r.text = .ok blocks ∧
      ((∀ b ∈ blocks, ∀ k, ¬ Break.Begins (b.template.drop k)) ↔
        ∀ i, Break.Begins (r.text.drop i) → ∃ j, IsTagAt r.text i j) := by
  obtain ⟨blocks, hparse, hall⟩ := exists_blocks_of_check herrors
  have hbreaks : breaks r.text = [] := by
    rw [hall] at hwarnings
    simp only [List.append_eq_nil_iff] at hwarnings
    exact hwarnings.1.1.1.1
  refine ⟨blocks, hparse, ?_⟩
  rw [parseBlocks_eq_cut hparse]
  constructor
  · intro hnone i hbegins
    rcases isTagAt_or_begins hbegins with htag | ⟨b, hb, k, hin⟩
    · exact htag
    · exact (hnone b hb k hin).elim
  · intro htags b hb k hin
    obtain ⟨i, hbegins, hnot⟩ := not_isTagAt_of_begins hbreaks hb hin
    obtain ⟨j, htag⟩ := htags i hbegins
    exact hnot j htag

/-- The law at a directive that is read, behind a brace that belongs to no tag. -/
theorem unread_break_iff_read :
    let text := '{' :: 'a' :: (Token.tag "#break output=b".toList).raw
    let r : Record := { id := "t".toList, name := "t".toList, text }
    (check r).errors = [] ∧ (check r).warnings = [] ∧
    ∃ blocks, parseBlocks text = .ok blocks ∧
      (∀ b ∈ blocks, ∀ k, ¬ Break.Begins (b.template.drop k)) := by
  intro text r
  have hclean : check r = {} := by decide +kernel +zetaReduce
  have herrors : (check r).errors = [] := by rw [hclean]
  have hwarnings : (check r).warnings = [] := by rw [hclean]
  obtain ⟨blocks, hparse, hiff⟩ := unread_break_iff herrors hwarnings
  refine ⟨herrors, hwarnings, blocks, hparse, hiff.2 ?_⟩
  intro i hbegins
  have honly : ∀ i < 21, ['{', '{', '#'] <+: text.drop i → i = 2 := by decide +kernel +zetaReduce
  obtain ⟨rest, hrest⟩ := hbegins.exists_cons
  have hi : i = 2 := by
    apply honly i hbegins.lt_length
    rw [hrest]
    exact ⟨rest, rfl⟩
  subst hi
  have hspan : ⟨2, 21, "#break output=b".toList⟩ ∈ Token.spans 0 (tokenize text) :=
    List.mem_cons_self
  exact ⟨21, ((isTagAt_iff_stands text _ _ _).2 ((mem_spans_tokenize text _).1 hspan)).1⟩

/-- Clean all the same: a directive whose tag is left open. -/
theorem unread_break_open :
    let text := '{' :: '{' :: "#break output=b".toList
    let r : Record := { id := "t".toList, name := "t".toList, text }
    check r = {} ∧ ∃ b, parseBlocks text = .ok [b] ∧ Break.Begins b.template := by
  intro text r
  refine ⟨by decide +kernel +zetaReduce, .trailing text, rfl, " output=b".toList, rfl, ?_⟩
  exact .inl ⟨' ', rfl, rfl⟩

end Lint

end DialogScript
