import DialogScript.Proofs.Substitution

/-!
Texts put one behind another. Where the first leaves no tag open and does not end in an opening
brace, each is read as it is alone; so are passages with such a separator between them.
-/

namespace DialogScript

/-- The text does not end in an opening brace, and no run at its end holds a pair of them. -/
structure Ended (text : Text) : Prop where
  last : text.getLast? ≠ some '{'
  run : ∀ run, (tokenize text).getLast? = some (.literal run) → run.NoPair '{'

namespace Token

/-- Tokens in front of others; two runs that meet become one. -/
def join : List Token → List Token → List Token
  | [], others => others
  | [.literal text], .literal next :: rest => .literal (text ++ next) :: rest
  | token :: rest, others => token :: join rest others

end Token

/-- Settled tokens hold no empty run and no two runs in a row, so runs meet only at the seam. -/
theorem Settled.foldr_push (h : Settled tokens) (others : List Token) :
    tokens.foldr Token.push others = Token.join tokens others := by
  induction h with
  | nil => rfl
  | @literal text hne _ =>
    cases others with
    | nil => exact if_neg hne
    | cons token rest =>
      cases token with
      | literal next => rfl
      | tag body => exact if_neg hne
  | @tag body rest _ _ ih =>
    rw [List.foldr_cons, ih]
    rfl
  | @literal_tag text body rest hne _ _ _ ih =>
    rw [List.foldr_cons, List.foldr_cons, ih]
    exact if_neg hne

theorem Settled.tokenize_append (h : Settled tokens)
    (hlast : ∀ run, tokens.getLast? = some (.literal run) → Plain run) (next : Text) :
    DialogScript.tokenize (tokens.flatMap Token.raw ++ next) =
      tokens.foldr Token.push (DialogScript.tokenize next) := by
  induction h with
  | nil => rfl
  | @literal text _ _ =>
    rw [List.flatMap_singleton]
    exact (hlast text rfl).tokenize_append next
  | @tag body rest hb _ ih =>
    have hrest : ∀ run, rest.getLast? = some (.literal run) → Plain run :=
      fun run hr => hlast run (List.mem_getLast?_cons hr)
    rw [List.flatMap_cons, List.append_assoc, hb.tokenize_tag_append, ih hrest]
    rfl
  | @literal_tag text body rest hne hl hb _ ih =>
    have hrest : ∀ run, rest.getLast? = some (.literal run) → Plain run :=
      fun run hr => hlast run (List.mem_getLast?_cons (List.mem_getLast?_cons hr))
    rw [List.flatMap_cons, List.flatMap_cons, List.append_assoc, List.append_assoc]
    apply (hl.tokenize_literal_tag_append hne hb _).trans
    rw [ih hrest]
    exact (if_neg hne).symm

theorem Ended.closed (h : Ended text) : Closed text := by
  intro next
  have hlast : ∀ run, (tokenize text).getLast? = some (.literal run) → Plain run := by
    intro run hrun
    refine ⟨h.run run hrun, ?_⟩
    intro hbrace
    obtain ⟨front, hfront⟩ := List.getLast?_eq_some_iff.1 hrun
    apply h.last
    rw [← flatMap_raw_tokenize text, hfront, List.flatMap_append, List.flatMap_singleton]
    exact List.mem_getLast?_append_of_mem_getLast? hbrace
  have happend := (settled_tokenize text).tokenize_append hlast next
  rwa [flatMap_raw_tokenize] at happend

namespace Scan

/-- What holds between two characters of a text: finished tokens end in a tag, and outside a tag no
pair of opening braces is left. -/
structure Tidied (s : Scan) : Prop where
  tag : ∀ run, s.tokens.head? ≠ some (.literal run)
  noOpen : s.body? = none → Text.NoPair '{' s.text.reverse

theorem Tidied.move (h : Tidied s) (hm : Moves s c s') : Tidied s' := by
  cases hm with
  | enter => exact ⟨h.tag, nofun⟩
  | text hc =>
    refine ⟨h.tag, fun _ => ?_⟩
    rw [List.reverse_cons, Text.noPair_concat_iff, List.getLast?_reverse]
    exact ⟨h.noOpen rfl, hc⟩
  | close => exact ⟨nofun, fun _ => Text.noPair_nil _⟩
  | restart => exact ⟨h.tag, nofun⟩
  | body => exact ⟨h.tag, nofun⟩

theorem tidied_foldl (text : Text) : Tidied (text.foldl step {}) := by
  induction text using List.reverseRecOn with
  | nil => exact ⟨nofun, fun _ => Text.noPair_nil _⟩
  | append_singleton text c ih =>
    rw [List.foldl_append]
    exact ih.move (moves_step _ c)

/-- Neither a tag nor a brace that could open one is pending. -/
structure Idle (s : Scan) : Prop where
  body : s.body? = none
  brace : s.text.head? ≠ some '{'

/-- Any other scan finishes a tag with a text that has none of its own. -/
theorem exists_tag_of_not_idle (h : ¬ Idle s) :
    ∃ next body before, findTags some next = [] ∧
      (next.foldl step s).tokens = .tag body :: closeText ⟨s.tokens, before, none⟩ := by
  obtain ⟨ts, t, body?⟩ := s
  cases body? with
  | some b =>
    by_cases hclose : b.head? = some '}'
    · rw [List.eq_cons_of_mem_head? hclose]
      exact ⟨['}'], _, t, rfl, rfl⟩
    · have hm : Moves ⟨ts, t, some b⟩ '}' ⟨ts, t, some ('}' :: b)⟩ :=
        .body (fun hc => hclose hc.2) (fun hc => absurd hc.1 (by decide))
      refine ⟨['}', '}'], b.reverse, t, rfl, ?_⟩
      rw [List.foldl_cons, hm.eq_step]
      rfl
  | none =>
    have hbrace : t.head? = some '{' := by
      by_contra hne
      exact h ⟨rfl, hne⟩
    rw [List.eq_cons_of_mem_head? hbrace]
    exact ⟨['{', '}', '}'], [], t.tail, rfl, rfl⟩

end Scan

theorem Closed.findTags_append (h : Closed text) (reader : Text → Option α) (next : Text) :
    findTags reader (text ++ next) = findTags reader text ++ findTags reader next := by
  rw [findTags, h, List.filterMap_eq_flatMap_toList, Token.flatMap_foldr_push _ fun _ _ => rfl,
    ← List.filterMap_eq_flatMap_toList, ← List.filterMap_eq_flatMap_toList]
  rfl

/-- The tags of a text are those that its scan has finished. -/
theorem findTags_eq_scan (reader : Text → Option α) (text : Text) :
    findTags reader text =
      (text.foldl Scan.step {}).tokens.reverse.filterMap (Token.read? reader) := by
  rw [findTags, tokenize, Scan.finish_eq, List.filterMap_append]
  split
  · exact List.append_nil _
  · exact List.append_nil _

/-- A closed text leaves nothing that more text could make a tag of. -/
theorem Closed.idle (h : Closed text) : Scan.Idle (text.foldl Scan.step {}) := by
  by_contra hidle
  obtain ⟨next, body, before, hnext, htokens⟩ := Scan.exists_tag_of_not_idle hidle
  have hsame : findTags some (text ++ next) = findTags some text := by
    rw [h.findTags_append, hnext, List.append_nil]
  have hmore := findTags_eq_scan some (text ++ next)
  rw [List.foldl_append, htokens, hsame, findTags_eq_scan, List.reverse_cons,
    List.filterMap_append] at hmore
  have hlength := congrArg List.length hmore
  have hbefore : ((text.foldl Scan.step {}).tokens.reverse.filterMap (Token.read? some)).length =
      ((Scan.closeText ⟨(text.foldl Scan.step {}).tokens, before, none⟩).reverse.filterMap
        (Token.read? some)).length := by
    rw [Scan.closeText]
    split
    · rfl
    · simp [Token.read?]
  rw [List.length_append, ← hbefore] at hlength
  simp [Token.read?] at hlength

/-- Each of some texts is resolved as it is alone, and the separator stays. -/
theorem resolveWith_intercalate {separator : Text} {passages : List Text} (meaning : Text → Text)
    (hseparator : Closed separator) (hnone : Placeholder.referenced separator = [])
    (h : ∀ p ∈ passages, Closed p) :
    Placeholder.resolveWith meaning (separator.intercalate passages) =
      separator.intercalate (passages.map (Placeholder.resolveWith meaning)) := by
  induction passages with
  | nil => rfl
  | cons p rest ih =>
    obtain ⟨hp, hrest⟩ := List.forall_mem_cons.1 h
    cases rest with
    | nil => simp
    | cons q rest =>
      have hjoined : separator.intercalate (p :: q :: rest) =
          p ++ (separator ++ separator.intercalate (q :: rest)) := by
        rw [List.intercalate_cons_cons, List.append_assoc]
      rw [hjoined, hp.resolveWith_append, hseparator.resolveWith_append,
        Placeholder.resolveWith_of_referenced_nil hnone, ih hrest, List.map_cons, List.map_cons,
        List.map_cons, List.intercalate_cons_cons, List.append_assoc]

theorem ended_of_idle (h : Scan.Idle (text.foldl Scan.step {})) : Ended text where
  last hlast := by
    obtain ⟨front, rfl⟩ := List.getLast?_eq_some_iff.1 hlast
    rw [List.foldl_append, List.foldl_cons, List.foldl_nil] at h
    have hm := Scan.moves_step (front.foldl Scan.step {}) '{'
    generalize front.foldl Scan.step {} = s at h hm
    generalize s.step '{' = s' at h hm
    cases hm with
    | enter => cases h.body
    | text => exact h.brace rfl
    | restart => cases h.body
    | body => cases h.body
  run run hrun := by
    have htidied := Scan.tidied_foldl text
    rw [tokenize, Scan.finish_eq, List.getLast?_append, List.getLast?_reverse] at hrun
    split at hrun
    · exact (htidied.tag run hrun).elim
    · cases hrun
      rw [Scan.pending, h.body, List.append_nil]
      exact htidied.noOpen h.body

/-- The texts behind which every text is read as it is alone. -/
theorem closed_iff_ended : Closed text ↔ Ended text :=
  ⟨fun h => ended_of_idle h.idle, Ended.closed⟩

/-- A text can be read apart from whatever follows it exactly if it is ended: only two runs that
meet at the seam become one. Placeholders and queries are then those of both texts, and passages
that are ended, with such a separator between them, are resolved one by one. -/
theorem ended_iff_apart :
    (∀ a, Ended a ↔ ∀ b, tokenize (a ++ b) = Token.join (tokenize a) (tokenize b)) ∧
    (∀ a b, Ended a →
      (∀ bag defaults, Placeholder.resolve bag defaults (a ++ b) =
        Placeholder.resolve bag defaults a ++ Placeholder.resolve bag defaults b) ∧
      knowledgeQueries (a ++ b) = knowledgeQueries a ++ knowledgeQueries b) ∧
    ∀ separator passages bag defaults, Ended separator → Placeholder.referenced separator = [] →
      (∀ p ∈ passages, Ended p) →
      Placeholder.resolve bag defaults (separator.intercalate passages) =
        separator.intercalate (passages.map (Placeholder.resolve bag defaults)) := by
  refine ⟨?_, ?_, ?_⟩
  · intro a
    rw [← closed_iff_ended]
    apply forall_congr'
    intro b
    rw [(settled_tokenize a).foldr_push]
  · intro a b ha
    refine ⟨fun bag defaults => ha.closed.resolveWith_append _ b, ?_⟩
    rw [knowledgeQueries_eq_findTags, ha.closed.findTags_append, ← knowledgeQueries_eq_findTags,
      ← knowledgeQueries_eq_findTags]
  · intro separator passages bag defaults hseparator hnone hpassages
    exact resolveWith_intercalate _ hseparator.closed hnone fun p hp => (hpassages p hp).closed

/-- The law at passages with a stray brace, a placeholder and a directive. -/
theorem ended_iff_apart_stray :
    let first := (Token.tag "days".toList).raw ++ " days \x7bor so".toList
    let second := "See ".toList ++ (Token.tag "#knowledgebase id=a".toList).raw
    let bag : Bag := [("days".toList, .text ['{', '{'])]
    Ended first ∧ Ended second ∧ Ended ['\n'] ∧ Placeholder.referenced ['\n'] = [] ∧
    tokenize (first ++ second) = [.tag "days".toList, .literal " days \x7bor soSee ".toList,
      .tag "#knowledgebase id=a".toList] ∧
    Placeholder.resolve bag [] (List.intercalate ['\n'] [first, second]) =
      ['{', '{'] ++ " days \x7bor so\n".toList ++ second := by
  intro first second bag
  have hfirst : Ended first := by
    refine ⟨by decide, ?_⟩
    intro run hrun
    have htokens : tokenize first = [.tag "days".toList, .literal " days \x7bor so".toList] := rfl
    rw [htokens] at hrun
    cases hrun
    rw [Text.NoPair]
    decide
  have hsecond : Ended second := by
    refine ⟨by decide, ?_⟩
    intro run hrun
    have htokens : tokenize second =
        [.literal "See ".toList, .tag "#knowledgebase id=a".toList] := rfl
    rw [htokens] at hrun
    cases hrun
  have hline : Ended ['\n'] := by
    refine ⟨by decide, ?_⟩
    intro run hrun
    cases hrun
    rw [Text.NoPair]
    decide
  obtain ⟨happart, -, hpassages⟩ := ended_iff_apart
  refine ⟨hfirst, hsecond, hline, rfl, (happart first).1 hfirst second, ?_⟩
  rw [hpassages _ _ bag [] hline rfl (List.forall_mem_cons.2
    ⟨hfirst, List.forall_mem_singleton.2 hsecond⟩)]
  rfl

end DialogScript
