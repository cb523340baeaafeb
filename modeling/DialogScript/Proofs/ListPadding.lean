import DialogScript.Proofs.KnowledgeGrammar
import DialogScript.Proofs.Span

/-!
Lists of values with padding. A blank beside a comma ends the word that holds the list, and with it
the list: the values behind that comma are not read.
-/

namespace DialogScript

namespace Filters

theorem parts_append_comma (a b : Text) : parts (a ++ ',' :: b) = parts a ++ parts b := by
  rw [parts, List.splitOn_append_cons_self, List.filter_append]
  rfl

theorem item?_of_notMem {word : Text} (h : '=' ∉ word) : item? word = none := by
  rw [Option.eq_none_iff_forall_ne_some]
  rintro ⟨key, values⟩ hitem
  obtain ⟨value, hvalue, -⟩ := item?_eq_some_iff.1 hitem
  rw [Key.value?_eq_some_iff] at hvalue
  rw [hvalue] at h
  exact h (List.mem_append_right _ List.mem_cons_self)

/-- Where only the first word has a mark, it alone says what is asked for. -/
theorem grammar_of_first {key : Key} {value : Text} {others : List Text}
    (hblank : ∀ word ∈ Directive.written (key.word, value) :: others, word.NoBlank)
    (hmark : ∀ word ∈ others, '=' ∉ word) :
    Grammar (Directive.written (key.word, value) :: others) (set {} key (parts value)) := by
  have hvalue : value.NoBlank := Directive.noBlank_of_written (hblank _ List.mem_cons_self)
  have hitem : item? (Directive.written (key.word, value)) = some (key, parts value) := by
    rw [item?_eq_some_iff]
    exact ⟨value, Key.value?_eq_some_iff.2 rfl, (splitValues_of_noBlank hvalue).symm⟩
  have hothers : others.filterMap item? = [] :=
    List.filterMap_eq_nil_iff.2 fun word hword => item?_of_notMem (hmark word hword)
  rw [grammar_iff hblank]
  constructor
  · rw [ofWords, List.filterMap_cons_some hitem, hothers]
    rfl
  · cases key with
    | id => rfl
    | category1 => rfl
    | category2 => rfl
    | category3 => rfl
    | name => rfl

end Filters

/-- A value that a list can hold: it has no blanks and none of the characters that end it. -/
structure ListItem where
  text : Text
  ne_nil : text ≠ []
  noBlank : text.NoBlank
  noComma : ',' ∉ text
  unmarked : text.Unmarked

theorem ListItem.parts_text (item : ListItem) : Filters.parts item.text = [item.text] := by
  rw [Filters.parts, List.splitOn_eq_singleton item.noComma]
  simp [item.ne_nil]

/-- A value with the comma before it, and the blanks on both sides of the comma. -/
structure PaddedItem extends ListItem where
  before : Text
  after : Text
  blank_before : before.Blank
  blank_after : after.Blank

namespace PaddedItem

def written (p : PaddedItem) : Text := p.before ++ ',' :: (p.after ++ p.text)

/-- There is no blank beside the comma. -/
def tight (p : PaddedItem) : Bool := p.before.isEmpty && p.after.isEmpty

theorem unmarked_written (p : PaddedItem) : p.written.Unmarked := by
  intro c hc
  have hblank : isBlank c = false := by
    have hmarks : Text.NoBlank ['=', '{', '}'] := by decide
    exact hmarks c hc
  have hcomma : c ≠ ',' := by
    rintro rfl
    revert hc
    decide
  simp only [written, List.mem_append, List.mem_cons, not_or]
  exact ⟨p.blank_before.notMem hblank, hcomma, p.blank_after.notMem hblank, p.unmarked c hc⟩

/-- A comma is tight, or the first blank beside it stands before or right behind it. -/
theorem written_cases (p : PaddedItem) :
    (p.tight = true ∧ p.written = ',' :: p.text) ∨
    (p.tight = false ∧ ∃ lead w tail, p.written = lead ++ (w ++ tail) ∧
      (lead = [] ∨ lead = [',']) ∧ w.Blank ∧ w ≠ []) := by
  obtain ⟨item, before, after, hbefore, hafter⟩ := p
  cases before with
  | cons c before =>
    refine .inr ⟨rfl, [], c :: before, ',' :: (after ++ item.text), rfl, .inl rfl, ?_⟩
    exact ⟨hbefore, List.cons_ne_nil _ _⟩
  | nil =>
    cases after with
    | nil => exact .inl ⟨rfl, rfl⟩
    | cons c after =>
      refine .inr ⟨rfl, [','], c :: after, item.text, rfl, .inr rfl, ?_⟩
      exact ⟨hafter, List.cons_ne_nil _ _⟩

theorem unmarked_flatMap_written (rest : List PaddedItem) :
    Text.Unmarked (rest.flatMap written) := by
  intro c hc h
  obtain ⟨p, -, hp⟩ := List.mem_flatMap.1 h
  exact p.unmarked_written c hc hp

end PaddedItem

namespace Key

/-- The words when blanks end the one that gives a key its value. -/
theorem words_written_append (key : Key) {value w : Text} (hvalue : value.NoBlank)
    (hw : w.Blank) (hne : w ≠ []) (rest : Text) :
    Text.words (Directive.written (key.word, value) ++ (w ++ rest)) =
      Directive.written (key.word, value) :: rest.words :=
  Text.words_noBlank_append (Directive.noBlank_written key.plain_word.1 hvalue)
    (Directive.written_ne_nil _) hw hne rest

/-- The word that holds the list goes on behind a tight comma, and ends with the list where the
first blank stands. -/
theorem exists_words_padded (key : Key) {value : Text} (hvalue : value.NoBlank)
    (rest : List PaddedItem) :
    ∃ found others,
      Text.words (Directive.written (key.word, value) ++ rest.flatMap PaddedItem.written) =
        Directive.written (key.word, found) :: others ∧
      Filters.parts found = Filters.parts value ++ (rest.takeWhile PaddedItem.tight).map (·.text) ∧
      ∀ word ∈ others, '=' ∉ word := by
  induction rest generalizing value with
  | nil =>
    refine ⟨value, [], ?_, (List.append_nil _).symm, by simp⟩
    rw [List.flatMap_nil, List.append_nil]
    exact (Directive.noBlank_written key.plain_word.1 hvalue).words (Directive.written_ne_nil _)
  | cons p rest ih =>
    have hmark : '=' ∉ (p :: rest).flatMap PaddedItem.written :=
      PaddedItem.unmarked_flatMap_written _ '=' List.mem_cons_self
    rw [List.flatMap_cons] at hmark ⊢
    obtain ⟨htight, hp⟩ | ⟨hbroken, lead, w, tail, hp, hlead, hw, hne⟩ := p.written_cases
    · have hnext : Text.NoBlank (value ++ ',' :: p.text) :=
        List.forall_mem_append.2 ⟨hvalue, List.forall_mem_cons.2 ⟨rfl, p.noBlank⟩⟩
      obtain ⟨found, others, hwords, hparts, hothers⟩ := ih hnext
      refine ⟨found, others, ?_, ?_, hothers⟩
      · rw [← hwords, hp]
        simp [Directive.written]
      · rw [hparts, Filters.parts_append_comma, p.parts_text, List.append_assoc,
          List.takeWhile_cons_of_pos htight]
        rfl
    · have hlast : (value ++ lead).NoBlank ∧
          Filters.parts (value ++ lead) = Filters.parts value := by
        rcases hlead with rfl | rfl
        · rw [List.append_nil]
          exact ⟨hvalue, rfl⟩
        · rw [Filters.parts_append_comma]
          exact ⟨List.forall_mem_append.2 ⟨hvalue, List.forall_mem_singleton.2 rfl⟩,
            List.append_nil _⟩
      refine ⟨value ++ lead, Text.words (tail ++ rest.flatMap PaddedItem.written), ?_, ?_, ?_⟩
      · rw [← key.words_written_append hlast.1 hw hne, hp]
        simp [Directive.written]
      · rw [hlast.2, List.takeWhile_cons_of_neg (ne_true_of_eq_false hbroken)]
        exact (List.append_nil _).symm
      · intro word hword
        apply Text.notMem_of_mem_words hword
        intro h
        apply hmark
        rw [hp, List.append_assoc, List.append_assoc]
        exact List.mem_append_right _ (List.mem_append_right _ h)

/-- The body of a directive that gives a key a list. -/
def listBody (key : Key) (first : ListItem) (rest : List PaddedItem) : Text :=
  "#knowledgebase ".toList ++
    (Directive.written (key.word, first.text) ++ rest.flatMap PaddedItem.written)

theorem opens_listBody (key : Key) (first : ListItem) (rest : List PaddedItem) :
    Directive.Opens "knowledgebase".toList (key.listBody first rest)
      (' ' :: (Directive.written (key.word, first.text) ++ rest.flatMap PaddedItem.written)) where
  eq := ⟨[], by simp [Text.Blank], rfl⟩
  bounded c hc := by
    cases hc
    rfl

theorem notMem_listBody (key : Key) (first : ListItem) (rest : List PaddedItem) {c : Char}
    (hc : c ∈ ['=', '{', '}']) (hne : c ≠ '=') : c ∉ key.listBody first rest := by
  have hopening : Text.Unmarked "#knowledgebase ".toList := by decide
  intro hbody
  rcases List.mem_append.1 hbody with h | hlist
  · exact hopening c hc h
  · rcases List.mem_append.1 hlist with h | h
    · exact Directive.notMem_written (key.plain_word.2 c hc) hne (first.unmarked c hc) h
    · exact PaddedItem.unmarked_flatMap_written rest c hc h

theorem isBody_listBody (key : Key) (first : ListItem) (rest : List PaddedItem) :
    IsBody (key.listBody first rest) := by
  apply isBody_of_notMem
  constructor
  · exact key.notMem_listBody first rest (by decide) (by decide)
  · exact key.notMem_listBody first rest (by decide) (by decide)

theorem filters?_listBody (key : Key) (first : ListItem) (rest : List PaddedItem) :
    Knowledge.filters? (key.listBody first rest) = some (Filters.set {} key
      (first.text :: (rest.takeWhile PaddedItem.tight).map (·.text))) := by
  obtain ⟨found, others, hwords, hparts, hothers⟩ := key.exists_words_padded first.noBlank rest
  have hblank : ∀ word ∈ Directive.written (key.word, found) :: others, word.NoBlank := by
    rw [← hwords]
    exact fun _ hword => Text.noBlank_of_mem_words hword
  have hpart : Text.words (' ' :: (Directive.written (key.word, first.text) ++
      rest.flatMap PaddedItem.written)) = Directive.written (key.word, found) :: others :=
    (Text.words_append_cons rfl [] _).trans hwords
  have hlist : first.text :: (rest.takeWhile PaddedItem.tight).map (·.text) =
      Filters.parts found := by
    rw [hparts, first.parts_text]
    rfl
  rw [Knowledge.filters?_of_opens (key.opens_listBody first rest), hpart, hlist]
  exact Filters.grammar_of_first hblank hothers

end Key

/-- A list is read up to the first comma with a blank beside it, so all of it is read exactly if no
comma has one. -/
theorem knowledgeQueries_padded (key : Key) (first : ListItem) (rest : List PaddedItem) :
    let raw := (Token.tag (key.listBody first rest)).raw
    let asks (values : List Text) := [Query.mk raw (Filters.set {} key values)]
    knowledgeQueries raw = asks (first.text :: (rest.takeWhile PaddedItem.tight).map (·.text)) ∧
    (knowledgeQueries raw = asks (first.text :: rest.map (·.text)) ↔ ∀ p ∈ rest, p.tight) := by
  intro raw asks
  have hread : knowledgeQueries raw =
      asks (first.text :: (rest.takeWhile PaddedItem.tight).map (·.text)) := by
    rw [knowledgeQueries_eq_findTags, findTags, (key.isBody_listBody first rest).tokenize_tag]
    simp only [List.filterMap_cons, List.filterMap_nil, Token.read?, key.filters?_listBody]
    rfl
  have hasks {values values' : List Text} (h : asks values = asks values') : values = values' := by
    have hget := congrArg (fun queries => queries.map fun q => q.filters.get key) h
    simpa [asks, Filters.get_set] using hget
  refine ⟨hread, ?_⟩
  rw [hread]
  constructor
  · intro h
    have hlength := congrArg List.length (hasks h)
    rw [List.length_cons, List.length_cons, List.length_map, List.length_map] at hlength
    have hwhole : rest.takeWhile PaddedItem.tight = rest :=
      (List.takeWhile_prefix _).eq_of_length (Nat.succ.inj hlength)
    exact List.takeWhile_eq_self_iff.1 hwhole
  · intro h
    rw [List.takeWhile_eq_self_iff.2 h]

/-- A blank behind the comma loses the value there. -/
theorem knowledgeQueries_padded_blank :
    let raw := '{' :: '{' :: "#knowledgebase id=a, b\x7d\x7d".toList
    (∃ first : ListItem, ∃ second : PaddedItem, first.text = "a".toList ∧
      second.text = "b".toList ∧ raw = (Token.tag (Key.id.listBody first [second])).raw) ∧
    knowledgeQueries raw = [⟨raw, { id := some ["a".toList] }⟩] ∧
    knowledgeQueries raw ≠ [⟨raw, { id := some ["a".toList, "b".toList] }⟩] := by
  refine ⟨?_, ?_, ?_⟩
  · refine ⟨⟨"a".toList, by decide, by decide, by decide, by decide⟩, ?_⟩
    refine ⟨⟨⟨"b".toList, by decide, by decide, by decide, by decide⟩, [], [' '], ?_, ?_⟩, ?_⟩
    · intro c hc
      cases hc
    · intro c hc
      rw [List.mem_singleton.1 hc]
      rfl
    · exact ⟨rfl, rfl, rfl⟩
  · rfl
  · decide

end DialogScript
