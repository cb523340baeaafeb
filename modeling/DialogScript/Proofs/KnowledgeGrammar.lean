import DialogScript.Knowledge
import DialogScript.Proofs.Attribute
import DialogScript.Proofs.Substitution

/-!
The grammar of knowledge directives. Each key is restricted by the last word that gives it a value,
and a directive asks for something exactly when some key is given one.
-/

namespace DialogScript

/-- None of the characters with which a value of a key begins or its directive ends. -/
def Text.Unmarked (t : Text) : Prop := ∀ c ∈ ['=', '{', '}'], c ∉ t

instance (t : Text) : Decidable t.Unmarked := List.decidableBAll _ _

namespace Key

theorem mem_all (key : Key) : key ∈ all := by
  cases key <;> decide

theorem ofWord?_eq_some_iff {word : Text} {key : Key} :
    ofWord? word = some key ↔ word = key.word := by
  apply Text.find?_word_eq_some_iff
  intro key
  cases key with
  | id => rfl
  | category1 => rfl
  | category2 => rfl
  | category3 => rfl
  | name => rfl

theorem plain_word (key : Key) : key.word.NoBlank ∧ key.word.Unmarked := by
  cases key with
  | id => decide
  | category1 => decide
  | category2 => decide
  | category3 => decide
  | name => decide

/-- What a word gives a key: the text behind the key and its mark. -/
def value? (key : Key) (word : Text) : Option Text := (key.word ++ ['=']).isPrefixOf? word

/-- What some words give a key, in their order. -/
def values (key : Key) (words : List Text) : List Text := words.filterMap key.value?

theorem getLast?_values_concat (key : Key) (words : List Text) (word : Text) :
    (key.values (words ++ [word])).getLast? = (key.value? word).or (key.values words).getLast? :=
  Text.getLast?_filterMap_concat key.value? words word

theorem value?_eq_some_iff {key : Key} {word value : Text} :
    key.value? word = some value ↔ word = Directive.written (key.word, value) := by
  rw [value?, List.isPrefixOf?_eq_some_iff_append_eq, List.append_assoc, eq_comm]
  rfl

end Key

namespace Filters

/-- The parts of a list between its commas, without the empty ones. -/
def parts (value : Text) : List Text := (value.splitOn ',').filter fun part => !part.isEmpty

/-- What the words of a directive ask for: some key has a value, and each key that has one is
restricted to the parts of its last. -/
structure Grammar (words : List Text) (filters : Filters) : Prop where
  asks : ∃ key : Key, key.values words ≠ []
  get : ∀ key : Key, filters.get key = (key.values words).getLast?.map parts

theorem ext_get {f g : Filters} (h : ∀ key, f.get key = g.get key) : f = g := by
  obtain ⟨id, category1, category2, category3, names⟩ := f
  cases h .id
  cases h .category1
  cases h .category2
  cases h .category3
  cases h .name
  rfl

theorem get_set (f : Filters) (key other : Key) (values : List Text) :
    (f.set key values).get other = if other = key then some values else f.get other := by
  cases key <;> cases other <;> rfl

theorem isEmpty_iff {f : Filters} : f.isEmpty = true ↔ ∀ key, f.get key = none := by
  rw [isEmpty, List.all_eq_true]
  constructor
  · intro h key
    exact Option.isNone_iff_eq_none.1 (h key key.mem_all)
  · intro h key _
    exact Option.isNone_iff_eq_none.2 (h key)

theorem splitValues_of_noBlank {value : Text} (h : value.NoBlank) :
    splitValues value = parts value := by
  have htrim : ∀ part ∈ value.splitOn ',', Text.trim part = part := by
    intro part hpart
    apply Text.NoBlank.trim
    intro c hc
    exact h c (Text.mem_of_mem_splitOnP hpart c hc).1
  rw [splitValues, List.map_congr_left htrim, List.map_id', parts]

theorem item?_eq_some_iff {word : Text} {key : Key} {values : List Text} :
    item? word = some (key, values) ↔
      ∃ value, key.value? word = some value ∧ values = splitValues value := by
  rw [item?, Option.bind_eq_bind, Option.bind_eq_some_iff]
  constructor
  · rintro ⟨⟨w, value⟩, hsplit, h⟩
    obtain ⟨k, hkey, h⟩ := Option.bind_eq_some_iff.1 h
    obtain ⟨rfl, -⟩ := Text.splitFirst?_eq_some_iff.1 hsplit
    rw [Key.ofWord?_eq_some_iff] at hkey
    cases h
    exact ⟨value, Key.value?_eq_some_iff.2 (by rw [hkey]; rfl), rfl⟩
  · rintro ⟨value, hvalue, rfl⟩
    rw [Key.value?_eq_some_iff] at hvalue
    refine ⟨(key.word, value), ?_, ?_⟩
    · exact Text.splitFirst?_eq_some_iff.2 ⟨hvalue, key.plain_word.2 '=' List.mem_cons_self⟩
    · rw [Option.bind_eq_bind, Option.bind_eq_some_iff]
      exact ⟨key, Key.ofWord?_eq_some_iff.2 rfl, rfl⟩

/-- The filters that words set one after another. -/
def ofWords (words : List Text) : Filters :=
  (words.filterMap item?).foldl (fun f (key, values) => f.set key values) {}

theorem ofWords_concat (words : List Text) (word : Text) :
    ofWords (words ++ [word]) = ((item? word).map fun (key, values) =>
      (ofWords words).set key values).getD (ofWords words) := by
  rw [ofWords, List.filterMap_append, List.foldl_append]
  cases h : item? word with
  | none => rw [List.filterMap_cons_none h, List.filterMap_nil]; rfl
  | some item => rw [List.filterMap_cons_some h, List.filterMap_nil]; rfl

/-- Setting filters word by word leaves each key with its last value. -/
theorem get_ofWords (words : List Text) (key : Key) :
    (ofWords words).get key = (key.values words).getLast?.map splitValues := by
  induction words using List.reverseRecOn with
  | nil => cases key <;> rfl
  | append_singleton words word ih =>
    rw [ofWords_concat, key.getLast?_values_concat]
    cases hvalue : key.value? word with
    | some value =>
      rw [item?_eq_some_iff.2 ⟨value, hvalue, rfl⟩, Option.map_some, Option.getD_some, get_set,
        if_pos rfl]
      rfl
    | none =>
      rw [Option.none_or, ← ih]
      cases hitem : item? word with
      | none => rfl
      | some item =>
        obtain ⟨other, values⟩ := item
        have hne : key ≠ other := by
          rintro rfl
          obtain ⟨value, hsome, -⟩ := item?_eq_some_iff.1 hitem
          rw [hvalue] at hsome
          cases hsome
        rw [Option.map_some, Option.getD_some, get_set, if_neg hne]

theorem splitValues_value {words : List Text} (h : ∀ word ∈ words, word.NoBlank) {key : Key}
    (hvalue : (key.values words).getLast? = some value) : splitValues value = parts value := by
  obtain ⟨word, hword, hw⟩ := List.mem_filterMap.1 (List.mem_of_getLast? hvalue)
  rw [Key.value?_eq_some_iff] at hw
  subst hw
  exact splitValues_of_noBlank (Directive.noBlank_of_written (h _ hword))

theorem grammar_iff {words : List Text} (h : ∀ word ∈ words, word.NoBlank) {filters : Filters} :
    Grammar words filters ↔ filters = ofWords words ∧ filters.isEmpty = false := by
  have hget (key : Key) : (ofWords words).get key = (key.values words).getLast?.map parts := by
    rw [get_ofWords]
    cases hvalue : (key.values words).getLast? with
    | none => rfl
    | some value => exact congrArg some (splitValues_value h hvalue)
  have hempty : (ofWords words).isEmpty = false ↔ ∃ key : Key, key.values words ≠ [] := by
    rw [← Bool.not_eq_true, isEmpty_iff, not_forall]
    apply exists_congr
    intro key
    rw [hget, Option.map_eq_none_iff, List.getLast?_eq_none_iff]
  constructor
  · rintro ⟨hasks, hkeys⟩
    have he : filters = ofWords words := ext_get fun key => (hkeys key).trans (hget key).symm
    rw [he]
    exact ⟨rfl, hempty.2 hasks⟩
  · rintro ⟨rfl, hne⟩
    exact ⟨hempty.1 hne, hget⟩

end Filters

/-- A segment as it stands in the text. -/
def Segment.raw : Segment → Text
  | text t => t
  | query q => q.fullMatch

theorem raw_segment (token : Token) : (Knowledge.segment token).raw = token.raw := by
  rw [Knowledge.segment]
  cases token.read? Knowledge.filters? <;> rfl

theorem Knowledge.filters?_of_opens (h : Directive.Opens "knowledgebase".toList body part)
    {filters : Filters} :
    filters? body = some filters ↔ Filters.Grammar part.words filters := by
  have hargs : arguments? body = some part.trim := h.arguments?
  have hwords : Filters.ofArguments part.trim = Filters.ofWords part.words := by
    rw [Filters.ofArguments, Text.words_trim]
    rfl
  rw [filters?, hargs, Filters.grammar_iff fun _ hword => Text.noBlank_of_mem_words hword]
  simp only [hwords]
  split
  · rename_i hempty
    constructor
    · intro h
      cases h
    · rintro ⟨rfl, hne⟩
      rw [hempty] at hne
      cases hne
  · rename_i hempty
    constructor
    · intro h
      cases h
      exact ⟨rfl, eq_false_of_ne_true hempty⟩
    · rintro ⟨rfl, -⟩
      rfl

/-- Knowledge directives are split off without loss. There is a query, in its place, for each tag
whose body is a directive that asks for something, with the filters that its words say; words that
give no key a value do not count. -/
theorem knowledgeQueries_grammar (text : Text) :
    (splitKnowledge text).flatMap Segment.raw = text ∧
    knowledgeQueries text = findTags (fun body =>
      (Knowledge.filters? body).map fun filters => ⟨(Token.tag body).raw, filters⟩) text ∧
    (∀ body filters, Knowledge.filters? body = some filters ↔
      ∃ part, Directive.Opens "knowledgebase".toList body part ∧
        Filters.Grammar part.words filters) ∧
    ∀ body part body' part', Directive.Opens "knowledgebase".toList body part →
      Directive.Opens "knowledgebase".toList body' part' →
      (∀ key : Key, key.values part.words = key.values part'.words) →
      Knowledge.filters? body = Knowledge.filters? body' := by
  refine ⟨?_, knowledgeQueries_eq_findTags text, ?_, ?_⟩
  · rw [splitKnowledge, List.flatMap_map]
    simp only [raw_segment, flatMap_raw_tokenize]
  · intro body filters
    constructor
    · intro h
      obtain ⟨args, hargs⟩ := Knowledge.exists_arguments h
      obtain ⟨part, hpart, -⟩ := Directive.exists_opens hargs
      exact ⟨part, hpart, (Knowledge.filters?_of_opens hpart).1 h⟩
    · rintro ⟨part, hpart, hgrammar⟩
      exact (Knowledge.filters?_of_opens hpart).2 hgrammar
  · intro body part body' part' hpart hpart' hvalues
    apply Option.ext
    intro filters
    rw [Knowledge.filters?_of_opens hpart, Knowledge.filters?_of_opens hpart']
    constructor
    · rintro ⟨⟨key, hkey⟩, hget⟩
      exact ⟨⟨key, hvalues key ▸ hkey⟩, fun key => hvalues key ▸ hget key⟩
    · rintro ⟨⟨key, hkey⟩, hget⟩
      exact ⟨⟨key, hvalues key ▸ hkey⟩, fun key => hvalues key ▸ hget key⟩

end DialogScript
