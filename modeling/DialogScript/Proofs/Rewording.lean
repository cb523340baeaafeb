import DialogScript.Knowledge.Passage
import DialogScript.Proofs.KnowledgeGrammar
import DialogScript.Proofs.Retrieval

/-!
What a knowledge directive retrieves from stored passages. It depends on the parts that each key is
given and on nothing else in the words of the directive; a further key narrows it.
-/

namespace DialogScript

namespace Key

/-- The value is one that the words list for the key, if they give the key one. -/
def Allows (key : Key) (words : List Text) (v : Text) : Prop :=
  ∀ value ∈ (key.values words).getLast?, v ∈ Filters.parts value

theorem word_injective {key other : Key} (h : key.word = other.word) : key = other := by
  have hkey : ofWord? other.word = some key := ofWord?_eq_some_iff.2 h.symm
  rw [ofWord?_eq_some_iff.2 rfl] at hkey
  exact (Option.some.inj hkey).symm

theorem value?_written (key other : Key) (value : Text) :
    key.value? (Directive.written (other.word, value)) =
      if other = key then some value else none := by
  split
  · rename_i h
    subst h
    exact value?_eq_some_iff.2 rfl
  · rename_i hne
    rw [Option.eq_none_iff_forall_ne_some]
    intro found hfound
    have hsplit (k : Key) (v : Text) :
        (Directive.written (k.word, v)).splitFirst? '=' = some (k.word, v) :=
      Text.splitFirst?_eq_some_iff.2 ⟨rfl, k.plain_word.2 '=' List.mem_cons_self⟩
    have h := hsplit other value
    rw [value?_eq_some_iff.1 hfound, hsplit key found] at h
    obtain ⟨hword, -⟩ := Prod.mk.inj (Option.some.inj h)
    exact hne (word_injective hword.symm)

theorem values_cons (key : Key) (word : Text) (words : List Text) :
    key.values (word :: words) = (key.value? word).toList ++ key.values words := by
  cases h : key.value? word with
  | none => exact List.filterMap_cons_none h
  | some value => exact List.filterMap_cons_some h

theorem values_append (key : Key) (a b : List Text) :
    key.values (a ++ b) = key.values a ++ key.values b := List.filterMap_append

/-- A word for one key gives the other keys nothing. -/
theorem values_insert_of_ne {key other : Key} (h : other ≠ key) (a b : List Text) (value : Text) :
    key.values (a ++ Directive.written (other.word, value) :: b) = key.values (a ++ b) := by
  rw [values_append, values_cons, value?_written, if_neg h, values_append]
  rfl

theorem allows_of_values_eq_nil {key : Key} (h : key.values words = []) (v : Text) :
    key.Allows words v := by
  intro value hvalue
  rw [h] at hvalue
  cases hvalue

theorem allows_congr {key : Key} (h : key.values words = key.values words') (v : Text) :
    key.Allows words v ↔ key.Allows words' v := by
  rw [Allows, Allows, h]

end Key

/-- No key is given a value twice. -/
def DistinctKeys (words : List Text) : Prop := ∀ key : Key, (key.values words).length ≤ 1

/-- Two ways to write the words of a directive: in another order, with an ignored word more, or with
a list that has the same parts. -/
inductive Rewords : List Text → List Text → Prop
  | reorder (h : words.Perm words') : Rewords words words'
  | ignored (h : ∀ key : Key, key.value? word = none) : Rewords words (word :: words)
  | relist {key : Key} (h : ∀ part, part ∈ Filters.parts value ↔ part ∈ Filters.parts value') :
      Rewords (Directive.written (key.word, value) :: words)
        (Directive.written (key.word, value') :: words)
  | symm (h : Rewords words words') : Rewords words' words
  | trans (h : Rewords words words') (h' : Rewords words' words'') : Rewords words words''

namespace Rewords

theorem length_values (h : Rewords words words') (key : Key) :
    (key.values words).length = (key.values words').length := by
  induction h with
  | reorder h => exact (h.filterMap key.value?).length_eq
  | ignored h =>
    rw [key.values_cons, h key]
    rfl
  | @relist value value' words other h =>
    rw [key.values_cons, key.values_cons, key.value?_written, key.value?_written,
      List.length_append, List.length_append]
    split <;> rfl
  | symm h ih => exact ih.symm
  | trans h h' ih ih' => exact ih.trans ih'

theorem values_eq_nil_iff (h : Rewords words words') (key : Key) :
    key.values words = [] ↔ key.values words' = [] := by
  rw [← List.length_eq_zero_iff, h.length_values key, List.length_eq_zero_iff]

/-- A key with one value at most allows the same in each wording. -/
theorem allows (h : Rewords words words') {key : Key} (hone : (key.values words).length ≤ 1)
    (v : Text) : key.Allows words v ↔ key.Allows words' v := by
  induction h with
  | @reorder words words' h =>
    apply Key.allows_congr
    have hperm : (key.values words).Perm (key.values words') := h.filterMap key.value?
    -- of two values the last would depend on the order
    match hvalues : key.values words with
    | [] =>
      rw [hvalues] at hperm
      exact hperm.nil_eq
    | [value] =>
      rw [hvalues] at hperm
      exact hperm.singleton_eq
    | value :: other :: rest =>
      rw [hvalues, List.length_cons, List.length_cons] at hone
      omega
  | ignored h =>
    apply Key.allows_congr
    rw [key.values_cons, h key]
    rfl
  | @relist value value' words other h =>
    by_cases hkey : other = key
    · subst hkey
      have hvalues (value : Text) :
          other.values (Directive.written (other.word, value) :: words) =
            value :: other.values words := by
        rw [other.values_cons, other.value?_written, if_pos rfl]
        rfl
      rw [hvalues, List.length_cons] at hone
      have hnil : other.values words = [] := List.length_eq_zero_iff.1 (by omega)
      simp only [Key.Allows, hvalues, hnil, List.getLast?_singleton, Option.mem_some_iff,
        forall_eq', h v]
    · apply Key.allows_congr
      exact (Key.values_insert_of_ne hkey [] words value).trans
        (Key.values_insert_of_ne hkey [] words value').symm
  | symm h ih => exact (ih (h.length_values key ▸ hone)).symm
  | trans h h' ih ih' => exact (ih hone).trans (ih' (h.length_values key ▸ hone))

end Rewords

theorem Passage.fits_iff {p : Passage} {filters : Filters} :
    p.fits filters = true ↔ ∀ key, ∀ values ∈ filters.get key, p.get key ∈ values := by
  rw [fits, List.all_eq_true]
  constructor
  · intro h key values hvalues
    have hkey := h key key.mem_all
    rw [Option.mem_def] at hvalues
    simp only [hvalues] at hkey
    exact List.contains_iff_mem.1 hkey
  · intro h key _
    split
    · rename_i values hvalues
      exact List.contains_iff_mem.2 (h key values hvalues)
    · rfl

namespace Filters

theorem Grammar.fits_iff (h : Grammar words filters) {p : Passage} :
    p.fits filters = true ↔ ∀ key : Key, key.Allows words (p.get key) := by
  rw [Passage.fits_iff]
  apply forall_congr'
  intro key
  rw [h.get, Key.Allows]
  cases (key.values words).getLast? with
  | none => simp
  | some value => simp

theorem exists_grammar (h : ∃ key : Key, key.values words ≠ []) :
    ∃ filters, Grammar words filters := by
  let restricted (key : Key) := (key.values words).getLast?.map parts
  refine ⟨⟨restricted .id, restricted .category1, restricted .category2, restricted .category3,
    restricted .name⟩, h, ?_⟩
  intro key
  cases key <;> rfl

end Filters

namespace KnowledgeBase

/-- Filters that fewer passages fit find fewer, in the same order. -/
theorem find_sublist (base : KnowledgeBase)
    (h : ∀ p : Passage, p.fits filters' = true → p.fits filters = true) :
    (base.find filters').Sublist (base.find filters) :=
  (List.monotone_filter_right base.passages h).map Passage.text

theorem find_append (ps qs : List Passage) (filters : Filters) :
    find ⟨ps ++ qs⟩ filters = find ⟨ps⟩ filters ++ find ⟨qs⟩ filters := by
  rw [find, List.filter_append, List.map_append]
  rfl

/-- What a tag body retrieves, if it is a directive that asks for something. -/
def retrieved? (base : KnowledgeBase) (body : Text) : Option (List Text) :=
  (Knowledge.filters? body).map base.find

theorem retrieved?_append (hearly : retrieved? ⟨ps⟩ body = some early)
    (hlate : retrieved? ⟨qs⟩ body = some late) :
    retrieved? ⟨ps ++ qs⟩ body = some (early ++ late) := by
  rw [retrieved?, Option.map_eq_some_iff] at hearly hlate ⊢
  obtain ⟨filters, hfilters, rfl⟩ := hearly
  obtain ⟨again, hagain, rfl⟩ := hlate
  rw [hfilters] at hagain
  cases hagain
  exact ⟨filters, hfilters, find_append ps qs filters⟩

end KnowledgeBase

/-- The body is a knowledge directive with these words. -/
def Directs (body : Text) (words : List Text) : Prop :=
  ∃ part, Directive.Opens "knowledgebase".toList body part ∧ part.words = words

namespace Directs

theorem of_blank (hc : isBlank c) (rest : Text) :
    Directs ('#' :: ("knowledgebase".toList ++ c :: rest)) rest.words := by
  refine ⟨c :: rest, ⟨⟨[], List.forall_mem_nil _, rfl⟩, ?_⟩, Text.words_append_cons hc [] rest⟩
  intro d hd
  cases hd
  exact hc

theorem filters?_eq_some_iff (h : Directs body words) {filters : Filters} :
    Knowledge.filters? body = some filters ↔ Filters.Grammar words filters := by
  obtain ⟨part, hpart, rfl⟩ := h
  exact Knowledge.filters?_of_opens hpart

theorem retrieved?_eq_some_iff (h : Directs body words) {base : KnowledgeBase} :
    base.retrieved? body = some found ↔
      ∃ filters, Filters.Grammar words filters ∧ base.find filters = found := by
  rw [KnowledgeBase.retrieved?, Option.map_eq_some_iff]
  simp only [h.filters?_eq_some_iff]

theorem asks (h : Directs body words) {base : KnowledgeBase}
    (hfound : base.retrieved? body = some found) : ∃ key : Key, key.values words ≠ [] := by
  obtain ⟨filters, hgrammar, -⟩ := h.retrieved?_eq_some_iff.1 hfound
  exact hgrammar.asks

theorem retrieved?_eq_none_iff (h : Directs body words) {base : KnowledgeBase} :
    base.retrieved? body = none ↔ ∀ key : Key, key.values words = [] := by
  constructor
  · intro hnone key
    by_contra hkey
    obtain ⟨filters, hgrammar⟩ := Filters.exists_grammar ⟨key, hkey⟩
    rw [h.retrieved?_eq_some_iff.2 ⟨filters, hgrammar, rfl⟩] at hnone
    cases hnone
  · intro hkeys
    rw [Option.eq_none_iff_forall_ne_some]
    intro found hfound
    obtain ⟨key, hkey⟩ := h.asks hfound
    exact hkey (hkeys key)

/-- Words that allow less retrieve less. -/
theorem retrieved?_sublist (h : Directs body words) (h' : Directs body' words')
    (hasks : ∃ key : Key, key.values words' ≠ [])
    (hallows : ∀ (key : Key) v, key.Allows words' v → key.Allows words v) {base : KnowledgeBase}
    (hfound : base.retrieved? body = some found) :
    ∃ found', base.retrieved? body' = some found' ∧ found'.Sublist found := by
  obtain ⟨filters, hgrammar, rfl⟩ := h.retrieved?_eq_some_iff.1 hfound
  obtain ⟨filters', hgrammar'⟩ := Filters.exists_grammar hasks
  refine ⟨_, h'.retrieved?_eq_some_iff.2 ⟨filters', hgrammar', rfl⟩, ?_⟩
  apply base.find_sublist
  intro p
  rw [hgrammar'.fits_iff, hgrammar.fits_iff]
  intro hp key
  exact hallows key _ (hp key)

theorem retrieved?_rewords (h : Directs body words) (h' : Directs body' words')
    (hdistinct : DistinctKeys words) (hwords : Rewords words words') (base : KnowledgeBase) :
    base.retrieved? body' = base.retrieved? body := by
  have hallows (key : Key) (v : Text) : key.Allows words v ↔ key.Allows words' v :=
    hwords.allows (hdistinct key) v
  cases hfound : base.retrieved? body with
  | none =>
    rw [h.retrieved?_eq_none_iff] at hfound
    rw [h'.retrieved?_eq_none_iff]
    intro key
    exact (hwords.values_eq_nil_iff key).1 (hfound key)
  | some found =>
    obtain ⟨key, hkey⟩ := h.asks hfound
    have hasks : ∃ key : Key, key.values words' ≠ [] :=
      ⟨key, mt (hwords.values_eq_nil_iff key).2 hkey⟩
    obtain ⟨found', hfound', hsub⟩ :=
      h.retrieved?_sublist h' hasks (fun key v => (hallows key v).2) hfound
    obtain ⟨again, hagain, hsup⟩ :=
      h'.retrieved?_sublist h ⟨key, hkey⟩ (fun key v => (hallows key v).1) hfound'
    rw [hfound] at hagain
    cases hagain
    rw [hfound', hsub.antisymm hsup]

/-- A key that was not there narrows what is retrieved. -/
theorem retrieved?_insert (h : Directs body (before ++ after)) {key : Key}
    (h' : Directs body' (before ++ Directive.written (key.word, value) :: after))
    (hnew : key.values (before ++ after) = []) {base : KnowledgeBase}
    (hfound : base.retrieved? body = some found) :
    ∃ found', base.retrieved? body' = some found' ∧ found'.Sublist found := by
  apply h.retrieved?_sublist h' _ _ hfound
  · refine ⟨key, ?_⟩
    rw [key.values_append, key.values_cons, key.value?_written, if_pos rfl]
    simp
  · intro other v hv
    by_cases hkey : key = other
    · subst hkey
      exact Key.allows_of_values_eq_nil hnew v
    · exact (Key.allows_congr (Key.values_insert_of_ne hkey before after value) v).1 hv

theorem retrieved?_empty (h : Directs body words) {key : Key}
    (hvalue : (key.values words).getLast? = some value) (hparts : Filters.parts value = [])
    (base : KnowledgeBase) : base.retrieved? body = some [] := by
  have hne : key.values words ≠ [] := by
    intro hnil
    rw [hnil] at hvalue
    cases hvalue
  obtain ⟨filters, hgrammar⟩ := Filters.exists_grammar ⟨key, hne⟩
  rw [h.retrieved?_eq_some_iff]
  refine ⟨filters, hgrammar, ?_⟩
  rw [KnowledgeBase.find, List.map_eq_nil_iff, List.filter_eq_nil_iff]
  intro p _ hfits
  have hmem := hgrammar.fits_iff.1 hfits key value hvalue
  rw [hparts] at hmem
  cases hmem

/-- Passages come in the order of the base, each at most once, and they are the ones with a value
that is allowed for each key. -/
theorem exists_kept (h : Directs body words) {base : KnowledgeBase}
    (hfound : base.retrieved? body = some found) :
    ∃ kept : List Passage, kept.Sublist base.passages ∧ kept.map Passage.text = found ∧
      ∀ p, p ∈ kept ↔ p ∈ base.passages ∧ ∀ key : Key, key.Allows words (p.get key) := by
  obtain ⟨filters, hgrammar, rfl⟩ := h.retrieved?_eq_some_iff.1 hfound
  refine ⟨_, List.filter_sublist, rfl, ?_⟩
  intro p
  rw [List.mem_filter, hgrammar.fits_iff]

end Directs

/-- The same token, or a directive that asks for something and its rewording. -/
inductive Token.Rephrased : Token → Token → Prop
  | same : Rephrased token token
  | directive (directs : Directs body words) (directs' : Directs body' words')
      (distinct : DistinctKeys words) (rewords : Rewords words words')
      (asks : ∃ key : Key, key.values words ≠ []) : Rephrased (.tag body) (.tag body')

namespace Setting

/-- What stands in a rendered block for a token of its resolved text. -/
def inserted (s : Setting) (bag : Bag) (base : KnowledgeBase) (token : Token) : Text :=
  match token.read? base.retrieved? with
  | some passages => Placeholder.resolve bag s.defaults (s.separator.intercalate passages)
  | none => token.raw

theorem splice_base (s : Setting) (bag : Bag) {base : KnowledgeBase}
    (hs : s.source? = some base.source) (lookups : List Filters) (tokens : List Token) :
    (s.splice bag lookups (tokens.map Knowledge.segment)).2 =
      .ok (tokens.flatMap (s.inserted bag base)) := by
  induction tokens generalizing lookups with
  | nil => rfl
  | cons token tokens ih =>
    have hread : token.read? base.retrieved? = (token.read? Knowledge.filters?).map base.find := by
      cases token <;> rfl
    rw [List.map_cons, List.flatMap_cons, Knowledge.segment, inserted, hread]
    cases token.read? Knowledge.filters? with
    | none =>
      dsimp only [Option.map_none]
      rw [splice_text, behind, ih]
      rfl
    | some filters =>
      have hretrieve (q : Query) : s.retrieve lookups q =
          (lookups ++ [q.filters], .ok (s.separator.intercalate (base.find q.filters))) := by
        rw [retrieve, hs]
        rfl
      dsimp only [Option.map_some]
      rw [splice_query, hretrieve]
      dsimp only [behind]
      rw [ih]
      rfl

/-- A base always answers: every token of the resolved text is copied or gives way to what it
retrieves. -/
theorem render_base (s : Setting) (bag : Bag) {base : KnowledgeBase}
    (hs : s.source? = some base.source) (lookups : List Filters) (b : Block) :
    (s.render bag lookups b).2 = .ok
      ((tokenize (Placeholder.resolve bag s.defaults b.template)).flatMap
        (s.inserted bag base)) := by
  rw [render_eq_splice, splitKnowledge, s.splice_base bag hs]

theorem inserted_rephrased (s : Setting) (bag : Bag) (base : KnowledgeBase)
    (h : Token.Rephrased token token') : s.inserted bag base token = s.inserted bag base token' := by
  cases h with
  | same => rfl
  | @directive body words body' words' directs directs' distinct rewords asks =>
    have heq : base.retrieved? body' = base.retrieved? body :=
      directs.retrieved?_rewords directs' distinct rewords base
    rw [inserted, inserted, Token.read?, Token.read?, heq]
    cases hfound : base.retrieved? body with
    | none =>
      obtain ⟨key, hkey⟩ := asks
      exact (hkey (directs.retrieved?_eq_none_iff.1 hfound key)).elim
    | some found => rfl

theorem flatMap_inserted_rephrased (s : Setting) (bag : Bag) (base : KnowledgeBase)
    (h : List.Forall₂ Token.Rephrased tokens tokens') :
    tokens.flatMap (s.inserted bag base) = tokens'.flatMap (s.inserted bag base) := by
  induction h with
  | nil => rfl
  | cons htoken _ ih =>
    rw [List.flatMap_cons, List.flatMap_cons, s.inserted_rephrased bag base htoken, ih]

end Setting

/-- Retrieval by directive. A directive whose words give no key a value is no lookup. For any other,
only the parts listed for each key count: rewording it changes neither the passages nor the rendered
text, a further key narrows what is found, and a list without parts finds nothing. The passages are
those with allowed values, in the order of the base. -/
theorem KnowledgeBase.retrieval_wording (base : KnowledgeBase) (h : Directs body words) :
    (base.retrieved? body = none ↔ ∀ key : Key, key.values words = []) ∧
    (∀ body' words', Directs body' words' → DistinctKeys words → Rewords words words' →
      base.retrieved? body' = base.retrieved? body) ∧
    (∀ (s : Setting) bag lookups lookups' b b', s.source? = some base.source →
      List.Forall₂ Token.Rephrased
        (tokenize (Placeholder.resolve bag s.defaults b.template))
        (tokenize (Placeholder.resolve bag s.defaults b'.template)) →
      (s.render bag lookups b).2 = .ok
        ((tokenize (Placeholder.resolve bag s.defaults b.template)).flatMap
          (s.inserted bag base)) ∧
      (s.render bag lookups' b').2 = (s.render bag lookups b).2) ∧
    (∀ before after (key : Key) value body' found, words = before ++ after →
      key.values words = [] →
      Directs body' (before ++ Directive.written (key.word, value) :: after) →
      base.retrieved? body = some found →
      ∃ found', base.retrieved? body' = some found' ∧ found'.Sublist found) ∧
    (∀ (key : Key) value, (key.values words).getLast? = some value → Filters.parts value = [] →
      base.retrieved? body = some []) ∧
    (∀ found, base.retrieved? body = some found →
      ∃ kept : List Passage, kept.Sublist base.passages ∧ kept.map Passage.text = found ∧
        ∀ p, p ∈ kept ↔ p ∈ base.passages ∧ ∀ key : Key, key.Allows words (p.get key)) ∧
    ∀ ps qs early late, retrieved? ⟨ps⟩ body = some early → retrieved? ⟨qs⟩ body = some late →
      retrieved? ⟨ps ++ qs⟩ body = some (early ++ late) := by
  refine ⟨h.retrieved?_eq_none_iff, ?_, ?_, ?_, ?_, ?_, ?_⟩
  · intro body' words' h' hdistinct hwords
    exact h.retrieved?_rewords h' hdistinct hwords base
  · intro s bag lookups lookups' b b' hs htokens
    refine ⟨s.render_base bag hs lookups b, ?_⟩
    rw [s.render_base bag hs, s.render_base bag hs, s.flatMap_inserted_rephrased bag base htokens]
  · rintro before after key value body' found rfl hnew h' hfound
    exact h.retrieved?_insert h' hnew hfound
  · intro key value hvalue hparts
    exact h.retrieved?_empty hvalue hparts base
  · intro found hfound
    exact h.exists_kept hfound
  · intro ps qs early late hearly hlate
    exact retrieved?_append hearly hlate

/-- Two wordings of a directive in a block, with a third key, and with an empty list. -/
theorem KnowledgeBase.retrieval_wording_faq :
    let base : KnowledgeBase := ⟨[
      { id := "a".toList, name := "faq".toList, text := "A".toList },
      { id := "c".toList, name := "faq".toList, text := "C".toList },
      { id := "b".toList, name := "faq".toList, category1 := "x".toList, text := "B".toList }]⟩
    let s : Setting := { generator := .echo [], source? := some base.source }
    let words := ["name=faq".toList, "id=b,a".toList]
    let reworded := ["id=a,,b,a".toList, "new".toList, "name=faq".toList]
    let body := "#knowledgebase name=faq id=b,a".toList
    let body' := "#knowledgebase id=a,,b,a  new name=faq".toList
    let narrow := "#knowledgebase name=faq category1=x id=b,a".toList
    let empty := "#knowledgebase id=, name=faq".toList
    Directs body words ∧ Directs body' reworded ∧ DistinctKeys words ∧ Rewords words reworded ∧
    base.retrieved? body = some ["A".toList, "B".toList] ∧
    base.retrieved? body' = base.retrieved? body ∧
    (s.render [] [] (.trailing (Token.tag body).raw)).2 = .ok "A\nB".toList ∧
    (s.render [] [] (.trailing (Token.tag body').raw)).2 =
      (s.render [] [] (.trailing (Token.tag body).raw)).2 ∧
    (∃ found', base.retrieved? narrow = some found' ∧
      found'.Sublist ["A".toList, "B".toList]) ∧
    base.retrieved? empty = some [] ∧
    retrieved? ⟨base.passages ++ base.passages⟩ body =
      some ["A".toList, "B".toList, "A".toList, "B".toList] := by
  intro base s words reworded body body' narrow empty
  have hblank : isBlank ' ' := rfl
  have hbody : Directs body words := Directs.of_blank hblank "name=faq id=b,a".toList
  have hbody' : Directs body' reworded :=
    Directs.of_blank hblank "id=a,,b,a  new name=faq".toList
  have hnarrow : Directs narrow ["name=faq".toList, "category1=x".toList, "id=b,a".toList] :=
    Directs.of_blank hblank "name=faq category1=x id=b,a".toList
  have hempty : Directs empty ["id=,".toList, "name=faq".toList] :=
    Directs.of_blank hblank "id=, name=faq".toList
  have hdistinct : DistinctKeys words := by
    intro key
    cases key <;> decide
  have hsame : ∀ part,
      part ∈ Filters.parts "b,a".toList ↔ part ∈ Filters.parts "a,,b,a".toList := by
    have hparts : Filters.parts "b,a".toList = [['b'], ['a']] := rfl
    have hparts' : Filters.parts "a,,b,a".toList = [['a'], ['b'], ['a']] := rfl
    intro part
    rw [hparts, hparts']
    simp [or_comm]
  have hwords : Rewords words reworded := by
    have hswap : Rewords words ["id=b,a".toList, "name=faq".toList] :=
      .reorder (.swap _ _ _)
    have hlist : Rewords ["id=b,a".toList, "name=faq".toList]
        ["id=a,,b,a".toList, "name=faq".toList] := @Rewords.relist _ _ _ .id hsame
    have hnew : Rewords ["id=a,,b,a".toList, "name=faq".toList]
        ["new".toList, "id=a,,b,a".toList, "name=faq".toList] :=
      .ignored fun key => by cases key <;> rfl
    exact ((hswap.trans hlist).trans hnew).trans (.reorder (.swap _ _ _))
  have hfound : base.retrieved? body = some ["A".toList, "B".toList] := rfl
  have htokens : List.Forall₂ Token.Rephrased
      (tokenize (Placeholder.resolve [] s.defaults (Token.tag body).raw))
      (tokenize (Placeholder.resolve [] s.defaults (Token.tag body').raw)) := by
    have hbefore : tokenize (Placeholder.resolve [] s.defaults (Token.tag body).raw) =
        [.tag body] := rfl
    have hafter : tokenize (Placeholder.resolve [] s.defaults (Token.tag body').raw) =
        [.tag body'] := rfl
    rw [hbefore, hafter]
    exact .cons (.directive hbody hbody' hdistinct hwords ⟨.id, by decide⟩) .nil
  obtain ⟨-, hreword, hrender, hinsert, -, -, hjoin⟩ := retrieval_wording base hbody
  obtain ⟨-, -, -, -, hnothing, -, -⟩ := retrieval_wording base hempty
  refine ⟨hbody, hbody', hdistinct, hwords, hfound, ?_, rfl, ?_, ?_, ?_, ?_⟩
  · exact hreword body' reworded hbody' hdistinct hwords
  · exact (hrender s [] [] [] _ _ rfl htokens).2
  · exact hinsert ["name=faq".toList] ["id=b,a".toList] .category1 "x".toList narrow _ rfl rfl
      hnarrow hfound
  · exact hnothing .id ",".toList rfl rfl
  · exact hjoin _ _ _ _ hfound hfound

end DialogScript
