import DialogScript.Proofs.Agreement
import DialogScript.Proofs.BlockText
import DialogScript.Proofs.Chaining
import DialogScript.Proofs.Response

/-!
Which output names can be referred to. A break directive takes any word for a name, and a tag only
one that does not begin as a directive and has no brace. A reply kept under another name is seen by
no block.
-/

namespace DialogScript

namespace Placeholder

/-- A word of this kind can stand in a tag as a name. -/
structure Referable (word : Text) : Prop where
  head : ∀ c ∈ word.head?, c ≠ '#' ∧ c ≠ '/'
  noOpen : '{' ∉ word
  noClose : '}' ∉ word

theorem all_isNameChar_iff {word : Text} :
    word.all isNameChar = true ↔ word.NoBlank ∧ '{' ∉ word ∧ '}' ∉ word := by
  rw [List.all_eq_true]
  constructor
  · intro h
    refine ⟨fun c hc => ?_, fun hc => ?_, fun hc => ?_⟩
    · have hchar := h c hc
      rw [isNameChar, Bool.and_eq_true, Bool.and_eq_true, Bool.not_eq_true'] at hchar
      exact hchar.1.1
    · exact absurd (h _ hc) (by decide)
    · exact absurd (h _ hc) (by decide)
  · rintro ⟨hblank, hopen, hclose⟩ c hc
    have hne : c ≠ '{' ∧ c ≠ '}' := ⟨fun he => hopen (he ▸ hc), fun he => hclose (he ▸ hc)⟩
    simp [isNameChar, hblank c hc, hne]

theorem name?_eq_some_iff :
    name? body = some name ↔ body.trim = name ∧ name ≠ [] ∧ name.NoBlank ∧ Referable name := by
  rw [name?]
  constructor
  · intro h
    split at h
    · cases h
    · rename_i c rest htrim
      split at h
      · rename_i hc
        cases h
        simp only [Bool.and_eq_true, decide_eq_true_eq, all_isNameChar_iff] at hc
        obtain ⟨⟨hhash, hslash⟩, hblank, hopen, hclose⟩ := hc
        refine ⟨htrim, List.cons_ne_nil _ _, hblank, ?_, hopen, hclose⟩
        intro d hd
        cases hd
        exact ⟨hhash, hslash⟩
      · cases h
  · rintro ⟨rfl, hne, hblank, hhead, hopen, hclose⟩
    obtain ⟨c, rest, he⟩ := List.exists_cons_of_ne_nil hne
    rw [he] at hblank hhead hopen hclose ⊢
    obtain ⟨hhash, hslash⟩ := hhead c rfl
    have hall := all_isNameChar_iff.2 ⟨hblank, hopen, hclose⟩
    simp only
    rw [if_pos]
    simp [hhash, hslash, hall]

/-- A name that some tag holds is held by the tag that is made from it. -/
theorem name?_self (h : name? body = some name) : name? name = some name := by
  rw [name?_eq_some_iff] at h ⊢
  exact ⟨h.2.2.1.trim, h.2⟩

theorem name?_self_iff {word : Text} (hne : word ≠ []) (hblank : word.NoBlank) :
    name? word = some word ↔ Referable word := by
  rw [name?_eq_some_iff]
  exact ⟨fun h => h.2.2.2, fun h => ⟨hblank.trim, hne, hblank, h⟩⟩

theorem exists_of_mem_referenced (h : name ∈ referenced text) :
    ∃ body, name? body = some name := by
  rw [referenced, mem_distinct] at h
  obtain ⟨token, -, hread⟩ := List.mem_filterMap.1 h
  cases token with
  | literal run => cases hread
  | tag body => exact ⟨body, hread⟩

/-- What stands under a name that no tag can hold takes the place of nothing. -/
theorem agree_insert (h : ¬ Referable word) (bag : Bag) (value : Value) (defaults : Table Text)
    (text : Text) :
    Agree (meaning (bag.insert word value) defaults) (meaning bag defaults) text := by
  intro name hname
  obtain ⟨body, hbody⟩ := exists_of_mem_referenced hname
  have hne : word ≠ name := by
    rintro rfl
    exact h (name?_eq_some_iff.1 hbody).2.2.2
  rw [meaning, meaning, Table.get?_insert, if_neg hne]

/-- A tag that holds a name is replaced wherever it stands, but not right behind a brace. -/
theorem resolve_append_tag (h : name? body = some name) (bag : Bag) (defaults : Table Text)
    {front : Text} (hfront : front.getLast? ≠ some '{') (rest : Text) :
    resolve bag defaults (front ++ ((Token.tag body).raw ++ rest)) =
      resolve bag defaults front ++ (meaning bag defaults name ++ resolve bag defaults rest) := by
  rw [resolve, resolveWith, (isBody_of_name? h).tokenize_append_tag hfront, List.flatMap_append,
    List.flatMap_cons, fill, Token.read?, h]
  rfl

end Placeholder

theorem Setting.render_insert (s : Setting) (h : ¬ Placeholder.Referable word) (bag : Bag)
    (value : Value) (lookups : List Filters) (b : Block) :
    s.render (bag.insert word value) lookups b = s.render bag lookups b := by
  have hagree := Placeholder.agree_insert h bag value s.defaults
  have hresolve : Placeholder.resolve (bag.insert word value) s.defaults b.template =
      Placeholder.resolve bag s.defaults b.template := (hagree b.template).resolveWith_eq
  rw [render_eq_splice, render_eq_splice, hresolve]
  apply s.splice_of_agree
  intro passages _ name hname
  exact (hagree _ name hname).symm

namespace Break

theorem noBlank_of_read? (h : read? body = some b) : b.output ≠ [] ∧ b.output.NoBlank := by
  obtain ⟨args, hargs, -⟩ := Option.bind_eq_some_iff.1 h
  obtain ⟨part, hpart, -⟩ := Directive.exists_opens hargs
  obtain ⟨attributes, hwords, hvalue, hsays⟩ := (read?_of_opens hpart).1 h
  have hmem := hsays.output_mem
  have hword : Directive.written ("output".toList, b.output) ∈ part.words := by
    rw [hwords]
    exact List.mem_map_of_mem hmem
  exact ⟨hvalue _ hmem, Directive.noBlank_of_written (Text.noBlank_of_mem_words hword)⟩

end Break

theorem Block.noBlank_of_parseBlocks (h : parseBlocks text = .ok blocks) (hb : b ∈ blocks) :
    b.output ≠ [] ∧ b.output.NoBlank := by
  obtain ⟨slices, last, -, hvalid, -, hcut⟩ := exists_slices (tokenize text)
  rw [parseBlocks_eq_cut h, hcut] at hb
  rcases List.mem_append.1 hb with hb | hb
  · obtain ⟨c, hc, rfl⟩ := List.mem_map.1 hb
    exact Break.noBlank_of_read? (hvalid c hc).reads
  · rw [List.mem_singleton.1 hb]
    change trailingOutput ≠ [] ∧ trailingOutput.NoBlank
    decide

/-- The value that a block's reply became is in the bag for all blocks behind it. -/
theorem Turn.meaning_of_mem (h : parseBlocks text = .ok blocks)
    (hturns : turns.map Turn.block <+: blocks) (ht : t ∈ turns) (seed : Bag)
    (defaults : Table Text) :
    Placeholder.meaning (bag seed turns) defaults t.block.output = t.value.promptText := by
  have hnodup : ((turns.map Turn.block).map Block.output).Nodup :=
    (nodup_of_parseBlocks h).sublist (hturns.sublist.map _)
  rw [Placeholder.meaning, get?_bag_of_mem hnodup ht]

/-- An output name is the name in its own tag exactly if it can be referred to. If so, the tag is
replaced by what became of the block's reply, in all of the text that a later block is made of and
in every run that gets so far. If not, no tag at all holds the name, and no block is rendered
differently for what is kept under it. -/
theorem parseBlocks_outputs (h : parseBlocks text = .ok blocks) (hb : b ∈ blocks) :
    (Placeholder.name? b.output = some b.output ↔ Placeholder.Referable b.output) ∧
    (Placeholder.Referable b.output →
      tokenize (Token.tag b.output).raw = [.tag b.output] ∧
      ∀ (s : Setting) (earlier : Log) (seed : Bag) (turns : List Turn),
        Turn.Played s earlier seed turns → turns.map Turn.block <+: blocks →
        ∀ t ∈ turns, t.block = b → coerce b t.reply = .ok t.value ∧
          ∀ front rest, front.getLast? ≠ some '{' →
            Placeholder.resolve (Turn.bag seed turns) s.defaults
                (front ++ ((Token.tag b.output).raw ++ rest)) =
              Placeholder.resolve (Turn.bag seed turns) s.defaults front ++
                (t.value.promptText ++
                  Placeholder.resolve (Turn.bag seed turns) s.defaults rest)) ∧
    (¬ Placeholder.Referable b.output →
      (∀ body, Placeholder.name? body ≠ some b.output) ∧
      ∀ (s : Setting) (bag : Bag) (value : Value) (lookups : List Filters) (later : Block),
        s.render (bag.insert b.output value) lookups later = s.render bag lookups later) := by
  obtain ⟨hne, hblank⟩ := Block.noBlank_of_parseBlocks h hb
  have hself := Placeholder.name?_self_iff hne hblank
  refine ⟨hself, ?_, ?_⟩
  · intro href
    have hname := hself.2 href
    refine ⟨(Placeholder.isBody_of_name? hname).tokenize_tag, ?_⟩
    rintro s earlier seed turns hplayed hturns t ht rfl
    refine ⟨hplayed.coerced ht, ?_⟩
    intro front rest hfront
    rw [Placeholder.resolve_append_tag hname _ _ hfront, Turn.meaning_of_mem h hturns ht]
  · intro href
    constructor
    · intro body hbody
      exact href (hself.1 (Placeholder.name?_self hbody))
    · intro s bag value lookups later
      exact s.render_insert href bag value lookups later

/-- The law for a JSON output whose tag stands behind a tag that is left open. -/
theorem parseBlocks_outputs_json :
    let directive := (Token.tag "#break output=a=b output_type=json".toList).raw
    let reference := (Token.tag "a=b".toList).raw
    let first : Block := ⟨"Pick.".toList, "a=b".toList, false, .json⟩
    let later := '{' :: '{' :: "x ".toList ++ (reference ++ ['.'])
    let s : Setting := { generator := .scripted ["[ 1 ]".toList] }
    let t : Turn :=
      ⟨first, [], [⟨.user, "Pick.".toList⟩], "[ 1 ]".toList, .json (.array [.number (.int 1)])⟩
    parseBlocks (first.template ++ directive ++ later) = .ok [first, .trailing later] ∧
    Turn.Played s {} [] [t] ∧ Placeholder.name? first.output = some first.output ∧
    Placeholder.resolve (Turn.bag [] [t]) s.defaults later =
      '{' :: '{' :: "x [1].".toList := by
  intro directive reference first later s t
  have hparse : parseBlocks (first.template ++ directive ++ later) =
      .ok [first, .trailing later] := rfl
  have hplayed : Turn.Played s {} [] [t] :=
    (Turn.played_nil s {} []).concat ⟨⟨_, rfl, rfl⟩, rfl, rfl⟩
  obtain ⟨hself, hinsert, -⟩ := parseBlocks_outputs hparse List.mem_cons_self
  have href : Placeholder.Referable first.output := by
    refine ⟨?_, by decide, by decide⟩
    intro c hc
    obtain rfl : 'a' = c := Option.some.inj hc
    decide
  obtain ⟨-, hturns⟩ := hinsert href
  obtain ⟨-, htext⟩ := hturns s {} [] [t] hplayed (List.prefix_append _ _) t List.mem_cons_self rfl
  have hlater := htext ('{' :: '{' :: "x ".toList) ['.'] (by decide)
  have hfront : Placeholder.resolve (Turn.bag [] [t]) s.defaults ('{' :: '{' :: "x ".toList) =
      '{' :: '{' :: "x ".toList := rfl
  have hvalue : t.value.promptText = "[1]".toList := rfl
  have hrest : Placeholder.resolve (Turn.bag [] [t]) s.defaults ['.'] = ['.'] := rfl
  rw [hfront, hvalue, hrest] at hlater
  exact ⟨hparse, hplayed, hself.2 href, hlater⟩

/-- A reply is kept under a name that the next block's tag does not hold, so the tag is sent as it
stands. -/
theorem parseBlocks_output_hash :
    let reference := (Token.tag "#x".toList).raw
    let text := (Token.tag "#break output=#x".toList).raw ++ reference
    let b : Block := ⟨[], "#x".toList, false, .text⟩
    let e : Engine := { generator := .scripted ["r".toList, "s".toList] }
    parseBlocks text = .ok [b, .trailing reference] ∧
    Placeholder.name? b.output = none ∧
    (∀ value, Placeholder.resolve [(b.output, value)] [] reference = reference) ∧
    (e.run {} text [] []).1.requests =
      [[⟨.user, []⟩], [⟨.user, []⟩, ⟨.assistant, "r".toList⟩, ⟨.user, reference⟩]] ∧
    ¬ ∀ (text : Text) (blocks : List Block), parseBlocks text = .ok blocks →
      ∀ b ∈ blocks, Placeholder.name? b.output = some b.output := by
  intro reference text b e
  have hparse : parseBlocks text = .ok [b, .trailing reference] := rfl
  refine ⟨hparse, rfl, fun _ => rfl, rfl, ?_⟩
  intro h
  have hname := h text _ hparse b List.mem_cons_self
  cases hname

end DialogScript
