import DialogScript.Proofs.BraceFree
import DialogScript.Proofs.JsonReadback
import DialogScript.Proofs.Span
import DialogScript.Run

/-! A reply that is kept as JSON reaches later blocks without loss. -/

namespace DialogScript

namespace Placeholder

theorem all_isNameChar_of_name? (h : name? body = some name) :
    ∀ c ∈ body.trim, isNameChar c = true := by
  rw [name?] at h
  split at h
  next => cases h
  next c rest htrim =>
    split at h
    next hc =>
      rw [Bool.and_eq_true, List.all_eq_true] at hc
      rw [htrim]
      exact hc.2
    next => cases h

theorem notMem_of_name? (h : name? body = some name) (hname : isNameChar c = false)
    (hblank : isBlank c = false) : c ∉ body := by
  obtain ⟨a, b, hbody, ha, hb⟩ := Text.exists_blank_trim body
  rw [hbody, List.mem_append, List.mem_append]
  rintro ((hm | hm) | hm)
  · exact ha.notMem hblank hm
  · rw [all_isNameChar_of_name? h c hm] at hname
    cases hname
  · exact hb.notMem hblank hm

theorem isBody_of_name? (h : name? body = some name) : IsBody body := by
  apply isBody_of_notMem
  exact ⟨notMem_of_name? h (by decide) (by decide), notMem_of_name? h (by decide) (by decide)⟩

/-- A tag that holds a name is replaced by the name's value and nothing else. -/
theorem resolve_tag (h : name? body = some name) (bag : Bag) (defaults : Table Text) :
    resolve bag defaults (Token.tag body).raw = meaning bag defaults name := by
  rw [resolve, resolveWith, (isBody_of_name? h).tokenize_tag, List.flatMap_singleton, fill,
    Token.read?, h]

theorem resolve_tag_insert (h : name? body = some name) (bag : Bag) (value : Value)
    (defaults : Table Text) :
    resolve (bag.insert name value) defaults (Token.tag body).raw = value.promptText := by
  rw [resolve_tag h, meaning, Table.get?_insert, if_pos rfl]

end Placeholder

theorem coerce_json_iff {b : Block} (hjson : b.outputType = .json) :
    coerce b reply = .ok w ↔ ∃ v, Json.parse reply = .ok v ∧ w = .json v := by
  rw [coerce, hjson]
  cases h : Json.parse reply with
  | error fault =>
    constructor
    · intro he
      cases he
    · rintro ⟨v, hv, -⟩
      cases hv
  | ok v =>
    constructor
    · intro he
      exact ⟨v, rfl, (Except.ok.inj he).symm⟩
    · rintro ⟨v', hv, rfl⟩
      cases hv
      rfl

theorem Value.promptText_json (h : ∀ text, v ≠ .string text) : (json v).promptText = v.print := by
  cases v with
  | string text => exact (h text rfl).elim
  | _ => rfl

namespace Setting

theorem bag_of_conclude (h : conclude p b messages reply = .ok q) (hw : coerce b reply = .ok w) :
    q.bag = p.bag.insert b.output w := by
  rw [conclude, hw] at h
  cases h
  rfl

end Setting

/-- A reply kept as JSON is not lost on its way through a later prompt. What takes the place of its
name there is a string's contents, or else text that a JSON block reads as the same value. How the
reply was written makes no difference to a later block, whatever else the bag has come to hold. -/
theorem coerce_chains {b : Block} (hjson : b.outputType = .json) (h : coerce b reply = .ok w) :
    ∃ v, w = .json v ∧ (v.floatFree = true →
      (∀ text, v = .string text → w.promptText = text) ∧
      ((∀ text, v ≠ .string text) → ∀ b' : Block, b'.outputType = .json →
        coerce b' w.promptText = .ok w) ∧
      (∀ body name, Placeholder.name? body = some name → ∀ (bag : Bag) (defaults : Table Text),
        Placeholder.resolve (bag.insert name w) defaults (Token.tag body).raw = w.promptText) ∧
      ∀ reply', coerce b reply' = .ok w → ∀ (p q q' : Progress) (messages messages' : List Message),
        Setting.conclude p b messages reply = .ok q →
        Setting.conclude p b messages' reply' = .ok q' →
        ∀ (s : Setting) (added : List (Text × Value)) (lookups : List Filters) (later : Block),
          s.render (q'.bag.insertAll added) lookups later =
            s.render (q.bag.insertAll added) lookups later) := by
  obtain ⟨v, hv, rfl⟩ := (coerce_json_iff hjson).1 h
  refine ⟨v, rfl, fun hfree => ⟨?_, ?_, ?_, ?_⟩⟩
  · rintro text rfl
    rfl
  · intro hstring b' hjson'
    rw [Value.promptText_json hstring, coerce_json_iff hjson']
    exact ⟨v, (Json.readable_of_parse hv).parse_print hfree, rfl⟩
  · intro body name hname bag defaults
    exact Placeholder.resolve_tag_insert hname bag _ defaults
  · intro reply' hreply' p q q' messages messages' hq hq' s added lookups later
    rw [Setting.bag_of_conclude hq h, Setting.bag_of_conclude hq' hreply']

/-- The law at an object that is written in two ways, with a key that stands twice in one. -/
theorem coerce_chains_object :
    let b : Block := { Block.trailing [] with output := ['a'], outputType := .json }
    let text := '{' :: "\"x\":-9223372036854775808,\"y\":[\"é\\n\",true]".toList ++ ['}']
    let reply := '{' ::
      " \"y\": [\"\\u00E9\\u000a\",true], \"x\":-9223372036854775808".toList ++ ['}']
    let reply' := '{' ::
      "\"x\":0,\"y\":[\"é\\n\",true],\"x\":-9223372036854775808".toList ++ ['}', '\n']
    ∃ w, coerce b reply = .ok w ∧ coerce b reply' = .ok w ∧ coerce b text = .ok w ∧
      Placeholder.resolve [(['a'], w)] [] (Token.tag ['a']).raw = text := by
  intro b text reply reply'
  have hread : (Json.parse reply).map (fun v => (v.floatFree, v.print)) = .ok (true, text) := by
    decide +kernel +zetaReduce
  have hread' : (Json.parse reply').map (fun v => (v.floatFree, v.print)) = .ok (true, text) := by
    decide +kernel +zetaReduce
  obtain ⟨v, hv, he⟩ := Json.map_eq_ok hread
  obtain ⟨v', hv', he'⟩ := Json.map_eq_ok hread'
  obtain ⟨hfree, hprint⟩ := Prod.mk.inj he
  obtain ⟨hfree', hprint'⟩ := Prod.mk.inj he'
  have hsame : v' = v := (Json.readable_of_parse hv).eq_of_print_eq (Json.readable_of_parse hv')
    hfree hfree' (hprint'.trans hprint.symm)
  have hstring : ∀ t, v ≠ .string t := by
    rintro t rfl
    exact absurd (List.cons_eq_cons.1 hprint).1 (by decide)
  have hreply : coerce b reply = .ok (.json v) := (coerce_json_iff rfl).2 ⟨v, hv, rfl⟩
  have hreply' : coerce b reply' = .ok (.json v) := (coerce_json_iff rfl).2 ⟨v', hv', by rw [hsame]⟩
  have htext : (Value.json v).promptText = text := (Value.promptText_json hstring).trans hprint
  obtain ⟨w, hw, hlaw⟩ := coerce_chains rfl hreply
  cases hw
  obtain ⟨-, hchain, htag, -⟩ := hlaw hfree
  have hagain := hchain hstring b rfl
  have hname := htag ['a'] ['a'] rfl [] []
  rw [htext] at hagain hname
  exact ⟨_, hreply, hreply', hagain, hname⟩

end DialogScript
