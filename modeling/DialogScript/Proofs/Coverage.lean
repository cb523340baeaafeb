import DialogScript.Lint
import DialogScript.Proofs.Response
import DialogScript.Proofs.SectionFill
import Mathlib.Data.List.Forall2

/-!
What the linter's coverage check is worth in a run. A name that a block refers to, and that the
check lets pass, stands for something when the block is reached, unless all declarations of it
leave it open; so nothing else in the block's text gives way to the empty text.
-/

namespace DialogScript

theorem mem_names_defaults {definitions : List Definition} {name : Text} :
    name ∈ (Definition.defaults definitions).names ↔
      ∃ d ∈ definitions, d.name = name ∧ d.defaultValue ≠ none := by
  rw [Definition.defaults, Table.ofList, Table.mem_names_insertAll]
  constructor
  · intro h
    obtain ⟨entry, hentry, rfl⟩ := List.mem_map.1 (h.resolve_right List.not_mem_nil)
    obtain ⟨d, hd, hdefault⟩ := List.mem_filterMap.1 hentry
    obtain ⟨value, hvalue, rfl⟩ := Option.map_eq_some_iff.1 hdefault
    refine ⟨d, hd, rfl, ?_⟩
    rw [hvalue]
    exact Option.some_ne_none value
  · rintro ⟨d, hd, rfl, hdefault⟩
    obtain ⟨value, hvalue⟩ := Option.ne_none_iff_exists'.1 hdefault
    have hentry : (d.name, value) ∈ definitions.filterMap fun d =>
        d.defaultValue.map fun value => (d.name, value) :=
      List.mem_filterMap.2 ⟨d, hd, by rw [hvalue, Option.map_some]⟩
    exact .inl (List.mem_map_of_mem hentry)

/-- A name is declared, and no declaration of it is required or has a default. -/
structure Definition.Open (definitions : List Definition) (name : Text) : Prop where
  declared : name ∈ definitions.map Definition.name
  optional : ∀ d ∈ definitions, d.name = name → d.required = false ∧ d.defaultValue = none

/-- A name has a value or a default, or is left open. -/
def Definition.Covers (definitions : List Definition) (bag : Bag) (name : Text) : Prop :=
  name ∈ bag.names ∨ name ∈ (defaults definitions).names ∨ Open definitions name

/-- What a token of a block gives way to, with the reason for it. -/
inductive Token.Filled (definitions : List Definition) (bag : Bag) (token : Token) : Text → Prop
  | kept (h : token.read? Placeholder.name? = none) : Filled definitions bag token token.raw
  | value (h : token.read? Placeholder.name? = some name) (hvalue : bag.get? name = some value) :
    Filled definitions bag token value.promptText
  | default (h : token.read? Placeholder.name? = some name) (hbag : bag.get? name = none)
    (hdefault : (Definition.defaults definitions).get? name = some text) :
    Filled definitions bag token text
  | nothing (h : token.read? Placeholder.name? = some name) (hbag : bag.get? name = none)
    (hopen : Definition.Open definitions name) : Filled definitions bag token []

theorem Token.filled_fill {definitions : List Definition} {bag : Bag} {token : Token}
    (h : ∀ name, token.read? Placeholder.name? = some name →
      Definition.Covers definitions bag name) :
    token.Filled definitions bag
      (Placeholder.fill (Placeholder.meaning bag (Definition.defaults definitions)) token) := by
  cases hread : token.read? Placeholder.name? with
  | none =>
    rw [Placeholder.fill, hread]
    exact .kept hread
  | some name =>
    simp only [Placeholder.fill, hread, Placeholder.meaning]
    cases hbag : bag.get? name with
    | some value => exact .value hread hbag
    | none =>
      cases hdefault : (Definition.defaults definitions).get? name with
      | some text => exact .default hread hbag hdefault
      | none =>
        -- neither a value nor a default covers the name, so it is left open
        have hcovered := h name hread
        rw [Definition.Covers, Table.mem_names_iff, Table.mem_names_iff, hbag, hdefault] at hcovered
        apply Token.Filled.nothing hread hbag
        exact (hcovered.resolve_left Bool.false_ne_true).resolve_left Bool.false_ne_true

/-- A text whose names are covered resolves to what its tokens give way to, each for a reason. -/
theorem Placeholder.exists_filled {definitions : List Definition} {bag : Bag} {text : Text}
    (h : ∀ name ∈ referenced text, Definition.Covers definitions bag name) :
    ∃ parts, List.Forall₂ (Token.Filled definitions bag) (tokenize text) parts ∧
      resolve bag (Definition.defaults definitions) text = parts.flatten := by
  refine ⟨(tokenize text).map (fill (meaning bag (Definition.defaults definitions))), ?_, rfl⟩
  rw [List.forall₂_map_right_iff, List.forall₂_same]
  intro token ht
  apply Token.filled_fill
  intro name hname
  exact h name (mem_referenced ht hname)

/-- A run of some blocks has come to one of them with what the blocks before it left. -/
def Setting.Reaches (s : Setting) (earlier : Log) (seed : Bag) (blocks : List Block) (b : Block)
    (p : Progress) : Prop :=
  ∃ before rest after, blocks = before ++ b :: rest ∧
    s.runBlocks true earlier { bag := seed } before = (after, .ok p)

namespace Lint

theorem known_or_output_of_coverage {known : List Text}
    (h : ∀ name output, Warning.undeclared name output ∉ coverage known (before ++ b :: rest))
    (hn : name ∈ Placeholder.referenced b.template) :
    name ∈ known ∨ name ∈ before.map Block.output := by
  induction before generalizing known with
  | nil =>
    left
    by_contra hknown
    apply h name b.output
    rw [List.nil_append, coverage, List.mem_append, List.mem_map]
    refine .inl ⟨name, ?_, rfl⟩
    rw [List.mem_filter]
    simp [hn, hknown]
  | cons c before ih =>
    have hrest : ∀ name output,
        Warning.undeclared name output ∉ coverage (c.output :: known) (before ++ b :: rest) := by
      intro other output hm
      apply h other output
      rw [List.cons_append, coverage]
      exact List.mem_append_right _ hm
    have hname := ih hrest
    rw [List.mem_cons, or_assoc] at hname
    rw [List.map_cons, List.mem_cons]
    exact or_left_comm.1 hname

theorem parseBlocks_of_check (h : (check r).errors = []) :
    ∃ blocks, parseBlocks r.text = .ok blocks ∧
      ∀ w ∈ coverage (r.placeholders.map Definition.name) blocks, w ∈ (check r).warnings := by
  obtain ⟨blocks, hparse, hwarnings⟩ := exists_blocks_of_check h
  refine ⟨blocks, hparse, ?_⟩
  intro w hw
  rw [hwarnings]
  exact List.mem_append_left _ (List.mem_append_right _ hw)

/-- When a block is reached, its names are covered. -/
theorem covers_of_reaches {r : Record} {s : Setting} {supplied : Table Text} {p : Progress}
    (hwarnings : ∀ name output, Warning.undeclared name output ∉
      coverage (r.placeholders.map Definition.name) blocks)
    (hvalid : validateRequired r.placeholders supplied = .ok ())
    (hreach : s.Reaches log (supplied.mapValues .text) blocks b p)
    (hname : name ∈ Placeholder.referenced b.template) :
    Definition.Covers r.placeholders p.bag name := by
  obtain ⟨before, rest, after, rfl, hran⟩ := hreach
  have hnames : name ∈ p.bag.names ↔ _ := Setting.mem_names_runBlocks hran
  rw [Table.names_mapValues] at hnames
  have hknown := known_or_output_of_coverage hwarnings hname
  by_cases hbag : name ∈ p.bag.names
  · exact .inl hbag
  by_cases hdefault : name ∈ (Definition.defaults r.placeholders).names
  · exact .inr (.inl hdefault)
  -- no earlier block produces the name, so it is declared; a required declaration of it would
  -- have stopped the run before the first block
  rw [hnames, not_or] at hbag
  refine .inr (.inr ⟨hknown.resolve_right hbag.1, ?_⟩)
  rintro d hd rfl
  have hnone : d.defaultValue = none := by
    by_contra hsome
    exact hdefault (mem_names_defaults.2 ⟨d, hd, rfl, hsome⟩)
  refine ⟨?_, hnone⟩
  rw [← Bool.not_eq_true]
  intro hrequired
  exact validateRequired_ok hvalid d hd ⟨hrequired, hnone, hbag.2⟩

/-- In a record that lints without an error and without a name that is neither declared nor
produced before it is used, every name that a block refers to has a value in the bag when the block
is reached, or a default, or is declared as optional and without a default each time. So the run
renders the block from what its tokens give way to, and only a name of the last kind gives way to
nothing without having a value. -/
theorem referenced_covered {r : Record} (herrors : (check r).errors = [])
    (hcovered : ∀ name output, Warning.undeclared name output ∉ (check r).warnings) :
    ∃ blocks, parseBlocks r.text = .ok blocks ∧
      ∀ (e : Engine) (log : Log) (supplied : Table Text) (b : Block) (p : Progress),
        let s := e.setting r.placeholders
        validateRequired r.placeholders supplied = .ok () →
        s.Reaches log (supplied.mapValues .text) blocks b p →
        (∀ name ∈ Placeholder.referenced b.template,
          Definition.Covers r.placeholders p.bag name) ∧
        ∃ parts, List.Forall₂ (Token.Filled r.placeholders p.bag) (tokenize b.template) parts ∧
          Placeholder.resolve p.bag s.defaults b.template = parts.flatten ∧
          ∀ lookups, s.render p.bag lookups b =
            s.splice p.bag lookups (splitKnowledge parts.flatten) := by
  obtain ⟨blocks, hparse, hwarnings⟩ := parseBlocks_of_check herrors
  refine ⟨blocks, hparse, ?_⟩
  intro e log supplied b p s hvalid hreach
  have hnames (name : Text) (hname : name ∈ Placeholder.referenced b.template) :
      Definition.Covers r.placeholders p.bag name :=
    covers_of_reaches (fun name output hm => hcovered name output (hwarnings _ hm)) hvalid hreach
      hname
  obtain ⟨parts, hparts, hresolve⟩ := Placeholder.exists_filled hnames
  refine ⟨hnames, parts, hparts, hresolve, ?_⟩
  intro lookups
  have hrender := s.render_eq_splice p.bag lookups b
  have hdefaults : s.defaults = Definition.defaults r.placeholders := rfl
  rwa [hdefaults, hresolve] at hrender

/-- The law at a block that refers to an earlier reply, to a name with a default and to a name that
is declared and left open. -/
theorem referenced_covered_note :
    let tag (name : String) := (Token.tag name.toList).raw
    let r : Record := {
      id := "t".toList
      name := "t".toList
      text := tag "q" ++ tag "#break output=a" ++ tag "a" ++ tag "tone" ++ tag "note"
      placeholders := [.mandatory "q".toList, .optional "tone".toList "calm".toList,
        { name := "note".toList }] }
    let e : Engine := { generator := .scripted ["teal".toList] }
    let supplied : Table Text := [("q".toList, "A colour?".toList)]
    let b : Block := .trailing (tag "a" ++ tag "tone" ++ tag "note")
    (check r).errors = [] ∧
    (∀ name output, Warning.undeclared name output ∉ (check r).warnings) ∧
    validateRequired r.placeholders supplied = .ok () ∧
    ∃ blocks p parts, parseBlocks r.text = .ok blocks ∧
      (e.setting r.placeholders).Reaches {} (supplied.mapValues .text) blocks b p ∧
      "a".toList ∈ p.bag.names ∧ Definition.Open r.placeholders "note".toList ∧
      List.Forall₂ (Token.Filled r.placeholders p.bag) (tokenize b.template) parts ∧
      parts.flatten = "tealcalm".toList := by
  intro tag r e supplied b
  have hclean : check r = {} := by decide +kernel +zetaReduce
  have herrors : (check r).errors = [] := by rw [hclean]
  have hcovered : ∀ name output, Warning.undeclared name output ∉ (check r).warnings := by
    intro name output
    rw [hclean]
    exact List.not_mem_nil
  obtain ⟨blocks, hparse, hreads⟩ := referenced_covered herrors hcovered
  have hcut : parseBlocks r.text = .ok [⟨tag "q", "a".toList, false, .text⟩, b] := rfl
  cases hparse.symm.trans hcut
  have hran : ∃ after p, (e.setting r.placeholders).runBlocks true {}
      { bag := supplied.mapValues .text } [⟨tag "q", "a".toList, false, .text⟩] = (after, .ok p) ∧
      p.bag = [("q".toList, .text "A colour?".toList), ("a".toList, .text "teal".toList)] :=
    ⟨_, _, rfl, rfl⟩
  obtain ⟨after, p, hran, hbag⟩ := hran
  have hreach : (e.setting r.placeholders).Reaches {} (supplied.mapValues .text) _ b p :=
    ⟨[⟨tag "q", "a".toList, false, .text⟩], [], after, rfl, hran⟩
  have hvalid : validateRequired r.placeholders supplied = .ok () := rfl
  obtain ⟨hnames, parts, hparts, hresolve, -⟩ := hreads e {} supplied b p hvalid hreach
  have hreferenced : "note".toList ∈ Placeholder.referenced b.template := by
    decide +kernel +zetaReduce
  have hnote := hnames _ hreferenced
  rw [hbag] at hnote hresolve
  refine ⟨herrors, hcovered, hvalid, _, p, parts, hparse, hreach, ?_, ?_, hparts, ?_⟩
  · rw [hbag]
    decide
  · exact (hnote.resolve_left (by decide)).resolve_left (by decide)
  · rw [← hresolve]
    decide +kernel +zetaReduce

end Lint

end DialogScript
