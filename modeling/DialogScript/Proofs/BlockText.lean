import DialogScript.Proofs.BreakGrammar
import DialogScript.Proofs.Precheck
import DialogScript.Proofs.Span

/-!
Blocks as text. Blocks written one behind another, each with its break directive, are read back as
they were, whatever tags and braces their own texts hold.
-/

namespace DialogScript

namespace Break

/-- All attributes of a directive, in the order in which they are written. -/
def attributes (b : Break) : List (Text × Text) :=
  [("output".toList, b.output), ("forget".toList, boolName b.forget),
    ("output_type".toList, b.outputType.name)]

/-- What stands between the braces: the keyword, and each attribute behind a blank. -/
def tagBody (b : Break) : Text :=
  "#break".toList ++ (b.attributes.map Directive.written).flatMap (' ' :: ·)

/-- A name that a directive can hold: it has no blanks and no pairs of braces. -/
structure Nameable (name : Text) : Prop where
  ne_nil : name ≠ []
  noBlank : name.NoBlank
  noOpen : ¬ ['{', '{'] <:+: name
  noClose : ¬ ['}', '}'] <:+: name

theorem says_attributes (b : Break) : Says b.attributes b where
  once := by
    change ["output".toList, "forget".toList, "output_type".toList].Nodup
    decide
  known a ha := by simpa [attributes] using ha
  output := List.mem_cons_self
  forget h := absurd (List.mem_cons_of_mem _ List.mem_cons_self) h
  outputType h :=
    absurd (List.mem_cons_of_mem _ (List.mem_cons_of_mem _ List.mem_cons_self)) h

theorem noBlank_attributes {b : Break} (h : Nameable b.output) :
    ∀ a ∈ b.attributes, a.2 ≠ [] ∧ (Directive.written a).NoBlank := by
  obtain ⟨output, forget, kind⟩ := b
  simp only [attributes, List.forall_mem_cons]
  refine ⟨⟨h.ne_nil, Directive.noBlank_written (by decide) h.noBlank⟩, ?_, ?_, by simp⟩
  · cases forget with
    | true => decide
    | false => decide
  · cases kind with
    | text => decide
    | json => decide

theorem opens_tagBody (b : Break) : Directive.Opens "break".toList b.tagBody
    ((b.attributes.map Directive.written).flatMap (' ' :: ·)) where
  eq := ⟨[], by simp [Text.Blank], rfl⟩
  bounded c hc := by
    cases hc
    rfl

theorem read?_tagBody {b : Break} (h : Nameable b.output) : read? b.tagBody = some b := by
  have hblank : isBlank ' ' := rfl
  rw [read?_of_opens b.opens_tagBody, Text.words_flatMap_cons hblank]
  · exact ⟨b.attributes, rfl, fun a ha => (noBlank_attributes h a ha).1, b.says_attributes⟩
  · intro w hw
    obtain ⟨a, ha, rfl⟩ := List.mem_map.1 hw
    exact ⟨Directive.written_ne_nil a, (noBlank_attributes h a ha).2⟩

/-- What stands behind the name. -/
def options (b : Break) : Text := (b.attributes.tail.map Directive.written).flatMap (' ' :: ·)

theorem tagBody_eq (b : Break) : b.tagBody = "#break output=".toList ++ b.output ++ b.options :=
  (List.append_assoc _ _ _).symm

theorem notMem_options (b : Break) : ('{' ∉ b.options ∧ '}' ∉ b.options) ∧ b.options ≠ [] := by
  obtain ⟨output, forget, kind⟩ := b
  have h (output : Text) : options ⟨output, forget, kind⟩ = options ⟨[], forget, kind⟩ := rfl
  rw [h]
  cases forget with
  | true =>
    cases kind with
    | text => decide
    | json => decide
  | false =>
    cases kind with
    | text => decide
    | json => decide

theorem isBody_tagBody {b : Break} (h : Nameable b.output) : IsBody b.tagBody := by
  obtain ⟨hoptions, hne⟩ := b.notMem_options
  rw [tagBody_eq]
  exact isBody_between (by decide) h.noOpen h.noClose hoptions hne

end Break

namespace Block

def directive (b : Block) : Break := ⟨b.output, b.forget, b.outputType⟩

/-- A block as it is written, with its break directive behind it. -/
def written (b : Block) : Text := b.template ++ (Token.tag b.directive.tagBody).raw

/-- The tokens of a block and its break directive. -/
def slice (b : Block) : Slice := ⟨tokenize b.template, b.directive.tagBody, b.directive⟩

theorem block_slice (b : Block) : b.slice.block = b := by
  rw [Slice.block, slice, flatMap_raw_tokenize]
  rfl

end Block

theorem unbroken_of_parseBlocks (h : parseBlocks t = .ok [b]) : Unbroken (tokenize t) := by
  obtain ⟨slices, last, htokens, -, hlast, hcut⟩ := exists_slices (tokenize t)
  rw [← parseBlocks_eq_cut h] at hcut
  cases slices with
  | nil =>
    rw [htokens]
    exact hlast
  | cons c slices => simp at hcut

/-- Behind a block that does not end in an opening brace its directive is read as a tag. -/
theorem tokenize_written {blocks : List Block}
    (hend : ∀ b ∈ blocks, b.template.getLast? ≠ some '{')
    (hname : ∀ b ∈ blocks, Break.Nameable b.output) (last : Text) :
    tokenize (blocks.flatMap Block.written ++ last) =
      (blocks.map Block.slice).flatMap Slice.whole ++ tokenize last := by
  induction blocks with
  | nil => rfl
  | cons b blocks ih =>
    rw [List.forall_mem_cons] at hend hname
    rw [List.flatMap_cons, Block.written, List.append_assoc, List.append_assoc,
      (Break.isBody_tagBody hname.1).tokenize_append_tag hend.1, ih hend.2 hname.2]
    simp [Slice.whole, Block.slice]

theorem RepeatsFirst.not_nodup (h : RepeatsFirst names name) : ¬ names.Nodup := by
  obtain ⟨before, after, rfl, -, hname⟩ := h
  intro hnodup
  exact (List.nodup_append.1 hnodup).2.2 name hname name List.mem_cons_self rfl

/-- Blocks written one behind another are read back if their names and the last one's differ, and
otherwise the first name that repeats an earlier one is refused. -/
theorem parseBlocks_written {blocks : List Block} {last : Text}
    (hsingle : ∀ t ∈ blocks.map Block.template ++ [last], ∃ b, parseBlocks t = .ok [b])
    (hend : ∀ b ∈ blocks, b.template.getLast? ≠ some '{')
    (hname : ∀ b ∈ blocks, Break.Nameable b.output) :
    let names := blocks.map Block.output ++ ["output".toList]
    (names.Nodup →
      parseBlocks (blocks.flatMap Block.written ++ last) = .ok (blocks ++ [.trailing last])) ∧
    (¬ names.Nodup → ∃ name, RepeatsFirst names name ∧
      parseBlocks (blocks.flatMap Block.written ++ last) = .error (.duplicateOutput name)) := by
  intro names
  have hunbroken : ∀ t ∈ blocks.map Block.template ++ [last], Unbroken (tokenize t) := by
    intro t ht
    obtain ⟨b, hb⟩ := hsingle t ht
    exact unbroken_of_parseBlocks hb
  rw [List.forall_mem_append, List.forall_mem_map, List.forall_mem_singleton] at hunbroken
  have hvalid : ∀ c ∈ blocks.map Block.slice, c.Valid := by
    rw [List.forall_mem_map]
    intro b hb
    exact ⟨hunbroken.1 b hb, Break.read?_tagBody (hname b hb)⟩
  have hcut : Block.cut (tokenize (blocks.flatMap Block.written ++ last)) =
      blocks ++ [.trailing last] := by
    rw [tokenize_written hend hname, cut_slices hvalid hunbroken.2, flatMap_raw_tokenize,
      List.map_map]
    congr 1
    exact (List.map_congr_left fun b _ => b.block_slice).trans (List.map_id _)
  have hnames : names = (Block.cut (tokenize (blocks.flatMap Block.written ++ last))).map
      Block.output := by
    rw [hcut, List.map_append]
    rfl
  cases hp : parseBlocks (blocks.flatMap Block.written ++ last) with
  | ok found =>
    have hfound := parseBlocks_eq_cut hp
    have hnodup := nodup_of_parseBlocks hp
    rw [hfound, ← hnames] at hnodup
    rw [hfound, hcut]
    exact ⟨fun _ => rfl, fun h => absurd hnodup h⟩
  | error cause =>
    obtain ⟨name, rfl, hrepeats⟩ := repeatsFirst_of_parseBlocks hp
    rw [← hnames] at hrepeats
    exact ⟨fun h => absurd h hrepeats.not_nodup, fun _ => ⟨name, hrepeats, rfl⟩⟩

/-- The law where a tag is left open in front of the directive and a name ends in a brace. -/
theorem parseBlocks_written_open :
    let first : Block := ⟨'{' :: '{' :: "a ".toList, "x=\x7d".toList, true, .json⟩
    let last := ['{']
    first.written = first.template ++ '{' :: '{' ::
      "#break output=x=\x7d forget=true output_type=json\x7d\x7d".toList ∧
    parseBlocks ([first].flatMap Block.written ++ last) = .ok [first, .trailing last] ∧
    ∃ name, RepeatsFirst [first.output, first.output, "output".toList] name ∧
      parseBlocks ([first, first].flatMap Block.written ++ last) =
        .error (.duplicateOutput name) := by
  intro first last
  have hfirst : ∃ b, parseBlocks first.template = .ok [b] := ⟨_, rfl⟩
  have hlast : ∃ b, parseBlocks last = .ok [b] := ⟨_, rfl⟩
  have hname : Break.Nameable first.output := ⟨by decide, by decide, by decide, by decide⟩
  have hend : first.template.getLast? ≠ some '{' := by decide
  have honce := @parseBlocks_written [first] last (by simp [hfirst, hlast])
    (by simpa using hend) (by simpa using hname)
  have htwice := @parseBlocks_written [first, first] last (by simp [hfirst, hlast])
    (by simpa using hend) (by simpa using hname)
  exact ⟨rfl, honce.1 (by decide), htwice.2 (by decide)⟩

end DialogScript
