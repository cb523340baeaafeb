import DialogScript.Block.Break
import DialogScript.Proofs.Attribute
import Mathlib.Data.List.Perm.Basic

/-!
The grammar of break directives. Reading one attribute after another, with its early ends, comes to
a condition on the attributes as a whole, in which their order plays no part.
-/

namespace DialogScript

theorem OutputType.ofName?_eq_some_iff : ofName? value = some kind ↔ value = kind.name := by
  apply Text.find?_word_eq_some_iff
  intro kind
  cases kind with
  | text => rfl
  | json => rfl

theorem OutputType.name_injective : Function.Injective name := by
  intro kind kind' h
  have hkind : ofName? kind.name = some kind := ofName?_eq_some_iff.2 rfl
  rw [h, ofName?_eq_some_iff.2 rfl] at hkind
  exact (Option.some.inj hkind).symm

namespace Break

def boolName (b : Bool) : Text := if b then "true".toList else "false".toList

theorem readBool?_eq_some_iff : readBool? value = some b ↔ value = boolName b := by
  constructor
  · intro h
    rw [readBool?] at h
    split at h
    · cases h
      assumption
    · split at h
      · cases h
        assumption
      · cases h
  · rintro rfl
    cases b with
    | true => rfl
    | false => rfl

theorem boolName_injective : Function.Injective boolName := by
  intro b b' h
  have hb : readBool? (boolName b) = some b := readBool?_eq_some_iff.2 rfl
  rw [h, readBool?_eq_some_iff.2 rfl] at hb
  exact (Option.some.inj hb).symm

namespace Draft

/-- What a draft holds under a key, as it is written. -/
def value? (d : Draft) (key : Text) : Option Text :=
  if key = "output".toList then d.output?
  else if key = "forget".toList then d.forget?.map boolName
  else if key = "output_type".toList then d.outputType?.map OutputType.name
  else none

theorem value?_forget (d : Draft) : d.value? "forget".toList = d.forget?.map boolName := rfl

theorem value?_outputType (d : Draft) :
    d.value? "output_type".toList = d.outputType?.map OutputType.name := rfl

theorem ext_value? {d d' : Draft} (h : ∀ key, d.value? key = d'.value? key) : d = d' := by
  have houtput : d.output? = d'.output? := h "output".toList
  have hforget : d.forget? = d'.forget? :=
    Option.map_injective boolName_injective (h "forget".toList)
  have htype : d.outputType? = d'.outputType? :=
    Option.map_injective OutputType.name_injective (h "output_type".toList)
  obtain ⟨output?, forget?, outputType?⟩ := d
  cases houtput
  cases hforget
  cases htype
  rfl

theorem value?_cases {d : Draft} (h : d.value? key = some value) :
    (key = "output".toList ∧ d.output? = some value) ∨
    (key = "forget".toList ∧ ∃ b, d.forget? = some b ∧ value = boolName b) ∨
    (key = "output_type".toList ∧ ∃ kind, d.outputType? = some kind ∧ value = kind.name) := by
  rw [value?] at h
  split at h
  · rename_i hkey
    exact .inl ⟨hkey, h⟩
  · split at h
    · rename_i hkey
      obtain ⟨b, hb, rfl⟩ := Option.map_eq_some_iff.1 h
      exact .inr (.inl ⟨hkey, b, hb, rfl⟩)
    · split at h
      · rename_i hkey
        obtain ⟨kind, hkind, rfl⟩ := Option.map_eq_some_iff.1 h
        exact .inr (.inr ⟨hkey, kind, hkind, rfl⟩)
      · cases h

theorem value?_start (key : Text) : ({} : Draft).value? key = none := by
  rw [Option.eq_none_iff_forall_ne_some]
  intro value h
  rcases value?_cases h with ⟨-, h⟩ | ⟨-, b, h, -⟩ | ⟨-, kind, h, -⟩
  · cases h
  · cases h
  · cases h

/-- What a draft can take: an attribute that it does not hold yet, with a value in range. -/
inductive Sets (d : Draft) : Text → Text → Draft → Prop
  | output (h : d.output? = none) :
    Sets d "output".toList value { d with output? := some value }
  | forget (h : d.forget? = none) :
    Sets d "forget".toList (boolName b) { d with forget? := some b }
  | outputType (h : d.outputType? = none) :
    Sets d "output_type".toList kind.name { d with outputType? := some kind }

theorem sets_of_set {d d' : Draft} (h : d.set (key, value) = some d') : d.Sets key value d' := by
  rw [set] at h
  split at h
  · rename_i hkey
    subst hkey
    split at h
    · cases h
    · rename_i hnone
      cases h
      exact .output (Option.not_isSome_iff_eq_none.1 hnone)
  · split at h
    · rename_i hkey
      subst hkey
      split at h
      · cases h
      · rename_i hnone
        obtain ⟨b, hb, rfl⟩ := Option.map_eq_some_iff.1 h
        obtain rfl := readBool?_eq_some_iff.1 hb
        exact .forget (Option.not_isSome_iff_eq_none.1 hnone)
    · split at h
      · rename_i hkey
        subst hkey
        split at h
        · cases h
        · rename_i hnone
          obtain ⟨kind, hkind, rfl⟩ := Option.map_eq_some_iff.1 h
          obtain rfl := OutputType.ofName?_eq_some_iff.1 hkind
          exact .outputType (Option.not_isSome_iff_eq_none.1 hnone)
      · cases h

theorem Sets.set {d d' : Draft} (h : d.Sets key value d') : d.set (key, value) = some d' := by
  cases h with
  | output h =>
    rw [Draft.set, if_pos rfl, h]
    rfl
  | forget h =>
    rw [Draft.set, if_neg (by decide), if_pos rfl, h, readBool?_eq_some_iff.2 rfl]
    rfl
  | outputType h =>
    rw [Draft.set, if_neg (by decide), if_neg (by decide), if_pos rfl, h,
      OutputType.ofName?_eq_some_iff.2 rfl]
    rfl

theorem set_eq_some_iff {d d' : Draft} : d.set (key, value) = some d' ↔ d.Sets key value d' :=
  ⟨sets_of_set, Sets.set⟩

theorem Sets.value?_key {d d' : Draft} (h : d.Sets key value d') : d.value? key = none := by
  cases h with
  | output h => exact h
  | forget h => rw [value?_forget, h, Option.map_none]
  | outputType h => rw [value?_outputType, h, Option.map_none]

/-- Taking an attribute changes what a draft holds under its key, and nothing else. -/
theorem Sets.value? {d d' : Draft} (h : d.Sets key value d') (k : Text) :
    d'.value? k = if k = key then some value else d.value? k := by
  by_cases hk : k = key
  · rw [if_pos hk, hk]
    cases h with
    | output => rfl
    | forget => rfl
    | outputType => rfl
  · rw [if_neg hk]
    cases h with
    | output => simp only [Draft.value?, if_neg hk]
    | forget => simp only [Draft.value?, if_neg hk]
    | outputType => simp only [Draft.value?, if_neg hk]

theorem Sets.value?_eq_some_iff {d d' : Draft} (h : d.Sets key value d') {k v : Text} :
    d'.value? k = some v ↔ (k, v) = (key, value) ∨ d.value? k = some v := by
  rw [h.value?]
  by_cases hk : k = key
  · subst hk
    simp [h.value?_key, eq_comm]
  · simp [hk]

/-- An attribute that some draft holds can be taken by each that does not hold its key. -/
theorem exists_sets {d d' : Draft} (hnone : d.value? key = none)
    (h : d'.value? key = some value) : ∃ d₁, d.Sets key value d₁ := by
  rcases value?_cases h with ⟨rfl, -⟩ | ⟨rfl, b, -, rfl⟩ | ⟨rfl, kind, -, rfl⟩
  · exact ⟨_, .output hnone⟩
  · exact ⟨_, .forget (Option.map_eq_none_iff.1 hnone)⟩
  · exact ⟨_, .outputType (Option.map_eq_none_iff.1 hnone)⟩

/-- Reading attributes one after another fails unless all their keys are new, and leaves a draft
that holds them besides what it held. -/
theorem foldlM_set_eq_some_iff {attributes : List (Text × Text)} {d d' : Draft} :
    attributes.foldlM set d = some d' ↔
      (attributes.map Prod.fst).Nodup ∧ (∀ a ∈ attributes, d.value? a.1 = none) ∧
      ∀ k v, d'.value? k = some v ↔ (k, v) ∈ attributes ∨ d.value? k = some v := by
  induction attributes generalizing d with
  | nil =>
    constructor
    · intro h
      cases h
      simp
    · rintro ⟨-, -, h⟩
      have hd : d = d' := ext_value? fun k => Option.ext fun v => by simpa using (h k v).symm
      rw [hd]
      rfl
  | cons a attributes ih =>
    obtain ⟨key, value⟩ := a
    rw [List.foldlM_cons, List.map_cons, List.nodup_cons, List.forall_mem_cons]
    constructor
    · intro h
      obtain ⟨d₁, hset, hrest⟩ := Option.bind_eq_some_iff.1 h
      rw [set_eq_some_iff] at hset
      obtain ⟨hnodup, hnone, hvalue⟩ := ih.1 hrest
      have hkey : key ∉ attributes.map Prod.fst := by
        intro hm
        obtain ⟨b, hb, rfl⟩ := List.mem_map.1 hm
        have hb' := hnone b hb
        rw [hset.value?, if_pos rfl] at hb'
        cases hb'
      refine ⟨⟨hkey, hnodup⟩, ⟨hset.value?_key, ?_⟩, ?_⟩
      · intro b hb
        have hb' := hnone b hb
        rw [hset.value?] at hb'
        split at hb'
        · cases hb'
        · exact hb'
      · intro k v
        rw [hvalue, hset.value?_eq_some_iff, List.mem_cons, or_left_comm, or_assoc]
    · rintro ⟨⟨hkey, hnodup⟩, ⟨hnone, hrest⟩, hvalue⟩
      have hd' : d'.value? key = some value := (hvalue key value).2 (.inl List.mem_cons_self)
      obtain ⟨d₁, hset⟩ := exists_sets hnone hd'
      rw [hset.set]
      apply ih.2
      refine ⟨hnodup, ?_, ?_⟩
      · intro b hb
        have hne : b.1 ≠ key := by
          intro he
          exact hkey (List.mem_map.2 ⟨b, hb, he⟩)
        rw [hset.value?, if_neg hne]
        exact hrest b hb
      · intro k v
        rw [hvalue, hset.value?_eq_some_iff, List.mem_cons, or_left_comm, or_assoc]

end Draft

/-- What the attributes of a directive say, each at most once and in any order. -/
structure Says (attributes : List (Text × Text)) (b : Break) : Prop where
  once : (attributes.map Prod.fst).Nodup
  known : ∀ a ∈ attributes, a = ("output".toList, b.output) ∨
    a = ("forget".toList, boolName b.forget) ∨ a = ("output_type".toList, b.outputType.name)
  output : "output".toList ∈ attributes.map Prod.fst
  forget : "forget".toList ∉ attributes.map Prod.fst → b.forget = false
  outputType : "output_type".toList ∉ attributes.map Prod.fst → b.outputType = .text

theorem Says.perm (h : Says attributes b) (hp : attributes.Perm attributes') :
    Says attributes' b := by
  have hkeys : ∀ key, key ∈ attributes'.map Prod.fst ↔ key ∈ attributes.map Prod.fst :=
    fun _ => (hp.map Prod.fst).mem_iff.symm
  refine ⟨((hp.map Prod.fst).nodup_iff).1 h.once, ?_, (hkeys _).2 h.output, ?_, ?_⟩
  · intro a ha
    exact h.known a (hp.mem_iff.2 ha)
  · rw [hkeys]
    exact h.forget
  · rw [hkeys]
    exact h.outputType

namespace Says

variable {attributes : List (Text × Text)} {b : Break}

theorem exists_mem (h : Says attributes b) (hk : key ∈ attributes.map Prod.fst) :
    ∃ value, (key, value) ∈ attributes ∧
      ((key, value) = ("output".toList, b.output) ∨
        (key, value) = ("forget".toList, boolName b.forget) ∨
        (key, value) = ("output_type".toList, b.outputType.name)) := by
  obtain ⟨⟨k, value⟩, ha, rfl⟩ := List.mem_map.1 hk
  exact ⟨value, ha, h.known _ ha⟩

theorem output_mem (h : Says attributes b) : ("output".toList, b.output) ∈ attributes := by
  obtain ⟨value, ha, he | he | he⟩ := h.exists_mem h.output
  · exact he ▸ ha
  · exact absurd (Prod.mk.inj he).1 (by decide)
  · exact absurd (Prod.mk.inj he).1 (by decide)

theorem forget_mem (h : Says attributes b) (hk : "forget".toList ∈ attributes.map Prod.fst) :
    ("forget".toList, boolName b.forget) ∈ attributes := by
  obtain ⟨value, ha, he | he | he⟩ := h.exists_mem hk
  · exact absurd (Prod.mk.inj he).1 (by decide)
  · exact he ▸ ha
  · exact absurd (Prod.mk.inj he).1 (by decide)

theorem outputType_mem (h : Says attributes b)
    (hk : "output_type".toList ∈ attributes.map Prod.fst) :
    ("output_type".toList, b.outputType.name) ∈ attributes := by
  obtain ⟨value, ha, he | he | he⟩ := h.exists_mem hk
  · exact absurd (Prod.mk.inj he).1 (by decide)
  · exact absurd (Prod.mk.inj he).1 (by decide)
  · exact he ▸ ha

/-- The draft that holds the attributes. -/
def draft (attributes : List (Text × Text)) (b : Break) : Draft where
  output? := some b.output
  forget? := if (attributes.map Prod.fst).contains "forget".toList then some b.forget else none
  outputType? :=
    if (attributes.map Prod.fst).contains "output_type".toList then some b.outputType else none

theorem finish_draft (h : Says attributes b) : (draft attributes b).finish = some b := by
  have hforget : (draft attributes b).forget?.getD false = b.forget := by
    by_cases hk : (attributes.map Prod.fst).contains "forget".toList
    · simp only [draft, if_pos hk, Option.getD_some]
    · have hnot : "forget".toList ∉ attributes.map Prod.fst := by
        rwa [← List.contains_iff_mem]
      simp only [draft, if_neg hk, Option.getD_none, h.forget hnot]
  have htype : (draft attributes b).outputType?.getD .text = b.outputType := by
    by_cases hk : (attributes.map Prod.fst).contains "output_type".toList
    · simp only [draft, if_pos hk, Option.getD_some]
    · have hnot : "output_type".toList ∉ attributes.map Prod.fst := by
        rwa [← List.contains_iff_mem]
      simp only [draft, if_neg hk, Option.getD_none, h.outputType hnot]
  rw [Draft.finish, hforget, htype]
  rfl

theorem value?_draft (h : Says attributes b) (k v : Text) :
    (draft attributes b).value? k = some v ↔ (k, v) ∈ attributes := by
  constructor
  · intro hv
    rcases Draft.value?_cases hv with ⟨rfl, hv⟩ | ⟨rfl, f, hf, rfl⟩ | ⟨rfl, kind, hkind, rfl⟩
    · cases hv
      exact h.output_mem
    · obtain ⟨hk, he⟩ := Option.ite_none_right_eq_some.1 hf
      exact Option.some.inj he ▸ h.forget_mem (List.contains_iff_mem.1 hk)
    · obtain ⟨hk, he⟩ := Option.ite_none_right_eq_some.1 hkind
      exact Option.some.inj he ▸ h.outputType_mem (List.contains_iff_mem.1 hk)
  · intro ha
    have hk : (attributes.map Prod.fst).contains k :=
      List.contains_iff_mem.2 (List.mem_map_of_mem ha)
    rcases h.known _ ha with he | he | he
    · cases he
      rfl
    · cases he
      rw [Draft.value?_forget, draft, if_pos hk]
      rfl
    · cases he
      rw [Draft.value?_outputType, draft, if_pos hk]
      rfl

end Says

theorem says_of_draft {attributes : List (Text × Text)} {d : Draft}
    (hnodup : (attributes.map Prod.fst).Nodup)
    (hvalue : ∀ k v, d.value? k = some v ↔ (k, v) ∈ attributes) (h : d.finish = some b) :
    Says attributes b := by
  obtain ⟨output, houtput, rfl⟩ := Option.map_eq_some_iff.1 h
  have hkey (k : Text) (hk : k ∉ attributes.map Prod.fst) : d.value? k = none := by
    rw [Option.eq_none_iff_forall_ne_some]
    intro v hv
    exact hk (List.mem_map_of_mem ((hvalue k v).1 hv))
  refine ⟨hnodup, ?_, ?_, ?_, ?_⟩
  · rintro ⟨k, v⟩ ha
    rcases Draft.value?_cases ((hvalue k v).2 ha) with
      ⟨rfl, hv⟩ | ⟨rfl, f, hf, rfl⟩ | ⟨rfl, kind, hkind, rfl⟩
    · rw [houtput] at hv
      cases hv
      exact .inl rfl
    · rw [hf]
      exact .inr (.inl rfl)
    · rw [hkind]
      exact .inr (.inr rfl)
  · exact List.mem_map_of_mem ((hvalue "output".toList output).1 houtput)
  · intro hk
    have hnone := hkey _ hk
    rw [Draft.value?_forget, Option.map_eq_none_iff] at hnone
    rw [hnone]
    rfl
  · intro hk
    have hnone := hkey _ hk
    rw [Draft.value?_outputType, Option.map_eq_none_iff] at hnone
    rw [hnone]
    rfl

/-- Attributes are read into a directive exactly when they say one. -/
theorem read_attributes_iff {attributes : List (Text × Text)} {b : Break} :
    (attributes.foldlM Draft.set {}).bind Draft.finish = some b ↔ Says attributes b := by
  constructor
  · intro h
    obtain ⟨d, hd, hb⟩ := Option.bind_eq_some_iff.1 h
    obtain ⟨hnodup, -, hvalue⟩ := Draft.foldlM_set_eq_some_iff.1 hd
    refine says_of_draft hnodup ?_ hb
    intro k v
    rw [hvalue, Draft.value?_start]
    exact or_iff_left nofun
  · intro h
    have hd : attributes.foldlM Draft.set {} = some (Says.draft attributes b) := by
      rw [Draft.foldlM_set_eq_some_iff]
      refine ⟨h.once, fun a _ => Draft.value?_start a.1, ?_⟩
      intro k v
      rw [h.value?_draft, Draft.value?_start]
      exact (or_iff_left nofun).symm
    rw [hd]
    exact h.finish_draft

/-- The words behind the keyword are attributes, none of them without a value, that say a
directive. -/
def Grammar (words : List Text) (b : Break) : Prop :=
  ∃ attributes, words = attributes.map Directive.written ∧ (∀ a ∈ attributes, a.2 ≠ []) ∧
    Says attributes b

theorem Says.writable {attributes : List (Text × Text)} (h : Says attributes b)
    (hvalue : ∀ a ∈ attributes, a.2 ≠ []) : ∀ a ∈ attributes, Directive.Writable a := by
  rintro ⟨key, value⟩ ha
  have hkey : '=' ∉ key ∧ key ≠ [] := by
    rcases h.known _ ha with he | he | he
    · rw [(Prod.mk.inj he).1]
      decide
    · rw [(Prod.mk.inj he).1]
      decide
    · rw [(Prod.mk.inj he).1]
      decide
  exact ⟨hkey.1, hkey.2, hvalue _ ha⟩

theorem Grammar.perm (h : Grammar words b) (hp : words.Perm words') : Grammar words' b := by
  obtain ⟨attributes, rfl, hvalue, hsays⟩ := h
  obtain ⟨attributes', rfl, hp'⟩ : ∃ attributes' : List (Text × Text),
      words' = attributes'.map Directive.written ∧ attributes'.Perm attributes := by
    have hcomp := congrFun₂ (List.eq_map_comp_perm Directive.written) words' attributes
    exact hcomp.mpr hp.symm
  exact ⟨attributes', rfl, fun a ha => hvalue a (hp'.mem_iff.1 ha), hsays.perm hp'.symm⟩

theorem read?_of_opens (h : Directive.Opens "break".toList body part) :
    read? body = some b ↔ Grammar part.words b := by
  have hargs : arguments? body = some part.trim := h.arguments?
  have hread : read? body = (Directive.attributes? part.trim).bind fun attributes =>
      (attributes.foldlM Draft.set {}).bind Draft.finish := by
    rw [read?, hargs]
    rfl
  rw [hread, Option.bind_eq_some_iff, Grammar]
  constructor
  · rintro ⟨attributes, hattributes, hb⟩
    obtain ⟨hwords, hwritable⟩ := Directive.attributes?_eq_some_iff.1 hattributes
    rw [Text.words_trim] at hwords
    exact ⟨attributes, hwords, fun a ha => (hwritable a ha).value, read_attributes_iff.1 hb⟩
  · rintro ⟨attributes, hwords, hvalue, hsays⟩
    refine ⟨attributes, ?_, read_attributes_iff.2 hsays⟩
    rw [Directive.attributes?_eq_some_iff, Text.words_trim]
    exact ⟨hwords, hsays.writable hvalue⟩

/-- A body is a break directive exactly when blanks, the keyword and words of the grammar make it
up. The order of the words and the blanks between them do not count. A body that begins like a
directive is malformed exactly when its words are not of the grammar. -/
theorem read?_grammar (body : Text) :
    (∀ b, read? body = some b ↔
      ∃ part, Directive.Opens "break".toList body part ∧ Grammar part.words b) ∧
    (∀ part body' part', Directive.Opens "break".toList body part →
      Directive.Opens "break".toList body' part' → part.words.Perm part'.words →
      read? body' = read? body) ∧
    (malformed body = true ↔
      ∃ part, Directive.Opens "break".toList body part ∧ ∀ b, ¬ Grammar part.words b) := by
  have hopens {args : Text} (h : arguments? body = some args) :
      ∃ part, Directive.Opens "break".toList body part := by
    obtain ⟨part, hpart, -⟩ := Directive.exists_opens h
    exact ⟨part, hpart⟩
  refine ⟨?_, ?_, ?_⟩
  · intro b
    constructor
    · intro h
      obtain ⟨args, hargs, -⟩ := Option.bind_eq_some_iff.1 h
      obtain ⟨part, hpart⟩ := hopens hargs
      exact ⟨part, hpart, (read?_of_opens hpart).1 h⟩
    · rintro ⟨part, hpart, hgrammar⟩
      exact (read?_of_opens hpart).2 hgrammar
  · intro part body' part' hpart hpart' hp
    apply Option.ext
    intro b
    rw [read?_of_opens hpart, read?_of_opens hpart']
    exact ⟨fun h => h.perm hp.symm, fun h => h.perm hp⟩
  · rw [malformed, Bool.and_eq_true, Option.isSome_iff_exists, Option.isNone_iff_eq_none,
      Option.eq_none_iff_forall_ne_some]
    constructor
    · rintro ⟨⟨args, hargs⟩, hnone⟩
      obtain ⟨part, hpart⟩ := hopens hargs
      refine ⟨part, hpart, ?_⟩
      intro b h
      exact hnone b ((read?_of_opens hpart).2 h)
    · rintro ⟨part, hpart, hnot⟩
      refine ⟨⟨part.trim, hpart.arguments?⟩, ?_⟩
      intro b h
      exact hnot b ((read?_of_opens hpart).1 h)

example :
    read? "\t#break\u3000forget=true  output=a=b".toList = some ⟨"a=b".toList, true, .text⟩ := by
  decide +kernel

end Break

end DialogScript
