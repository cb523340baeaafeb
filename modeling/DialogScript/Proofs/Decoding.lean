import DialogScript.Proofs.Fields

/-!
Decoding a value's JSON form gives the value back, also from an object whose members stand in
another order beside members under unknown keys.
-/

namespace DialogScript

open Json

/-! The forms of a value: how an object, and any object inside of it, may be written. -/

def Message.Form (m : Message) (w : Json) : Prop :=
  m.toJson.Widens (fieldNames ["role", "content"]) w

def Block.Form (b : Block) (w : Json) : Prop :=
  b.toJson.Widens (fieldNames ["template", "outputVarName", "forget", "outputType"]) w

def Filters.Form (f : Filters) (w : Json) : Prop := f.toJson.Widens Filters.fieldNames w

def Query.Form (q : Query) (w : Json) : Prop :=
  q.toJson.Widens (["fullMatch".toList] :: Filters.fieldNames) w

def Definition.Form (d : Definition) (w : Json) : Prop := d.toJson.Widens Definition.fieldNames w

def Record.Form (r : Record) (w : Json) : Prop :=
  ∃ placeholders, List.Forall₂ Definition.Form r.placeholders placeholders ∧
    Widens (fieldNames ["id", "name", "category", "text", "placeholders"])
      (.object [("id".toList, .string r.id), ("name".toList, .string r.name),
        ("category".toList, .string r.category), ("text".toList, .string r.text),
        ("placeholders".toList, .array placeholders)]) w

inductive Reference.Form : Reference → Json → Prop
  | id : Form (.id x) (.object [("id".toList, .string x)])
  | name {inner : Json} (h : Widens (fieldNames ["name", "category"])
      (.object [("name".toList, .string x), ("category".toList, .string category)]) inner) :
    Form (.name x category) (.object [("name".toList, inner)])

def Passage.Form (p : Passage) (w : Json) : Prop :=
  p.toJson.Widens (fieldNames ["id", "name", "category1", "category2", "category3", "text"]) w

/-- Two lists of the same placeholders are two requests, each written in its own order. -/
def Request.Form (r : Request) (w : Json) : Prop :=
  ∃ template, r.template.Form template ∧
    Widens (fieldNames ["templateRef", "usersPlaceholders"])
      (.object [("templateRef".toList, template),
        ("usersPlaceholders".toList, textTable r.placeholders)]) w

namespace Message

theorem form_toJson (m : Message) : m.Form m.toJson := widens_object (by simp [fieldNames])

theorem Form.ofDocument?_eq {m : Message} (h : m.Form w) : ofDocument? w.document = some m := by
  obtain ⟨role, content⟩ := m
  rw [ofDocument?, h.fields?_eq]
  cases role <;> rfl

end Message

namespace Block

theorem form_toJson (b : Block) : b.Form b.toJson := widens_object (by simp [fieldNames])

theorem Form.ofDocument?_eq {b : Block} (h : b.Form w) : ofDocument? w.document = some b := by
  obtain ⟨template, output, forget, kind⟩ := b
  rw [ofDocument?, h.fields?_eq]
  cases kind <;> rfl

end Block

/-- The name of a key's field. -/
def Key.field : Key → Text
  | .name => "names".toList
  | key => key.word

theorem Key.field_injective {key other : Key} (h : key.field = other.field) : key = other := by
  cases key <;> cases other <;> first | rfl | exact absurd h (by decide)

namespace Filters

variable {f : Filters}

/-- The member for a key, if the key is restricted. -/
def member? (f : Filters) (key : Key) : Option (Text × Json) :=
  (f.get key).map fun values => (key.field, texts values)

theorem members_eq_filterMap (f : Filters) : f.members = Key.all.filterMap f.member? := rfl

theorem exists_field_of_mem (h : m ∈ f.members) : ∃ key : Key, m.1 = key.field := by
  rw [members_eq_filterMap, List.mem_filterMap] at h
  obtain ⟨key, -, h⟩ := h
  obtain ⟨values, -, rfl⟩ := Option.map_eq_some_iff.1 h
  exact ⟨key, rfl⟩

theorem mem_fieldNames (key : Key) : key.field ∈ fieldNames.flatten := by
  cases key <;> decide

theorem filter_members (f : Filters) (key : Key) :
    f.members.filter (fun m => m.1 ∈ [key.field]) = (f.member? key).toList := by
  have hentry (other : Key) : (f.member? other).filter (fun m => m.1 ∈ [key.field]) =
      if other = key then f.member? key else none := by
    split
    next h =>
      subst h
      rw [member?]
      cases f.get other <;> simp
    next h =>
      rw [member?]
      have hfield : other.field ≠ key.field := fun he => h (Key.field_injective he)
      cases f.get other <;> simp [hfield]
  rw [members_eq_filterMap, List.filter_filterMap]
  simp only [hentry]
  generalize f.member? key = found
  cases key <;> cases found <;> rfl

/-- A member under a name of its own does not stand for a filter. -/
theorem filter_cons_members {name : Text} (hname : ∀ key : Key, key.field ≠ name) (v : Json)
    (f : Filters) (key : Key) :
    ((name, v) :: f.members).filter (fun m => m.1 ∈ [key.field]) = (f.member? key).toList := by
  rw [List.filter_cons_of_neg (by simp [(hname key).symm]), filter_members]

theorem filter_cons_members_self {name : Text} (hname : ∀ key : Key, key.field ≠ name) (v : Json)
    (f : Filters) : ((name, v) :: f.members).filter (fun m => m.1 ∈ [name]) = [(name, v)] := by
  have hnone : f.members.filter (fun m => m.1 ∈ [name]) = [] := by
    rw [List.filter_eq_nil_iff]
    intro m hm
    obtain ⟨key, hkey⟩ := exists_field_of_mem hm
    simp [hkey, hname key]
  rw [List.filter_cons_of_pos (by simp), hnone]

/-- The filters are read from members among which every key has its own. -/
theorem ofFields?_eq {members : List (Text × Json)}
    (h : ∀ key : Key, members.filter (fun m => m.1 ∈ [key.field]) = (f.member? key).toList) :
    (fieldNames.mapM (Document.member? (memberDocuments members))).bind ofFields? = some f := by
  have hmember (key : Key) : Document.member? (memberDocuments members) [key.field] =
      some ((f.get key).map fun values => (texts values).document) := by
    rw [Document.member?_eq, h, member?]
    cases f.get key <;> rfl
  have hvalues (values? : Option (List Text)) : Document.orElse
      (values?.map fun values => (texts values).document) none
      (Document.nullable? (Document.items? Document.text?)) = some values? := by
    cases values? with
    | none => rfl
    | some values => exact congrArg (Option.map some) (Document.items?_texts values)
  have hfields : fieldNames = Key.all.map fun key => [key.field] := rfl
  simp only [hfields, Key.all, List.map_cons, List.map_nil, List.mapM_cons, List.mapM_nil, hmember]
  change ofFields? (Key.all.map fun key => (f.get key).map fun values => (texts values).document) =
    some f
  simp only [Key.all, List.map_cons, List.map_nil, ofFields?, hvalues]
  rfl

theorem form_toJson (f : Filters) : f.Form f.toJson := by
  apply widens_object
  intro m hm
  obtain ⟨key, hkey⟩ := exists_field_of_mem hm
  rw [hkey]
  exact mem_fieldNames key

theorem Form.ofDocument?_eq (h : f.Form w) : ofDocument? w.document = some f := by
  rw [ofDocument?, h.fields?_eq]
  change ((Json.object f.members).document.fieldsOfObject? fieldNames).bind ofFields? = some f
  rw [Document.fieldsOfObject?_object]
  exact ofFields?_eq f.filter_members

/-- Among the members under a key's name there is one if the key is restricted, and else none. -/
theorem Form.filter_written (h : f.Form (.object written)) (key : Key) :
    written.filter (fun m => m.1 ∈ [key.field]) = (f.member? key).toList := by
  have hown : [key.field] ∈ fieldNames := by cases key <;> decide
  have hperm := h.filter_perm hown
  rw [filter_members] at hperm
  cases hentry : f.member? key with
  | none =>
    rw [hentry] at hperm
    exact hperm.eq_nil
  | some m =>
    rw [hentry] at hperm
    exact hperm.eq_singleton

theorem Form.get_eq_none_iff (h : f.Form (.object written)) (key : Key) :
    f.get key = none ↔ ∀ m ∈ written, m.1 ≠ key.field := by
  calc
    f.get key = none
    _ ↔ (f.member? key).toList = [] := by
      rw [Option.toList_eq_nil_iff, member?, Option.map_eq_none_iff]
    _ ↔ ∀ m ∈ written, m.1 ≠ key.field := by
      rw [← h.filter_written key, List.filter_eq_nil_iff]
      simp only [decide_eq_true_eq, List.mem_singleton, ne_eq]

theorem Form.get_eq_nil_iff (h : f.Form (.object written)) (key : Key) :
    f.get key = some [] ↔ (key.field, .array []) ∈ written := by
  have hmem : (key.field, Json.array []) ∈ written ↔
      (key.field, Json.array []) ∈ (f.member? key).toList := by
    rw [← h.filter_written key, List.mem_filter]
    exact (and_iff_left (decide_eq_true (List.mem_singleton_self _))).symm
  rw [hmem, Option.mem_toList, member?]
  cases f.get key with
  | none => simp
  | some values => cases values <;> simp [texts]

end Filters

namespace Query

theorem form_toJson (q : Query) : q.Form q.toJson := by
  apply widens_object
  rw [List.forall_mem_cons]
  refine ⟨List.mem_cons_self, ?_⟩
  intro m hm
  obtain ⟨key, hkey⟩ := Filters.exists_field_of_mem hm
  rw [hkey]
  exact List.mem_cons_of_mem _ (Filters.mem_fieldNames key)

theorem Form.ofDocument?_eq {q : Query} (h : q.Form w) : ofDocument? w.document = some q := by
  have hname (key : Key) : key.field ≠ "fullMatch".toList := by cases key <;> decide
  let members := ("fullMatch".toList, .string q.fullMatch) :: q.filters.members
  have hfull : Document.member? (memberDocuments members) ["fullMatch".toList] =
      some (some (.string (some q.fullMatch))) := by
    rw [Document.member?_eq, Filters.filter_cons_members_self hname]
    rfl
  have hfilters : (Filters.fieldNames.mapM (Document.member? (memberDocuments members))).bind
      Filters.ofFields? = some q.filters :=
    Filters.ofFields?_eq fun key => Filters.filter_cons_members hname _ _ key
  obtain ⟨fields, hfields, hq⟩ := Option.bind_eq_some_iff.1 hfilters
  rw [ofDocument?, h.fieldsOfObject?_eq, toJson, Document.fieldsOfObject?_object, List.mapM_cons,
    hfull, hfields]
  change (Filters.ofFields? fields).bind (fun filters => some ⟨q.fullMatch, filters⟩) = some q
  rw [hq]
  rfl

end Query

namespace Definition

theorem form_toJson (d : Definition) : d.Form d.toJson :=
  widens_object (by simp [Definition.fieldNames])

theorem Form.ofDocument?_eq {d : Definition} (h : d.Form w) :
    ofDocument? w.document = some d := by
  obtain ⟨name, default?, required⟩ := d
  rw [ofDocument?, h.fields?_eq]
  cases default? <;> rfl

end Definition

namespace Record

theorem form_toJson (r : Record) : r.Form r.toJson := by
  refine ⟨r.placeholders.map Definition.toJson, ?_, widens_object (by simp [fieldNames])⟩
  rw [List.forall₂_map_right_iff, List.forall₂_same]
  exact fun d _ => d.form_toJson

theorem Form.ofDocument?_eq {r : Record} (h : r.Form w) : ofDocument? w.document = some r := by
  obtain ⟨placeholders, hplaceholders, hw⟩ := h
  have hitems : Document.items? Definition.ofDocument? (Json.array placeholders).document =
      some r.placeholders :=
    Document.items?_eq (hplaceholders.flip.imp fun _ _ h => Definition.Form.ofDocument?_eq h)
  rw [ofDocument?, hw.fields?_eq]
  change (Document.items? Definition.ofDocument? (Json.array placeholders).document).bind
    (fun definitions => some { r with placeholders := definitions }) = some r
  rw [hitems]
  rfl

end Record

namespace Reference

theorem form_toJson (r : Reference) : r.Form r.toJson := by
  cases r with
  | id x => exact .id
  | name x category => exact .name (widens_object (by simp [fieldNames]))

theorem Form.ofDocument?_eq {r : Reference} (h : r.Form w) : ofDocument? w.document = some r := by
  cases h with
  | id => rfl
  | @name x category inner h =>
    rw [Json.document, memberDocuments, memberDocuments, ofDocument?, if_neg (by decide),
      if_pos rfl, h.fields?_eq]
    rfl

end Reference

namespace Passage

theorem form_toJson (p : Passage) : p.Form p.toJson := widens_object (by simp [fieldNames])

theorem Form.ofDocument?_eq {p : Passage} (h : p.Form w) : ofDocument? w.document = some p := by
  rw [ofDocument?, h.fields?_eq]
  rfl

end Passage

namespace Request

theorem form_toJson (r : Request) : r.Form r.toJson :=
  ⟨r.template.toJson, r.template.form_toJson, widens_object (by simp [fieldNames])⟩

theorem Form.ofDocument?_eq {r : Request} (h : r.Form w) (hnames : r.placeholders.names.Nodup) :
    ofDocument? w.document = some r := by
  obtain ⟨template, htemplate, hw⟩ := h
  have htable : Document.table? Document.text? (textTable r.placeholders).document =
      some r.placeholders := by
    apply Document.table?_eq hnames
    rw [Table.mapValues, List.forall₂_map_left_iff, List.forall₂_same]
    exact fun _ _ => ⟨rfl, rfl⟩
  rw [ofDocument?, hw.fields?_eq]
  change (Reference.ofDocument? template.document).bind (fun reference =>
    (Document.table? Document.text? (textTable r.placeholders).document).bind fun placeholders =>
      some ⟨reference, placeholders⟩) = some r
  rw [htemplate.ofDocument?_eq, htable]
  rfl

end Request

/-- Decoding undoes encoding for every type of the schema. It does so from any form of a value: the
members of an object may stand in any order, and members under unknown keys, in the object itself
or in an object inside of it, are ignored. An absent filter has no member, and an empty one has an
empty list. -/
theorem ofDocument?_form :
    (∀ b : Block, b.Form b.toJson ∧ ∀ w, b.Form w → Block.ofDocument? w.document = some b) ∧
    (∀ m : Message, m.Form m.toJson ∧ ∀ w, m.Form w → Message.ofDocument? w.document = some m) ∧
    (∀ f : Filters, f.Form f.toJson ∧ ∀ w, f.Form w → Filters.ofDocument? w.document = some f) ∧
    (∀ q : Query, q.Form q.toJson ∧ ∀ w, q.Form w → Query.ofDocument? w.document = some q) ∧
    (∀ d : Definition,
      d.Form d.toJson ∧ ∀ w, d.Form w → Definition.ofDocument? w.document = some d) ∧
    (∀ r : Record, r.Form r.toJson ∧ ∀ w, r.Form w → Record.ofDocument? w.document = some r) ∧
    (∀ r : Reference,
      r.Form r.toJson ∧ ∀ w, r.Form w → Reference.ofDocument? w.document = some r) ∧
    (∀ p : Passage, p.Form p.toJson ∧ ∀ w, p.Form w → Passage.ofDocument? w.document = some p) ∧
    (∀ r : Request, r.placeholders.names.Nodup →
      r.Form r.toJson ∧ ∀ w, r.Form w → Request.ofDocument? w.document = some r) ∧
    ∀ (f : Filters) (written : List (Text × Json)), f.Form (.object written) → ∀ key : Key,
      (f.get key = none ↔ ∀ m ∈ written, m.1 ≠ key.field) ∧
      (f.get key = some [] ↔ (key.field, .array []) ∈ written) :=
  ⟨fun b => ⟨b.form_toJson, fun _ h => h.ofDocument?_eq⟩,
    fun m => ⟨m.form_toJson, fun _ h => h.ofDocument?_eq⟩,
    fun f => ⟨f.form_toJson, fun _ h => h.ofDocument?_eq⟩,
    fun q => ⟨q.form_toJson, fun _ h => h.ofDocument?_eq⟩,
    fun d => ⟨d.form_toJson, fun _ h => h.ofDocument?_eq⟩,
    fun r => ⟨r.form_toJson, fun _ h => h.ofDocument?_eq⟩,
    fun r => ⟨r.form_toJson, fun _ h => h.ofDocument?_eq⟩,
    fun p => ⟨p.form_toJson, fun _ h => h.ofDocument?_eq⟩,
    fun r hnames => ⟨r.form_toJson, fun _ h => h.ofDocument?_eq hnames⟩,
    fun _ _ h key => ⟨h.get_eq_none_iff key, h.get_eq_nil_iff key⟩⟩

/-- A query that allows nothing, with its members in another order and one that is ignored. -/
theorem ofDocument?_form_allowing_nothing :
    let q : Query := ⟨"d".toList, { id := some [] }⟩
    let w : Json := .object [("id".toList, .array []), ("limit".toList, .null),
      ("fullMatch".toList, .string "d".toList)]
    q.Form w ∧ Query.ofDocument? w.document = some q := by
  intro q w
  have hform : q.Form w := .object (.swap _ _ [])
  obtain ⟨-, -, -, hquery, -⟩ := ofDocument?_form
  exact ⟨hform, (hquery q).2 w hform⟩

end DialogScript
