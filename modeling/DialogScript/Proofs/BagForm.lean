import DialogScript.Proofs.Fields
import DialogScript.Proofs.JsonReadback

/-!
The JSON form of a bag. It does not tell what kind of value stands under a name, so that a JSON
string comes back as text. No template can tell the two apart.
-/

namespace DialogScript

/-- The compact text of an object says the object, if there is no float in it. -/
theorem Json.decode?_print_object {members : List (Text × Json)}
    (h : ∀ m ∈ members, Readable (depthLimit - 1) m.2 ∧ m.2.floatFree = true)
    (ofDocument? : Document → Option α) :
    decode? true ofDocument? (object members).print = ofDocument? (object members).document := by
  have hread : readValue true depthLimit (object members).print =
      .ok ((object members).document, []) := by
    have hrereads := rereads_object fun m hm => (h m hm).1.rereads (h m hm).2 true
    rw [← hrereads [] (fun _ hc => by cases hc), List.append_nil]
    rfl
  have hdocument : parseDocument true (object members).print = .ok (object members).document := by
    rw [parseDocument, if_pos rfl, hread]
    rfl
  rw [decode?, hdocument]

namespace Value

theorem toJson_ofJson (v : Json) : (ofJson v).toJson = v := by
  cases v <;> rfl

theorem promptText_ofJson_toJson (value : Value) :
    (ofJson value.toJson).promptText = value.promptText := by
  cases value with
  | text t => rfl
  | json v => cases v <;> rfl

theorem ofJson_of_ne_string (h : ∀ t, v ≠ .string t) : ofJson v = .json v := by
  cases v with
  | string t => exact absurd rfl (h t)
  | _ => rfl

end Value

namespace Bag

variable {bag : Bag} {members : List (Text × Json)}

/-- Every JSON value in the bag is one that reading can give. -/
def Readable (bag : Bag) : Prop := ∀ name v, (name, .json v) ∈ bag → ∃ depth, Json.Readable depth v

theorem Readable.value?_document (h : bag.Readable) (hmem : (name, value) ∈ bag) :
    value.toJson.document.value? = some value.toJson := by
  cases value with
  | text t => rfl
  | json v =>
    obtain ⟨depth, hv⟩ := h name v hmem
    exact hv.value?_document

theorem ofDocument?_object (hnames : (members.map Prod.fst).Nodup)
    (hvalues : ∀ m ∈ members, m.2.document.value? = some m.2) :
    ofDocument? (Json.object members).document = some (Table.mapValues Value.ofJson members) := by
  apply Json.Document.table?_eq
  · rw [Table.names_mapValues]
    exact hnames
  · rw [Table.mapValues, List.forall₂_map_right_iff, List.forall₂_same]
    intro m hm
    refine ⟨rfl, ?_⟩
    rw [Value.ofDocument?, hvalues m hm, Option.map_some]

theorem get?_reread (hnames : bag.names.Nodup)
    (hmembers : members.Perm (Table.mapValues Value.toJson bag)) (name : Text) :
    (Table.mapValues Value.ofJson members).get? name =
      (bag.get? name).map fun value => Value.ofJson value.toJson := by
  have hnodup : (Table.mapValues Value.toJson bag).names.Nodup := by
    rw [Table.names_mapValues]
    exact hnames
  rw [Table.get?_mapValues, Table.get?_perm hnodup hmembers.symm, Table.get?_mapValues,
    Option.map_map]
  rfl

/-- No text tells whether a string was kept as text or as JSON. -/
theorem resolve_reread (hnames : bag.names.Nodup)
    (hmembers : members.Perm (Table.mapValues Value.toJson bag)) (defaults : Table Text)
    (text : Text) :
    Placeholder.resolve (Table.mapValues Value.ofJson members) defaults text =
      Placeholder.resolve bag defaults text := by
  have hmeaning : Placeholder.meaning (Table.mapValues Value.ofJson members) defaults =
      Placeholder.meaning bag defaults := by
    funext name
    rw [Placeholder.meaning, Placeholder.meaning, get?_reread hnames hmembers]
    cases bag.get? name with
    | none => rfl
    | some value => exact Value.promptText_ofJson_toJson value
  rw [Placeholder.resolve, Placeholder.resolve, hmeaning]

theorem toJson_mapValues_ofJson (members : List (Text × Json)) :
    toJson (Table.mapValues Value.ofJson members) = .object members := by
  have hmember (m : Text × Json) : (m.1, (Value.ofJson m.2).toJson) = m := by
    rw [Value.toJson_ofJson]
  rw [toJson, Table.mapValues, Table.mapValues, List.map_map]
  exact congrArg Json.object (List.map_id'' hmember members)

/-- A bag comes back from its JSON form with the members in any order, but for JSON strings, which
come back as text. It then puts the same texts in place of names and has the same form. Without
floats and with a bracket to spare it comes back from the text of that form as well. -/
theorem ofDocument?_toJson (hnames : bag.names.Nodup) (hreadable : bag.Readable)
    (hmembers : members.Perm (Table.mapValues Value.toJson bag)) :
    ∃ bag' : Bag, ofDocument? (Json.object members).document = some bag' ∧
      bag'.names.Perm bag.names ∧
      (∀ name t, bag.get? name = some (.json (.string t)) → bag'.get? name = some (.text t)) ∧
      (∀ name value, bag.get? name = some value → (∀ t, value ≠ .json (.string t)) →
        bag'.get? name = some value) ∧
      (∀ defaults text,
        Placeholder.resolve bag' defaults text = Placeholder.resolve bag defaults text) ∧
      toJson bag' = .object members ∧
      ((∀ name v, (name, .json v) ∈ bag →
          Json.Readable (Json.depthLimit - 1) v ∧ v.floatFree = true) →
        Json.decode? true ofDocument? (Json.object members).print = some bag') := by
  have hget := get?_reread hnames hmembers
  have hkeys : (members.map Prod.fst).Perm bag.names := by
    rw [← Table.names_mapValues Value.toJson bag]
    exact hmembers.map Prod.fst
  have hdocument : ofDocument? (Json.object members).document =
      some (Table.mapValues Value.ofJson members) := by
    apply ofDocument?_object (hkeys.nodup_iff.2 hnames)
    intro m hm
    obtain ⟨entry, hentry, rfl⟩ := List.mem_map.1 (hmembers.mem_iff.1 hm)
    exact hreadable.value?_document hentry
  refine ⟨Table.mapValues Value.ofJson members, hdocument, ?_, ?_, ?_,
    resolve_reread hnames hmembers, toJson_mapValues_ofJson members, ?_⟩
  · rw [Table.names_mapValues]
    exact hkeys
  · intro name t h
    rw [hget, h]
    rfl
  · intro name value h hne
    rw [hget, h, Option.map_some]
    cases value with
    | text t => rfl
    | json v =>
      have hv : ∀ t, v ≠ .string t := fun t he => hne t (congrArg Value.json he)
      exact congrArg some (Value.ofJson_of_ne_string hv)
  · intro hplain
    rw [← hdocument]
    apply Json.decode?_print_object
    intro m hm
    obtain ⟨⟨name, value⟩, hentry, rfl⟩ := List.mem_map.1 (hmembers.mem_iff.1 hm)
    cases value with
    | text t => exact ⟨.string, rfl⟩
    | json v => exact hplain name v hentry

/-- The form of three values with its members the other way round: only the JSON string comes back
as another value, and it stands for the same text. -/
theorem ofDocument?_toJson_mixed :
    let list : Value := .json (.array [.number (.int 1), .null])
    let bag : Bag := [("a".toList, .text "x".toList), ("b".toList, .json (.string "y".toList)),
      ("c".toList, list)]
    let bag' : Bag := [("c".toList, list), ("b".toList, .text "y".toList),
      ("a".toList, .text "x".toList)]
    let members := (Table.mapValues Value.toJson bag).reverse
    let text := "{{b}} {{c}}".toList
    bag.names.Nodup ∧ bag.Readable ∧ members.Perm (Table.mapValues Value.toJson bag) ∧
    ofDocument? (Json.object members).document = some bag' ∧
    Placeholder.resolve bag' [] text = Placeholder.resolve bag [] text ∧
    Placeholder.resolve bag [] text = "y [1,null]".toList ∧
    toJson bag' = .object members := by
  intro list bag bag' members text
  have hnames : bag.names.Nodup := by decide
  have hreadable : bag.Readable := by
    intro name v hmem
    simp only [bag, list, List.mem_cons, Prod.mk.injEq, Value.json.injEq, reduceCtorEq, and_false,
      false_or, List.not_mem_nil, or_false] at hmem
    rcases hmem with ⟨-, rfl⟩ | ⟨-, rfl⟩
    · exact ⟨0, .string⟩
    · refine ⟨1, .array ?_⟩
      intro item hitem
      simp only [List.mem_cons, List.not_mem_nil, or_false] at hitem
      rcases hitem with rfl | rfl
      · exact .number ⟨by decide, by decide⟩
      · exact .null
  have hmembers := List.reverse_perm (Table.mapValues Value.toJson bag)
  obtain ⟨found, hfound, -, -, -, hresolve, hform, -⟩ :=
    ofDocument?_toJson hnames hreadable hmembers
  obtain rfl : found = bag' := Option.some.inj (hfound.symm.trans rfl)
  exact ⟨hnames, hreadable, hmembers, hfound, hresolve _ _, rfl, hform⟩

end Bag

end DialogScript
