import DialogScript.Schema
import Mathlib.Data.List.Forall2
import Mathlib.Data.List.Nodup

/-!
Reading lists, tables and structures from JSON values. The fields of a structure are found in
whatever order they stand, and members under other keys play no part.
-/

namespace DialogScript

namespace Table

theorem get?_eq_some_iff {t : Table α} (h : t.names.Nodup) :
    t.get? name = some value ↔ (name, value) ∈ t := by
  induction t with
  | nil => exact iff_of_false nofun List.not_mem_nil
  | cons entry rest ih =>
    obtain ⟨n, v⟩ := entry
    obtain ⟨hn, hrest⟩ := List.nodup_cons.1 h
    rw [get?, List.mem_cons, Prod.mk.injEq]
    by_cases hname : n = name
    · subst hname
      have hnot : (n, value) ∉ rest := fun hmem => hn (List.mem_map.2 ⟨_, hmem, rfl⟩)
      simp [hnot, eq_comm]
    · rw [if_neg hname, ih hrest]
      simp [Ne.symm hname]

theorem get?_perm {t t' : Table α} (h : t.names.Nodup) (hp : t.Perm t') (name : Text) :
    t'.get? name = t.get? name := by
  have h' : t'.names.Nodup := (hp.map Prod.fst).nodup_iff.1 h
  apply Option.ext
  intro value
  rw [get?_eq_some_iff h', get?_eq_some_iff h, hp.mem_iff]

theorem insert_of_notMem {t : Table α} (h : name ∉ t.names) (value : α) :
    t.insert name value = t ++ [(name, value)] := by
  induction t with
  | nil => rfl
  | cons entry rest ih =>
    obtain ⟨n, v⟩ := entry
    rw [names, List.map_cons, List.mem_cons, not_or] at h
    rw [insert, if_neg (Ne.symm h.1), ih h.2]
    rfl

theorem insertAll_of_nodup {t : Table α} {entries : List (Text × α)}
    (h : (names (t ++ entries)).Nodup) : t.insertAll entries = t ++ entries := by
  induction entries generalizing t with
  | nil => exact (List.append_nil t).symm
  | cons entry rest ih =>
    have hnew : entry.1 ∉ t.names := by
      rw [names, List.map_append, List.map_cons, List.nodup_middle, List.nodup_cons] at h
      exact fun hmem => h.1 (List.mem_append_left _ hmem)
    rw [List.append_cons] at h ⊢
    change (t.insert entry.1 entry.2).insertAll rest = _
    rw [insert_of_notMem hnew, ih h]

theorem ofList_of_nodup {t : Table α} (h : t.names.Nodup) : ofList t = t :=
  insertAll_of_nodup (t := []) h

end Table

namespace Json

/-- An object that says what another one does: under known keys it has the same members, in any
order, and it may have members under other keys. -/
inductive Widens (names : List (List Text)) : Json → Json → Prop
  | object (h : (written.filter fun m => m.1 ∈ names.flatten).Perm members) :
    Widens names (.object members) (.object written)

theorem widens_object {names : List (List Text)} {members : List (Text × Json)}
    (h : ∀ m ∈ members, m.1 ∈ names.flatten) :
    Widens names (.object members) (.object members) := by
  apply Widens.object
  rw [List.filter_eq_self.2 fun m hm => decide_eq_true (h m hm)]

namespace Document

variable {names : List Text} {members written : List (Text × Json)}

theorem filter_memberDocuments (names : List Text) (members : List (Text × Json)) :
    ((memberDocuments members).filter fun m => m.1.any fun key => names.contains key) =
      memberDocuments (members.filter fun m => m.1 ∈ names) := by
  induction members with
  | nil => rfl
  | cons m rest ih =>
    obtain ⟨key, v⟩ := m
    rw [memberDocuments, List.filter_cons, ih, List.filter_cons]
    by_cases h : key ∈ names <;> simp [h, memberDocuments]

/-- What a field is given by the members under its names. -/
def ofFound? : List (Text × Json) → Option (Option Document)
  | [] => some none
  | [m] => some (some m.2.document)
  | _ => none

theorem member?_eq (names : List Text) (members : List (Text × Json)) :
    member? (memberDocuments members) names =
      ofFound? (members.filter fun m => m.1 ∈ names) := by
  rw [member?, filter_memberDocuments]
  generalize members.filter (fun m => m.1 ∈ names) = found
  rcases found with - | ⟨m, - | ⟨m', rest⟩⟩ <;> rfl

theorem ofFound?_perm {found found' : List (Text × Json)} (h : found.Perm found') :
    ofFound? found = ofFound? found' := by
  rcases found' with - | ⟨m, - | ⟨m', rest⟩⟩
  · rw [h.eq_nil]
  · rw [h.eq_singleton]
  · rcases found with - | ⟨n, - | ⟨n', rest'⟩⟩
    · cases h.length_eq
    · cases h.length_eq
    · rfl

theorem fieldsOfObject?_object (names : List (List Text)) (members : List (Text × Json)) :
    fieldsOfObject? names (Json.object members).document =
      names.mapM (member? (memberDocuments members)) := by
  have hkeys : (memberDocuments members).all (fun m => m.1.isSome) = true := by
    induction members with
    | nil => rfl
    | cons m rest ih => exact ih
  rw [Json.document, fieldsOfObject?, if_pos hkeys]

end Document

/-- A field has the same members in both objects. -/
theorem Widens.filter_perm (h : Widens names (.object members) (.object written))
    (hown : own ∈ names) :
    (written.filter fun m => m.1 ∈ own).Perm (members.filter fun m => m.1 ∈ own) := by
  cases h with
  | object h =>
    have hfilter : (written.filter fun m => m.1 ∈ names.flatten).filter (fun m => m.1 ∈ own) =
        written.filter fun m => m.1 ∈ own := by
      rw [List.filter_filter]
      apply List.filter_congr
      intro m _
      rw [← Bool.decide_and, decide_eq_decide]
      exact and_iff_left_of_imp fun hm => List.mem_flatten.2 ⟨own, hown, hm⟩
    rw [← hfilter]
    exact h.filter _

theorem mapM_congr_mem {f g : α → Option β} {l : List α} (h : ∀ a ∈ l, f a = g a) :
    l.mapM f = l.mapM g := by
  induction l with
  | nil => rfl
  | cons a l ih =>
    obtain ⟨ha, hl⟩ := List.forall_mem_cons.1 h
    rw [List.mapM_cons, List.mapM_cons, ha, ih hl]

theorem Widens.fieldsOfObject?_eq (h : Widens names v w) :
    w.document.fieldsOfObject? names = v.document.fieldsOfObject? names := by
  cases h with
  | @object members written hmembers =>
    have h : Widens names (.object members) (.object written) := .object hmembers
    rw [Document.fieldsOfObject?_object, Document.fieldsOfObject?_object]
    apply mapM_congr_mem
    intro own hown
    rw [Document.member?_eq, Document.member?_eq, Document.ofFound?_perm (h.filter_perm hown)]

theorem Widens.fields?_eq (h : Widens names v w) :
    w.document.fields? names = v.document.fields? names := by
  have heq := h.fieldsOfObject?_eq
  cases h with
  | object h => exact heq

/-- A list is read back item by item. -/
theorem Document.items?_eq {item? : Document → Option α} {items : List Json} {xs : List α}
    (h : List.Forall₂ (fun v x => item? v.document = some x) items xs) :
    items? item? (Json.array items).document = some xs := by
  rw [document, items?]
  induction h with
  | nil => rfl
  | @cons v x items xs hitem _ ih =>
    rw [documents, List.mapM_cons, hitem, ih]
    rfl

theorem Document.items?_texts (values : List Text) :
    items? text? (texts values).document = some values := by
  apply items?_eq
  rw [List.forall₂_map_left_iff, List.forall₂_same]
  exact fun _ _ => rfl

/-- A table is read back cell by cell. -/
theorem Document.table?_eq {cell? : Document → Option α} {members : List (Text × Json)}
    {t : Table α} (hnames : t.names.Nodup)
    (h : List.Forall₂ (fun m cell => m.1 = cell.1 ∧ cell? m.2.document = some cell.2) members t) :
    table? cell? (Json.object members).document = some t := by
  have hcells : (memberDocuments members).mapM
      (fun m : Option Text × Document => do some (← m.1, ← cell? m.2)) = some t := by
    clear hnames
    induction h with
    | nil => rfl
    | @cons m cell members t hcell _ ih =>
      rw [memberDocuments, List.mapM_cons, ih]
      simp [hcell]
  rw [document, table?, hcells]
  exact congrArg some (Table.ofList_of_nodup hnames)

end Json

end DialogScript
