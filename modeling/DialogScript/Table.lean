import DialogScript.Text

namespace DialogScript

/-- Values under names; writing to a name replaces what it held. -/
abbrev Table (α : Type) := List (Text × α)

namespace Table

def get? (name : Text) : Table α → Option α
  | [] => none
  | (n, v) :: rest => if n = name then some v else get? name rest

def insert (name : Text) (value : α) : Table α → Table α
  | [] => [(name, value)]
  | (n, v) :: rest => if n = name then (n, value) :: rest else (n, v) :: insert name value rest

def insertAll (t : Table α) (entries : List (Text × α)) : Table α :=
  entries.foldl (fun t (name, value) => t.insert name value) t

def ofList (entries : List (Text × α)) : Table α := insertAll [] entries

def names (t : Table α) : List Text := t.map Prod.fst

theorem get?_insert (t : Table α) (name other : Text) (value : α) :
    (t.insert name value).get? other = if name = other then some value else t.get? other := by
  induction t with
  | nil => rfl
  | cons entry rest ih =>
    obtain ⟨n, v⟩ := entry
    by_cases h : n = name
    · subst h
      by_cases ho : n = other <;> simp [insert, get?, ho]
    · by_cases ho : n = other
      · subst ho
        simp [insert, get?, h, Ne.symm h]
      · simp [insert, get?, h, ho, ih]

theorem get?_insertAll_of_notMem {name : Text} {entries : List (Text × α)}
    (h : name ∉ entries.map Prod.fst) (t : Table α) :
    (t.insertAll entries).get? name = t.get? name := by
  induction entries generalizing t with
  | nil => rfl
  | cons entry rest ih =>
    simp only [List.map_cons, List.mem_cons, not_or] at h
    change ((t.insert entry.1 entry.2).insertAll rest).get? name = _
    rw [ih h.2, get?_insert, if_neg (Ne.symm h.1)]

theorem mem_names_iff {t : Table α} {name : Text} :
    name ∈ t.names ↔ (t.get? name).isSome := by
  induction t with
  | nil => simp [names, get?]
  | cons entry rest ih =>
    obtain ⟨n, v⟩ := entry
    by_cases h : n = name
    · simp [names, get?, h]
    · simp only [names, List.map_cons, List.mem_cons, get?, if_neg h, Ne.symm h, false_or]
      exact ih

theorem mem_names_insert {t : Table α} {name other : Text} {value : α} :
    other ∈ (t.insert name value).names ↔ other = name ∨ other ∈ t.names := by
  rw [mem_names_iff, mem_names_iff, get?_insert]
  by_cases h : name = other
  · simp [h]
  · simp [h, Ne.symm h]

theorem mem_names_insertAll {t : Table α} {entries : List (Text × α)} {name : Text} :
    name ∈ (t.insertAll entries).names ↔ name ∈ entries.map Prod.fst ∨ name ∈ t.names := by
  induction entries generalizing t with
  | nil => simp [insertAll]
  | cons entry rest ih =>
    change name ∈ ((t.insert entry.1 entry.2).insertAll rest).names ↔ _
    rw [ih, mem_names_insert, List.map_cons, List.mem_cons, or_left_comm, or_assoc]

theorem get?_insertAll_of_mem {name : Text} {value : α} {entries : List (Text × α)}
    (h : (entries.map Prod.fst).Nodup) (hm : (name, value) ∈ entries) (t : Table α) :
    (t.insertAll entries).get? name = some value := by
  induction entries generalizing t with
  | nil => cases hm
  | cons entry rest ih =>
    rw [List.map_cons, List.nodup_cons] at h
    change ((t.insert entry.1 entry.2).insertAll rest).get? name = _
    rcases List.mem_cons.1 hm with rfl | hm
    · rw [get?_insertAll_of_notMem h.1, get?_insert, if_pos rfl]
    · exact ih h.2 hm _

def mapValues (f : α → β) (t : Table α) : Table β := t.map fun (name, value) => (name, f value)

theorem names_mapValues (f : α → β) (t : Table α) : (t.mapValues f).names = t.names := by
  simp [names, mapValues]

theorem get?_mapValues (f : α → β) (t : Table α) (name : Text) :
    (t.mapValues f).get? name = (t.get? name).map f := by
  induction t with
  | nil => rfl
  | cons entry rest ih =>
    obtain ⟨n, v⟩ := entry
    change get? name ((n, f v) :: mapValues f rest) = _
    by_cases h : n = name
    · simp [get?, h]
    · simp only [get?, if_neg h, ih]

end Table

end DialogScript
