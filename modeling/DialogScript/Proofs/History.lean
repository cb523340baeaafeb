import DialogScript.Store
import Mathlib.Data.List.Induction
import Mathlib.Data.List.Nodup

/-!
A store is what its history makes of it: the records written to it, one after another. Merging two
stores puts one history behind the other, so the laws of merging are those of appending lists.
-/

namespace DialogScript.Store

def ids (s : Store) : List Text := s.records.map Record.id

/-- The last record of a history with an id. -/
def latest? (history : List Record) (id : Text) : Option Record :=
  history.reverse.find? fun r => r.id = id

/-- A store with the records that were written to it, oldest first. -/
inductive Written : List Record → Store → Prop
  | empty : Written [] .empty
  | insert (h : Written history s) (r : Record) : Written (history ++ [r]) (s.insert r)
  | merge (h : Written history s) (h' : Written history' other) :
      Written (history ++ history') (s.merge other)

section insertRecord

variable {r x : Record} {l : List Record}

theorem map_id_insertRecord_of_mem (h : r.id ∈ l.map Record.id) :
    (insertRecord r l).map Record.id = l.map Record.id := by
  induction l with
  | nil => cases h
  | cons y l ih =>
    rw [insertRecord]
    by_cases hy : y.id = r.id
    · rw [if_pos hy, List.map_cons, List.map_cons, hy]
    · rw [List.map_cons, List.mem_cons, or_iff_right (Ne.symm hy)] at h
      rw [if_neg hy, List.map_cons, List.map_cons, ih h]

theorem insertRecord_of_notMem (h : r.id ∉ l.map Record.id) : insertRecord r l = l ++ [r] := by
  induction l with
  | nil => rfl
  | cons y l ih =>
    rw [List.map_cons, List.mem_cons, not_or] at h
    rw [insertRecord, if_neg (Ne.symm h.1), ih h.2, List.cons_append]

theorem find?_insertRecord (r : Record) (l : List Record) (id : Text) :
    (insertRecord r l).find? (fun x => x.id = id) =
      if r.id = id then some r else l.find? fun x => x.id = id := by
  induction l with
  | nil => by_cases hr : r.id = id <;> simp [insertRecord, hr]
  | cons y l ih =>
    rw [insertRecord]
    by_cases hy : y.id = r.id
    · by_cases hr : r.id = id
      · simp [hy, hr]
      · simp [hy, hr]
    · rw [if_neg hy]
      by_cases hid : y.id = id
      · have hr : r.id ≠ id := fun h => hy (hid.trans h.symm)
        simp [hid, hr]
      · simp [hid, ih]

theorem ne_of_mem (h : x.id ∉ l.map Record.id) (hr : r ∈ l) : x.id ≠ r.id := by
  intro he
  apply h
  rw [he]
  exact List.mem_map_of_mem hr

theorem find?_of_mem (h : (l.map Record.id).Nodup) (hr : r ∈ l) :
    l.find? (fun x => x.id = r.id) = some r := by
  induction l with
  | nil => cases hr
  | cons y l ih =>
    rw [List.map_cons, List.nodup_cons] at h
    rcases List.mem_cons.1 hr with rfl | hr
    · simp
    · simp [ne_of_mem h.1 hr, ih h.2 hr]

theorem insertRecord_of_mem (h : (l.map Record.id).Nodup) (hr : r ∈ l) : insertRecord r l = l := by
  induction l with
  | nil => cases hr
  | cons y l ih =>
    rw [List.map_cons, List.nodup_cons] at h
    rw [insertRecord]
    rcases List.mem_cons.1 hr with rfl | hr
    · rw [if_pos rfl]
    · rw [if_neg (ne_of_mem h.1 hr), ih h.2 hr]

theorem insertRecord_insertRecord (h : x.id = r.id) (l : List Record) :
    insertRecord r (insertRecord x l) = insertRecord r l := by
  induction l with
  | nil => simp [insertRecord, h]
  | cons y l ih =>
    by_cases hy : y.id = r.id
    · simp [insertRecord, h, hy]
    · simp [insertRecord, h, hy, ih]

/-- A record that is there already keeps its place, whatever is written besides. -/
theorem insertRecord_comm (h : r.id ∈ l.map Record.id) (hne : x.id ≠ r.id) :
    insertRecord r (insertRecord x l) = insertRecord x (insertRecord r l) := by
  induction l with
  | nil => cases h
  | cons y l ih =>
    by_cases hr : y.id = r.id
    · simp [insertRecord, hr, Ne.symm hne]
    · rw [List.map_cons, List.mem_cons, or_iff_right (Ne.symm hr)] at h
      by_cases hx : y.id = x.id
      · simp [insertRecord, hx, hne]
      · simp [insertRecord, hx, hr, ih h]

end insertRecord

theorem ids_insert (s : Store) (r : Record) :
    (s.insert r).ids = if r.id ∈ s.ids then s.ids else s.ids ++ [r.id] := by
  split
  · rename_i h
    exact map_id_insertRecord_of_mem h
  · rename_i h
    rw [insert, ids, insertRecord_of_notMem h, List.map_append]
    rfl

theorem get?_insert (s : Store) (r : Record) (id : Text) :
    (s.insert r).get? (.id id) = if r.id = id then some r else s.get? (.id id) :=
  find?_insertRecord r s.records id

theorem nodup_ids_insert {s : Store} (h : s.ids.Nodup) (r : Record) : (s.insert r).ids.Nodup := by
  rw [ids_insert]
  split
  · exact h
  · rename_i hr
    rw [← List.concat_eq_append]
    exact h.concat hr

theorem insertAll_append (s : Store) (l l' : List Record) :
    s.insertAll (l ++ l') = (s.insertAll l).insertAll l' := List.foldl_append

theorem ofList_append (history history' : List Record) :
    ofList (history ++ history') = (ofList history).insertAll history' :=
  insertAll_append empty history history'

theorem ofList_concat (history : List Record) (r : Record) :
    ofList (history ++ [r]) = (ofList history).insert r := ofList_append history [r]

theorem ids_ofList (history : List Record) :
    (ofList history).ids = (history.map Record.id).eraseDups := by
  induction history using List.reverseRecOn with
  | nil => rfl
  | append_singleton history r ih =>
    rw [ofList_concat, ids_insert, ih, List.map_append, List.eraseDups_append, List.map_singleton,
      List.cons_removeAll]
    simp only [List.mem_eraseDups]
    by_cases h : r.id ∈ history.map Record.id
    · simp [h, List.removeAll]
    · simp [h, List.removeAll, List.eraseDups_cons]

theorem nodup_ids_ofList (history : List Record) : (ofList history).ids.Nodup := by
  induction history using List.reverseRecOn with
  | nil => exact List.nodup_nil
  | append_singleton history r ih =>
    rw [ofList_concat]
    exact nodup_ids_insert ih r

theorem get?_ofList (history : List Record) (id : Text) :
    (ofList history).get? (.id id) = latest? history id := by
  induction history using List.reverseRecOn with
  | nil => rfl
  | append_singleton history r ih =>
    rw [ofList_concat, get?_insert, ih]
    by_cases hr : r.id = id
    · simp [latest?, hr]
    · simp [latest?, hr]

theorem insertAll_insert {s : Store} {r : Record} {l : List Record} (h : r.id ∈ s.ids)
    (hl : r.id ∉ l.map Record.id) : (s.insertAll l).insert r = (s.insert r).insertAll l := by
  induction l generalizing s with
  | nil => rfl
  | cons x l ih =>
    rw [List.map_cons, List.mem_cons, not_or] at hl
    have hx : r.id ∈ (s.insert x).ids := by
      rw [ids_insert]
      split
      · exact h
      · exact List.mem_append_left _ h
    have hcomm : (s.insert x).insert r = (s.insert r).insert x :=
      congrArg Store.mk (insertRecord_comm h (Ne.symm hl.1))
    change ((s.insert x).insertAll l).insert r = ((s.insert r).insert x).insertAll l
    rw [ih hx hl.2, hcomm]

theorem mem_ids_insert_self (s : Store) (r : Record) : r.id ∈ (s.insert r).ids := by
  rw [ids_insert]
  split
  · rename_i h
    exact h
  · exact List.mem_concat_self

theorem insertAll_insertRecord (s : Store) {r : Record} {l : List Record}
    (h : (l.map Record.id).Nodup) :
    s.insertAll (insertRecord r l) = (s.insertAll l).insert r := by
  induction l generalizing s with
  | nil => rfl
  | cons x l ih =>
    rw [List.map_cons, List.nodup_cons] at h
    rw [insertRecord]
    by_cases hx : x.id = r.id
    · have hagain : (s.insert x).insert r = s.insert r :=
        congrArg Store.mk (insertRecord_insertRecord hx s.records)
      have hmem : r.id ∈ (s.insert x).ids := hx ▸ mem_ids_insert_self s x
      rw [if_pos hx]
      change (s.insert r).insertAll l = ((s.insert x).insertAll l).insert r
      rw [insertAll_insert hmem (hx ▸ h.1), hagain]
    · rw [if_neg hx]
      exact ih (s.insert x) h.2

/-- Merging with a store is writing the records that it was made from. -/
theorem merge_ofList (s : Store) (history : List Record) :
    s.merge (ofList history) = s.insertAll history := by
  induction history using List.reverseRecOn with
  | nil => rfl
  | append_singleton history r ih =>
    calc
      s.merge (ofList (history ++ [r]))
      _ = s.insertAll (insertRecord r (ofList history).records) := by rw [ofList_concat]; rfl
      _ = (s.merge (ofList history)).insert r :=
        insertAll_insertRecord s (nodup_ids_ofList history)
      _ = s.insertAll (history ++ [r]) := by rw [ih, insertAll_append]; rfl

theorem insertAll_of_subset {s : Store} (h : s.ids.Nodup) {l : List Record}
    (hl : l ⊆ s.records) : s.insertAll l = s := by
  induction l with
  | nil => rfl
  | cons r l ih =>
    obtain ⟨hr, hl⟩ := List.cons_subset.1 hl
    have hs : s.insert r = s := congrArg Store.mk (insertRecord_of_mem h hr)
    change (s.insert r).insertAll l = s
    rw [hs, ih hl]

theorem Written.eq_ofList (h : Written history s) : s = ofList history := by
  induction h with
  | empty => rfl
  | insert _ r ih => rw [ofList_concat, ih]
  | merge _ _ ih ih' => rw [ofList_append, ih, ih', merge_ofList]

theorem written_ofList (history : List Record) : Written history (ofList history) := by
  induction history using List.reverseRecOn with
  | nil => exact .empty
  | append_singleton history r ih =>
    rw [ofList_concat]
    exact ih.insert r

theorem records_eq_filterMap {s : Store} (h : s.ids.Nodup) :
    s.records = s.ids.filterMap fun id => s.get? (.id id) := by
  have hget : ∀ r ∈ s.records, s.get? (.id r.id) = some r := fun r hr => find?_of_mem h hr
  calc
    s.records = s.records.filterMap some := List.filterMap_some.symm
    _ = s.records.filterMap fun r => s.get? (.id r.id) :=
      List.filterMap_congr fun r hr => (hget r hr).symm
    _ = s.ids.filterMap fun id => s.get? (.id id) := by rw [ids, List.filterMap_map]; rfl

/-- The records of a store are the last ones written under each id, in the order in which the ids
were first written; a name finds the first of them that has it. Merging is associative, has the
empty store for its unit, adds nothing when a store is merged with itself, and amounts to writing
the records of the other store. -/
theorem last_write_wins {history history' history'' : List Record} {a b c : Store}
    (ha : Written history a) (hb : Written history' b) (hc : Written history'' c)
    (records : List Record) :
    (a.records.map Record.id).Nodup ∧
    a.records.map Record.id = (history.map Record.id).eraseDups ∧
    a.records = (history.map Record.id).eraseDups.filterMap (latest? history) ∧
    (∀ id, a.get? (.id id) = latest? history id) ∧
    (∀ name category, a.get? (.name name category) =
      ((history.map Record.id).eraseDups.filterMap (latest? history)).find? fun r =>
        r.name = name && r.category = category) ∧
    Written records (ofList records) ∧
    (a.merge b).merge c = a.merge (b.merge c) ∧
    empty.merge a = a ∧ a.merge empty = a ∧ a.merge a = a ∧
    a.merge (ofList records) = a.insertAll records := by
  have hnodup : a.ids.Nodup := by
    rw [ha.eq_ofList]
    exact nodup_ids_ofList history
  have hget (id : Text) : a.get? (.id id) = latest? history id := by
    rw [ha.eq_ofList]
    exact get?_ofList history id
  have hids : a.ids = (history.map Record.id).eraseDups := by
    rw [ha.eq_ofList]
    exact ids_ofList history
  have hrecords : a.records =
      (history.map Record.id).eraseDups.filterMap (latest? history) := by
    rw [records_eq_filterMap hnodup, hids]
    exact List.filterMap_congr fun id _ => hget id
  refine ⟨hnodup, hids, hrecords, hget, ?_, written_ofList records, ?_, ?_, rfl, ?_, ?_⟩
  · intro name category
    rw [← hrecords]
    rfl
  · rw [((ha.merge hb).merge hc).eq_ofList, (ha.merge (hb.merge hc)).eq_ofList, List.append_assoc]
  · rw [(Written.empty.merge ha).eq_ofList, ha.eq_ofList]
    rfl
  · exact insertAll_of_subset hnodup (List.Subset.refl _)
  · exact merge_ofList a records

/-- The laws for a store whose first record is written again under another name, by a merge. -/
theorem last_write_wins_renamed :
    let r (id name text : String) : Record :=
      { id := id.toList, name := name.toList, text := text.toList }
    let history := [r "a" "x" "1", r "b" "x" "2"]
    let history' := [r "c" "z" "3", r "a" "y" "4"]
    let s := ofList history
    let other := ofList history'
    let merged := s.merge other
    Written (history ++ history') merged ∧ Written history s ∧ Written history' other ∧
    merged.records = [r "a" "y" "4", r "b" "x" "2", r "c" "z" "3"] ∧
    merged.get? (.id "a".toList) = some (r "a" "y" "4") ∧
    merged.get? (.name "x".toList []) = some (r "b" "x" "2") ∧
    (merged.merge s).merge other = merged.merge (s.merge other) ∧
    merged.merge other = merged.insertAll history' := by
  intro r history history' s other merged
  have hs : Written history s := written_ofList history
  have hother : Written history' other := written_ofList history'
  have hmerged : Written (history ++ history') merged := hs.merge hother
  obtain ⟨-, -, hrecords, hid, hname, -, hassoc, -, -, -, hinsert⟩ :=
    last_write_wins hmerged hs hother history'
  exact ⟨hmerged, hs, hother, hrecords, hid _, hname _ _, hassoc, hinsert⟩

end DialogScript.Store
