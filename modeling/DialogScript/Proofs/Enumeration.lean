import DialogScript.Engine
import DialogScript.Proofs.Forgetting
import DialogScript.Proofs.MemberOrder
import Mathlib.Data.List.Nodup
import Mathlib.Data.List.Sort

/-!
The order in which folders give their entries. Paths lead to the same files in whatever order that
is, and the libraries of a folder are visited by name.
-/

namespace DialogScript

namespace Node

/-- One tree given in two ways: the entries of a folder, each under a name of its own, come in
another order, at any place in the tree. -/
inductive Reordered : Node → Node → Prop
  | refl (node : Node) : Reordered node node
  | perm {entries entries' : List (Text × Node)} (hnames : (entries.map Prod.fst).Nodup)
    (h : entries.Perm entries') : Reordered (.folder entries) (.folder entries')
  | inside (before : List (Text × Node)) (h : Reordered node node') :
    Reordered (.folder (before ++ (name, node) :: later))
      (.folder (before ++ (name, node') :: later))
  | trans (h : Reordered a b) (h' : Reordered b c) : Reordered a c

theorem child?_eq_some_iff {entries : List (Text × Node)} (h : (entries.map Prod.fst).Nodup) :
    child? name entries = some node ↔ (name, node) ∈ entries := by
  rw [child?, Option.map_eq_some_iff]
  constructor
  · rintro ⟨⟨n, node'⟩, hfind, rfl⟩
    have hname := List.find?_some hfind
    rw [decide_eq_true_eq] at hname
    rw [← hname]
    exact List.mem_of_find?_eq_some hfind
  · intro hmem
    obtain ⟨entry, hfind⟩ : ∃ entry, entries.find? (fun entry => entry.1 = name) = some entry := by
      rw [← Option.isSome_iff_exists, List.find?_isSome]
      exact ⟨_, hmem, decide_eq_true rfl⟩
    have hname := List.find?_some hfind
    rw [decide_eq_true_eq] at hname
    have he := List.inj_on_of_nodup_map h (List.mem_of_find?_eq_some hfind) hmem hname
    exact ⟨entry, hfind, by rw [he]⟩

theorem child?_perm {entries entries' : List (Text × Node)} (hnames : (entries.map Prod.fst).Nodup)
    (h : entries.Perm entries') (name : Text) : child? name entries = child? name entries' := by
  apply Option.ext
  intro node
  rw [child?_eq_some_iff hnames, child?_eq_some_iff ((h.map Prod.fst).nodup_iff.1 hnames),
    h.mem_iff]

theorem child?_middle (name : Text) (before : List (Text × Node)) (entry : Text × Node)
    (later : List (Text × Node)) : child? name (before ++ entry :: later) =
      (child? name before).or (if entry.1 = name then some entry.2 else child? name later) := by
  rw [child?, child?, child?, List.find?_append, List.find?_cons]
  by_cases h : entry.1 = name <;> simp [h, Option.map_or]

/-- One file, or two folders in which every name leads to the same tree. -/
inductive Alike : Node → Node → Prop
  | file : Alike (.file bytes) (.file bytes)
  | folder {entries entries' : List (Text × Node)}
    (h : ∀ name, Option.Rel Reordered (child? name entries) (child? name entries')) :
    Alike (.folder entries) (.folder entries')

theorem rel_refl (found : Option Node) : Option.Rel Reordered found found := by
  cases found with
  | none => exact .none
  | some node => exact .some (.refl node)

theorem rel_trans {a b c : Option Node} (h : Option.Rel Reordered a b)
    (h' : Option.Rel Reordered b c) : Option.Rel Reordered a c := by
  cases h with
  | none => exact h'
  | some h =>
    cases h' with
    | some h' => exact .some (h.trans h')

theorem Reordered.alike (h : Reordered a b) : Alike a b := by
  induction h with
  | refl node =>
    cases node with
    | file bytes => exact .file
    | folder entries => exact .folder fun name => rel_refl _
  | perm hnames h =>
    apply Alike.folder
    intro name
    rw [child?_perm hnames h]
    exact rel_refl _
  | @inside node node' own later before h ih =>
    apply Alike.folder
    intro name
    rw [child?_middle, child?_middle]
    cases child? name before with
    | some found => exact .some (.refl found)
    | none =>
      by_cases hname : own = name
      · simpa [hname] using Option.Rel.some h
      · simpa [hname] using rel_refl _
  | trans _ _ ih ih' =>
    cases ih with
    | file => exact ih'
    | folder h =>
      cases ih' with
      | folder h' => exact .folder fun name => rel_trans (h name) (h' name)

theorem Reordered.text_eq (h : Reordered a b) : b.text = a.text := by
  cases h.alike with
  | file => rfl
  | folder => rfl

theorem Reordered.walk (houter : List.Forall₂ Reordered outer outer') (h : Reordered here here')
    (path : List Text) :
    SameOutcome Reordered (Node.walk outer here path) (Node.walk outer' here' path) := by
  induction path generalizing outer outer' here here' with
  | nil => exact .ok h
  | cons component rest ih =>
    have halike := h.alike
    cases halike with
    | file => exact .error _
    | @folder entries entries' hchild =>
      simp only [Node.walk, Node.entries, bind, Except.bind]
      split
      · exact ih houter h
      · split
        · cases houter with
          | nil => exact ih .nil (.refl _)
          | cons hparent houter => exact ih houter hparent
        · have hc := hchild component
          cases hn : child? component entries with
          | none =>
            rw [hn] at hc
            cases hn' : child? component entries' with
            | none => exact .error _
            | some node' =>
              rw [hn'] at hc
              cases hc
          | some node =>
            rw [hn] at hc
            cases hn' : child? component entries' with
            | none =>
              rw [hn'] at hc
              cases hc
            | some node' =>
              rw [hn'] at hc
              cases hc with
              | some hnode => exact ih (.cons h houter) hnode

theorem Reordered.find (h : Reordered root root') (path : Text) :
    SameOutcome Reordered (root.find path) (root'.find path) := by
  rw [Node.find.eq_def, Node.find.eq_def]
  split
  · exact .error _
  · exact Reordered.walk .nil (.refl _) _
  · exact Reordered.walk .nil h _

theorem Reordered.read_eq (h : Reordered root root') (path : Text) :
    root'.read path = root.read path := by
  have hfind := h.find path
  rw [read, read]
  generalize root.find path = found, root'.find path = found' at hfind
  cases hfind with
  | error cause => rfl
  | ok hnode => exact hnode.text_eq

theorem Reordered.isFolder_eq (h : Reordered root root') (path : Text) :
    root'.isFolder path = root.isFolder path := by
  have hfind := h.find path
  rw [isFolder, isFolder]
  generalize root.find path = found, root'.find path = found' at hfind
  cases hfind with
  | error cause => rfl
  | ok hnode =>
    cases hnode.alike with
    | file => rfl
    | folder => rfl

end Node

namespace Store

theorem not_before_trans (a b c : Text × Node) (hab : (!b.1.before a.1) = true)
    (hbc : (!c.1.before b.1) = true) : (!c.1.before a.1) = true := by
  rw [Text.not_before_iff_le] at hab hbc ⊢
  exact le_trans hab hbc

theorem not_before_total (a b : Text × Node) :
    (!b.1.before a.1 || !a.1.before b.1) = true := by
  rw [Bool.or_eq_true, Text.not_before_iff_le, Text.not_before_iff_le]
  exact le_total _ _

theorem pairwise_libraries (entries : List (Text × Node)) :
    (libraries entries).Pairwise fun a b => (!b.1.before a.1) = true :=
  List.pairwise_mergeSort not_before_trans not_before_total _

theorem perm_libraries (entries : List (Text × Node)) :
    (libraries entries).Perm (entries.filter isLibrary) := List.mergeSort_perm _ _

/-- Sorting by names forgets the order of entries whose names differ. -/
theorem libraries_perm (hnames : (entries.map Prod.fst).Nodup) (h : entries.Perm entries') :
    libraries entries' = libraries entries := by
  have hperm : (libraries entries').Perm (libraries entries) :=
    ((perm_libraries entries').trans (h.symm.filter _)).trans (perm_libraries entries).symm
  apply hperm.eq_of_pairwise ?_ (pairwise_libraries entries') (pairwise_libraries entries)
  intro a b ha hb hab hba
  have hmem {e : Text × Node} (he : e ∈ libraries entries) : e ∈ entries :=
    (List.mem_filter.1 ((perm_libraries entries).mem_iff.1 he)).1
  rw [Text.not_before_iff_le] at hab hba
  exact List.inj_on_of_nodup_map hnames (hmem (hperm.mem_iff.1 ha)) (hmem hb)
    (le_antisymm hab hba)

/-- What loading each library of a folder gives, in turn. -/
def loaded : Node → List (Except LoadError Store)
  | .folder entries => (libraries entries).map fun entry => ofNode entry.2
  | .file _ => []

theorem map_libraries (f : Text × Node → Text × α) (hf : ∀ entry, (f entry).1 = entry.1)
    (entries : List (Text × Node)) : (libraries entries).map f =
      ((entries.map f).filter fun entry => extension? entry.1 = some "ron".toList).mergeSort
        fun a b => !b.1.before a.1 := by
  have hfilter : (entries.filter isLibrary).map f =
      (entries.map f).filter fun entry => extension? entry.1 = some "ron".toList := by
    rw [List.filter_map]
    congr 1
    apply List.filter_congr
    intro entry _
    simp only [isLibrary, Function.comp_apply, hf]
  rw [libraries, List.map_mergeSort, hfilter]
  intro a _ b _
  rw [hf, hf]

end Store

theorem Node.Reordered.ofNode_eq (h : Reordered a b) : Store.ofNode b = Store.ofNode a := by
  rw [Store.ofNode, Store.ofNode, h.text_eq]

theorem Node.Reordered.loaded_eq (h : Reordered a b) : Store.loaded b = Store.loaded a := by
  induction h with
  | refl node => rfl
  | perm hnames h => rw [Store.loaded, Store.loaded, Store.libraries_perm hnames h]
  | @inside node node' name later before h ih =>
    let f (entry : Text × Node) : Text × Except LoadError Store := (entry.1, Store.ofNode entry.2)
    have hmap : (before ++ (name, node') :: later).map f =
        (before ++ (name, node) :: later).map f := by
      rw [List.map_append, List.map_append, List.map_cons, List.map_cons]
      simp only [f, h.ofNode_eq]
    have hlibraries := Store.map_libraries f (fun _ => rfl) (before ++ (name, node') :: later)
    rw [hmap, ← Store.map_libraries f fun _ => rfl] at hlibraries
    have hsecond := congrArg (List.map Prod.snd) hlibraries
    rw [List.map_map, List.map_map] at hsecond
    exact hsecond
  | trans _ _ ih ih' => rw [ih', ih]

namespace Node.Reordered

variable {root root' : Node}

theorem loadFolder_eq (h : Reordered root root') (path : Text) :
    Store.loadFolder root' path = Store.loadFolder root path := by
  have hfind := h.find path
  rw [Store.loadFolder, Store.loadFolder, list, list]
  generalize root.find path = found, root'.find path = found' at hfind
  cases hfind with
  | error cause => rfl
  | ok hnode =>
    have hloaded := hnode.loaded_eq
    cases hnode.alike with
    | file => rfl
    | @folder entries entries' =>
      have hmerge := congrArg
        (List.foldlM (fun s store => do return s.merge (← store)) Store.empty) hloaded
      rw [Store.loaded, Store.loaded, List.foldlM_map, List.foldlM_map] at hmerge
      exact hmerge

theorem load_eq (h : Reordered root root') (path : Text) :
    Store.load root' path = Store.load root path := by
  rw [Store.load, Store.load, h.isFolder_eq, h.loadFolder_eq, Store.loadFile, Store.loadFile,
    h.read_eq]

theorem loadTemplates_eq (h : Reordered root root') (p : Engine.Plan) :
    p.loadTemplates root' = p.loadTemplates root := by
  have hload : Store.load root' = Store.load root := funext h.load_eq
  simp only [Engine.Plan.loadTemplates, Engine.loadPaths, hload]

theorem loadKnowledge_eq (h : Reordered root root') (p : Engine.Plan) :
    p.loadKnowledge root' = p.loadKnowledge root := by
  simp only [Engine.Plan.loadKnowledge, KnowledgeBase.loadFile, h.read_eq]

/-- An engine does not depend on the order of the entries of the folders it is built from. -/
theorem build_eq (h : Reordered root root') (p : Engine.Plan) : p.build root' = p.build root := by
  rw [Engine.Plan.build, Engine.Plan.build, h.loadTemplates_eq, h.loadKnowledge_eq]

end Node.Reordered

end DialogScript
