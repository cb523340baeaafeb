import DialogScript.Proofs.ByteOrder
import DialogScript.Proofs.Enumeration
import DialogScript.Proofs.History

/-!
What a store holds that was loaded from folders and files: the records of all the files visited, or
else the first failure.
-/

namespace DialogScript

/-- Outcomes of reading items one after another: what all of them hold, or the first failure. -/
inductive ReadsAll (reads : ι → Except ε (List α) → Prop) (items : List ι) :
    Except ε (List α) → Prop
  | ok (h : List.Forall₂ (fun item part => reads item (.ok part)) items parts) :
    ReadsAll reads items (.ok parts.flatten)
  | error (before : List ι) (hitems : items = before ++ item :: later)
    (hbefore : ∀ i ∈ before, ∃ part, reads i (.ok part)) (h : reads item (.error cause)) :
    ReadsAll reads items (.error cause)

namespace Node

/-- A tree in which the entries of every folder have names of their own. -/
inductive Tree : Node → Prop
  | file : Tree (.file bytes)
  | folder {entries : List (Text × Node)} (hnames : (entries.map Prod.fst).Nodup)
    (h : ∀ entry ∈ entries, Tree entry.2) : Tree (.folder entries)

/-- The records of a library file. -/
def records (node : Node) : Except LoadError (List Record) := do
  (Ron.parseRecords (← node.text.mapError .system)).mapError .ron

/-- The libraries of a folder: its entries with the extension `ron`, in the order of the bytes of
their names. -/
structure Shelved (entries files : List (Text × Node)) : Prop where
  mem_iff : ∀ entry, entry ∈ files ↔
    entry ∈ entries ∧ ∃ stem, stem ≠ [] ∧ entry.1 = stem ++ ".ron".toList
  ordered : files.Pairwise fun a b => a.1.bytes < b.1.bytes

/-- What a path to libraries gives: the records of a file, those of all libraries of a folder, or a
failure. -/
inductive Loads (root : Node) (path : Text) : Except LoadError (List Record) → Prop
  | missing (h : root.find path = .error cause) : Loads root path (.error (.system cause))
  | file (h : root.find path = .ok (.file bytes)) : Loads root path (Node.file bytes).records
  | folder {entries : List (Text × Node)} (h : root.find path = .ok (.folder entries))
    (hfiles : Shelved entries files)
    (hreads : ReadsAll (fun entry => (entry.2.records = ·)) files outcome) :
    Loads root path outcome

end Node

section ReadsAll

variable {reads : ι → Except ε (List α) → Prop} {items : List ι} {item : ι}

theorem ReadsAll.cons (h : reads item (.ok part)) (hrest : ReadsAll reads items outcome) :
    ReadsAll reads (item :: items) (outcome.map (part ++ ·)) := by
  cases hrest with
  | ok hparts => exact .ok (.cons h hparts)
  | @error i later cause before hitems hbefore hi =>
    refine .error (item :: before) (congrArg (item :: ·) hitems) ?_ hi
    intro j hj
    rcases List.mem_cons.1 hj with rfl | hj
    · exact ⟨part, h⟩
    · exact hbefore j hj

theorem ReadsAll.cases_cons (h : ReadsAll reads (item :: items) outcome) :
    (∃ cause, reads item (.error cause) ∧ outcome = .error cause) ∨
    ∃ part rest, reads item (.ok part) ∧ ReadsAll reads items rest ∧
      outcome = rest.map (part ++ ·) := by
  cases h with
  | ok h =>
    cases h with
    | cons hpart hparts => exact .inr ⟨_, _, hpart, .ok hparts, rfl⟩
  | @error i later cause before hitems hbefore h =>
    cases before with
    | nil =>
      obtain ⟨rfl, -⟩ := List.cons.inj hitems
      exact .inl ⟨cause, h, rfl⟩
    | cons first before =>
      rw [List.cons_append, List.cons.injEq] at hitems
      obtain ⟨rfl, hitems⟩ := hitems
      obtain ⟨⟨part, hpart⟩, hbefore⟩ := List.forall_mem_cons.1 hbefore
      exact .inr ⟨part, _, hpart, .error before hitems hbefore h, rfl⟩

theorem exists_readsAll (h : ∀ item ∈ items, ∃ outcome, reads item outcome) :
    ∃ outcome, ReadsAll reads items outcome := by
  induction items with
  | nil => exact ⟨_, .ok .nil⟩
  | cons item items ih =>
    obtain ⟨⟨cause | part, hitem⟩, hitems⟩ := List.forall_mem_cons.1 h
    · exact ⟨_, .error [] rfl (fun _ hi => absurd hi List.not_mem_nil) hitem⟩
    · obtain ⟨outcome, houtcome⟩ := ih hitems
      exact ⟨_, houtcome.cons hitem⟩

end ReadsAll

namespace Store

theorem foldlM_merge_ofList {visit : ι → Except LoadError Store}
    {reads : ι → Except LoadError (List Record) → Prop}
    (hvisit : ∀ item outcome, reads item outcome → visit item = outcome.map ofList)
    (h : ReadsAll reads items outcome) (history : List Record) :
    items.foldlM (fun s item => do return s.merge (← visit item)) (ofList history) =
      outcome.map fun records => ofList (history ++ records) := by
  induction items generalizing outcome history with
  | nil =>
    cases h with
    | ok h =>
      cases h
      rw [List.foldlM_nil, Except.map, List.flatten_nil, List.append_nil]
      rfl
    | error before hitems => simp at hitems
  | cons item items ih =>
    rw [List.foldlM_cons]
    rcases h.cases_cons with ⟨cause, hitem, rfl⟩ | ⟨part, rest, hitem, hrest, rfl⟩
    · rw [hvisit _ _ hitem]
      rfl
    · have hrest := ih hrest (history ++ part)
      rw [ofList_append, ← merge_ofList] at hrest
      rw [hvisit _ _ hitem]
      refine Eq.trans hrest ?_
      cases rest with
      | error cause => rfl
      | ok records => rw [Except.map, List.append_assoc]; rfl

/-- Merging what is loaded one after another writes all the records, or stops at the first
failure. -/
theorem foldlM_merge {visit : ι → Except LoadError Store}
    {reads : ι → Except LoadError (List Record) → Prop}
    (hvisit : ∀ item outcome, reads item outcome → visit item = outcome.map ofList)
    (h : ReadsAll reads items outcome) :
    items.foldlM (fun s item => do return s.merge (← visit item)) empty = outcome.map ofList :=
  foldlM_merge_ofList hvisit h []

theorem ofNode_eq_map (node : Node) : ofNode node = node.records.map ofList := by
  rw [ofNode, Node.records]
  cases node.text with
  | error cause => rfl
  | ok text => rfl

end Store

/-- A library's name ends in its extension and has something in front of it. -/
theorem extension?_eq_ron_iff {name : Text} :
    extension? name = some "ron".toList ↔ ∃ stem, stem ≠ [] ∧ name = stem ++ ".ron".toList := by
  constructor
  · intro h
    simp only [extension?] at h
    split at h
    next =>
      split at h
      next => cases h
      next hstem =>
        have hback := List.takeWhile_append_dropWhile (p := (· ≠ '.')) (l := name.reverse)
        rw [Option.some.injEq, List.reverse_eq_iff] at h
        cases hdrop : name.reverse.dropWhile (· ≠ '.') with
        | nil => exact absurd (by rw [hdrop]; rfl) hstem
        | cons c stem =>
          have hdot : c = '.' := by
            have hc := List.head?_dropWhile_not (· ≠ '.') name.reverse
            rw [hdrop] at hc
            simpa using hc
          rw [hdrop, List.drop_one, List.tail_cons] at hstem
          rw [h, hdrop, hdot] at hback
          refine ⟨stem.reverse, mt List.reverse_eq_nil_iff.1 hstem, ?_⟩
          rw [← List.reverse_reverse name, ← hback]
          simp
    next => cases h
  · rintro ⟨stem, hstem, rfl⟩
    simp [extension?, hstem]

namespace Node

variable {entries files : List (Text × Node)}

theorem mem_libraries_iff {entry : Text × Node} : entry ∈ Store.libraries entries ↔
    entry ∈ entries ∧ ∃ stem, stem ≠ [] ∧ entry.1 = stem ++ ".ron".toList := by
  rw [(Store.perm_libraries entries).mem_iff, List.mem_filter, Store.isLibrary, decide_eq_true_eq,
    extension?_eq_ron_iff]

theorem nodup_libraries (hnames : (entries.map Prod.fst).Nodup) :
    (Store.libraries entries).Nodup :=
  (Store.perm_libraries entries).nodup_iff.2 ((List.Nodup.of_map _ hnames).filter _)

theorem shelved_libraries (hnames : (entries.map Prod.fst).Nodup) :
    Shelved entries (Store.libraries entries) where
  mem_iff _ := mem_libraries_iff
  ordered := by
    refine ((Store.pairwise_libraries entries).and (nodup_libraries hnames)).imp_of_mem ?_
    rintro a b ha hb ⟨hle, hne⟩
    rw [Text.not_before_iff_le] at hle
    have hname : a.1 ≠ b.1 := fun he => hne
      (List.inj_on_of_nodup_map hnames (mem_libraries_iff.1 ha).1 (mem_libraries_iff.1 hb).1 he)
    rw [← Text.before_iff_bytes_lt, Text.before_iff_lt]
    exact lt_of_le_of_ne hle hname

theorem Shelved.eq_libraries (h : Shelved entries files) (hnames : (entries.map Prod.fst).Nodup) :
    files = Store.libraries entries := by
  have hfiles : files.Nodup := h.ordered.imp fun hlt => by
    rintro rfl
    exact List.lt_irrefl _ hlt
  have hperm : files.Perm (Store.libraries entries) := by
    rw [List.perm_ext_iff_of_nodup hfiles (nodup_libraries hnames)]
    intro entry
    rw [h.mem_iff, mem_libraries_iff]
  apply hperm.eq_of_pairwise ?_ h.ordered (shelved_libraries hnames).ordered
  intro a b _ _ hab hba
  exact absurd hba (List.lt_asymm hab)

theorem tree_emptyFolder : emptyFolder.Tree := .folder List.nodup_nil (List.forall_mem_nil _)

/-- A path leads only to what is in the tree. -/
theorem Tree.walk {outer : List Node} {here : Node} (houter : ∀ node ∈ outer, node.Tree)
    (hhere : here.Tree) (h : Node.walk outer here path = .ok found) : found.Tree := by
  induction path generalizing outer here with
  | nil =>
    cases h
    exact hhere
  | cons component rest ih =>
    cases hhere with
    | file => cases h
    | @folder entries hnames hentries =>
      simp only [Node.walk, Node.entries, bind, Except.bind] at h
      split at h
      · exact ih houter (.folder hnames hentries) h
      · split at h
        · cases outer with
          | nil => exact ih houter tree_emptyFolder h
          | cons parent outer =>
            obtain ⟨hparent, houter⟩ := List.forall_mem_cons.1 houter
            exact ih houter hparent h
        · split at h
          next node hchild =>
            have hmem := (child?_eq_some_iff hnames).1 hchild
            exact ih (List.forall_mem_cons.2 ⟨.folder hnames hentries, houter⟩)
              (hentries _ hmem) h
          next => cases h

theorem Tree.find {root : Node} (hroot : root.Tree) (h : root.find path = .ok found) :
    found.Tree := by
  rw [Node.find.eq_def] at h
  split at h
  · cases h
  · exact walk (List.forall_mem_nil _) tree_emptyFolder h
  · exact walk (List.forall_mem_nil _) hroot h

section Loads

variable {root : Node} {path : Text} {outcome : Except LoadError (List Record)}

theorem loadFolder_eq_of_folder (hroot : root.Tree) (h : root.find path = .ok (.folder entries))
    (hfiles : Shelved entries files)
    (hreads : ReadsAll (fun entry => (entry.2.records = ·)) files outcome) :
    Store.loadFolder root path = outcome.map Store.ofList := by
  cases hroot.find h with
  | folder hnames =>
    rw [hfiles.eq_libraries hnames] at hreads
    rw [Store.loadFolder, Node.list, h, ← Store.foldlM_merge ?_ hreads]
    · rfl
    · rintro entry _ rfl
      exact Store.ofNode_eq_map entry.2

theorem Loads.load_eq (hroot : root.Tree) (h : root.Loads path outcome) :
    Store.load root path = outcome.map Store.ofList := by
  cases h with
  | missing h => simp only [Store.load, Store.loadFile, isFolder, Node.read, h]; rfl
  | file h =>
    rw [← Store.ofNode_eq_map]
    simp only [Store.load, Store.loadFile, isFolder, Node.read, h]
    rfl
  | folder h hfiles hreads =>
    rw [← loadFolder_eq_of_folder hroot h hfiles hreads]
    simp [Store.load, isFolder, h]

theorem exists_loads (hroot : root.Tree) (path : Text) : ∃ outcome, root.Loads path outcome := by
  cases h : root.find path with
  | error cause => exact ⟨_, .missing h⟩
  | ok node =>
    cases hroot.find h with
    | file => exact ⟨_, .file h⟩
    | folder hnames =>
      obtain ⟨outcome, hreads⟩ := exists_readsAll fun entry _ => ⟨_, rfl⟩
      exact ⟨outcome, .folder h (shelved_libraries hnames) hreads⟩

end Loads

end Node

namespace Engine.Plan

variable {root root' : Node} {p : Plan}

/-- An engine with templates at hand: only the knowledge is still to be loaded. -/
def equip (p : Plan) (root : Node) (generator : Generator) (templates? : Option TemplateSource) :
    Except EngineError Engine :=
  ((p.loadKnowledge root).mapError .ofLoadError).map fun knowledge? =>
    { templates?, knowledge?, generator, separator := p.separator }

theorem build_eq_equip {generator : Generator} {templates? : Option TemplateSource}
    (hgenerator : p.generator? = some generator) (h : p.loadTemplates root = .ok templates?) :
    p.build root = p.equip root generator templates? := by
  rw [build, hgenerator, h, equip]
  cases p.loadKnowledge root with
  | error cause => rfl
  | ok knowledge? => rfl

theorem build_eq_error {generator : Generator} (hgenerator : p.generator? = some generator)
    (h : p.loadTemplates root = .error cause) : p.build root = .error (.ofLoadError cause) := by
  rw [build, hgenerator, h]
  rfl

theorem build_of_source {generator : Generator} (hgenerator : p.generator? = some generator)
    (h : p.templates? = some source) : p.build root = p.equip root generator (some source) := by
  apply build_eq_equip hgenerator
  rw [loadTemplates, h]

/-- What the templates run with on an engine that was built: the generator and the separator of the
plan, the knowledge that was loaded for it, and the defaults that each template declares. -/
theorem setting_of_build {e : Engine} (h : p.build root = .ok e) :
    ∃ generator knowledge?, p.generator? = some generator ∧
      p.loadKnowledge root = .ok knowledge? ∧
      ∀ definitions, e.setting definitions = {
        generator
        source? := knowledge?
        defaults := Definition.defaults definitions
        separator := p.separator } := by
  cases hgenerator : p.generator? with
  | none =>
    rw [build, hgenerator] at h
    cases h
  | some generator =>
    cases htemplates : p.loadTemplates root with
    | error cause =>
      rw [build_eq_error hgenerator htemplates] at h
      cases h
    | ok templates? =>
      rw [build_eq_equip hgenerator htemplates, equip] at h
      cases hknowledge : p.loadKnowledge root with
      | error cause =>
        rw [hknowledge] at h
        cases h
      | ok knowledge? =>
        rw [hknowledge] at h
        cases h
        exact ⟨generator, knowledge?, rfl, rfl, fun _ => rfl⟩

theorem loadTemplates_eq_map (hroot : root.Tree) (htemplates : p.templates? = none)
    (hpaths : p.paths ≠ []) (h : ReadsAll root.Loads p.paths outcome) :
    p.loadTemplates root = outcome.map fun records => some (Store.ofList records).source := by
  have hload : loadPaths root p.paths = outcome.map Store.ofList :=
    Store.foldlM_merge (fun _ _ h => h.load_eq hroot) h
  simp only [loadTemplates, htemplates, hload]
  cases outcome with
  | error cause => rfl
  | ok records => rfl

/-- Libraries are loaded whole or not at all, and not in the order in which folders give their
entries. A folder gives a store with the records of its libraries, one library after another in the
order of their names, or the first failure. An engine without a template source gets one store with
the records of every path in turn, unless a path fails: then the first failure is all there is,
whatever the knowledge would give. With a template source, no path matters. -/
theorem build_libraries (hroot : root.Tree) (horder : root.Reordered root') (p : Plan)
    {generator : Generator} (hgenerator : p.generator? = some generator) (hpaths : p.paths ≠ []) :
    (∀ path, Store.loadFolder root' path = Store.loadFolder root path) ∧
    (∀ path entries, root.find path = .ok (.folder entries) →
      (∃ files outcome, Node.Shelved entries files ∧
        ReadsAll (fun entry => (entry.2.records = ·)) files outcome) ∧
      ∀ files outcome, Node.Shelved entries files →
        ReadsAll (fun entry => (entry.2.records = ·)) files outcome →
        Store.loadFolder root path = outcome.map Store.ofList) ∧
    p.build root' = p.build root ∧
    (p.templates? = none → (∃ outcome, ReadsAll root.Loads p.paths outcome) ∧
      (∀ records, ReadsAll root.Loads p.paths (.ok records) →
        p.build root = p.equip root generator (some (Store.ofList records).source)) ∧
      ∀ cause, ReadsAll root.Loads p.paths (.error cause) → ∀ knowledge? knowledgePath?,
        { p with knowledge?, knowledgePath? }.build root = .error (.ofLoadError cause)) ∧
    ∀ source, p.templates? = some source →
      p.build root = p.equip root generator (some source) ∧
      ∀ paths other, p.loadKnowledge other = p.loadKnowledge root →
        { p with paths }.build other = p.build root := by
  refine ⟨horder.loadFolder_eq, ?_, horder.build_eq p, ?_, ?_⟩
  · intro path entries h
    refine ⟨?_, fun files outcome hfiles hreads =>
      Node.loadFolder_eq_of_folder hroot h hfiles hreads⟩
    cases hroot.find h with
    | folder hnames =>
      obtain ⟨outcome, hreads⟩ := exists_readsAll fun entry _ => ⟨_, rfl⟩
      exact ⟨_, outcome, Node.shelved_libraries hnames, hreads⟩
  · intro htemplates
    refine ⟨exists_readsAll fun path _ => Node.exists_loads hroot path, ?_, ?_⟩
    · intro records h
      exact build_eq_equip hgenerator (loadTemplates_eq_map hroot htemplates hpaths h)
    · intro cause h knowledge? knowledgePath?
      let q : Plan := { p with knowledge?, knowledgePath? }
      have hload : q.loadTemplates root = _ := loadTemplates_eq_map hroot htemplates hpaths h
      exact build_eq_error hgenerator hload
  · intro source htemplates
    refine ⟨build_of_source hgenerator htemplates, ?_⟩
    intro paths other hknowledge
    let q : Plan := { p with paths }
    have hbuild : q.build other = q.equip other generator (some source) :=
      build_of_source hgenerator htemplates
    rw [build_of_source hgenerator htemplates, equip, ← hknowledge]
    exact hbuild

/-- Two libraries given the wrong way round beside another file, then a path that leads nowhere. -/
theorem build_libraries_overriding :
    let file (text : String) : Node := .file text.toUTF8
    let a := ("a.ron".toList, file "[(id: \"x\", name: \"x\", text: \"1\")]")
    let b := ("b.ron".toList, file "[(id: \"x\", name: \"y\", text: \"2\")]")
    let notes := ("notes".toList, file "-")
    let root := Node.folder [("lib".toList, .folder [b, notes, a])]
    let root' := Node.folder [("lib".toList, .folder [a, b, notes])]
    let s : Store :=
      { records := [{ id := "x".toList, name := "y".toList, text := "2".toList }] }
    let p : Plan := { paths := ["lib".toList], generator? := some (.scripted []) }
    let q : Plan := { p with paths := ["lib".toList, "gone".toList] }
    root.Tree ∧ root.Reordered root' ∧ p.generator? = some (.scripted []) ∧ p.paths ≠ [] ∧
    q.paths ≠ [] ∧ Store.loadFolder root' "lib".toList = .ok s ∧
    p.build root' =
      .ok { templates? := some s.source, generator := .scripted [], separator := ['\n'] } ∧
    q.build root' = .error (.system .notFound) := by
  intro file a b notes root root' s p q
  have hroot : root.Tree := by
    have hentries : ∀ entry ∈ [b, notes, a], entry.2.Tree := by
      intro entry hentry
      simp only [List.mem_cons, List.not_mem_nil, or_false] at hentry
      rcases hentry with rfl | rfl | rfl <;> exact .file
    refine .folder (by decide) ?_
    intro entry hentry
    rw [List.mem_singleton.1 hentry]
    exact .folder (by decide) hentries
  have horder : root.Reordered root' :=
    .inside [] (.perm (by decide) (((List.Perm.swap a notes []).cons b).trans (.swap a b [notes])))
  have hfiles : Node.Shelved [b, notes, a] [a, b] := by
    refine ⟨fun entry => ?_, by decide⟩
    simp only [List.mem_cons, List.not_mem_nil, or_false, ← extension?_eq_ron_iff]
    constructor
    · rintro (rfl | rfl)
      · exact ⟨.inr (.inr rfl), by decide⟩
      · exact ⟨.inl rfl, by decide⟩
    · rintro ⟨rfl | rfl | rfl, h⟩
      · exact .inr rfl
      · exact absurd h (by decide)
      · exact .inl rfl
  let record (name text : String) : Record :=
    { id := "x".toList, name := name.toList, text := text.toList }
  have hparts : List.Forall₂ (fun (entry : Text × Node) part => entry.2.records = .ok part) [a, b]
      [[record "x" "1"], [record "y" "2"]] := .cons rfl (.cons rfl .nil)
  have hreads : ReadsAll (fun entry : Text × Node => (entry.2.records = ·)) [a, b]
      (.ok [record "x" "1", record "y" "2"]) := .ok hparts
  have hlib : root.Loads "lib".toList (.ok [record "x" "1", record "y" "2"]) :=
    .folder rfl hfiles hreads
  obtain ⟨hfolder, hrecords, hbuild, hpaths, -⟩ :=
    build_libraries hroot horder p rfl (List.cons_ne_nil _ _)
  obtain ⟨-, -, hbuild', hpaths', -⟩ :=
    build_libraries hroot horder q rfl (List.cons_ne_nil _ _)
  refine ⟨hroot, horder, rfl, List.cons_ne_nil _ _, List.cons_ne_nil _ _, ?_, ?_, ?_⟩
  · rw [hfolder, (hrecords _ _ rfl).2 _ _ hfiles hreads]
    rfl
  · rw [hbuild, (hpaths rfl).2.1 _ (.ok (.cons hlib .nil))]
    rfl
  · rw [hbuild']
    refine (hpaths' rfl).2.2 _ (.error ["lib".toList] rfl ?_ (.missing rfl)) none none
    intro path hpath
    rw [List.mem_singleton.1 hpath]
    exact ⟨_, hlib⟩

end Engine.Plan

end DialogScript
