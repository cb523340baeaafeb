import DialogScript.Engine
import DialogScript.Proofs.Accounting
import DialogScript.Proofs.Precheck

/-!
What stands between a request and the first message that is sent for it: the record is looked up,
its required names and its output names are checked, and only then is anything asked.
-/

namespace DialogScript

/-- The record is the store's first that the reference names. -/
def Store.Finds (s : Store) (reference : Reference) (record : Record) : Prop :=
  ∃ before later, s.records = before ++ record :: later ∧ record.isNamedBy reference = true ∧
    ∀ r ∈ before, r.isNamedBy reference = false

theorem Store.finds_of_get? {s : Store} (h : s.get? reference = some record) :
    s.Finds reference record := by
  obtain ⟨hnamed, before, later, hrecords, hbefore⟩ := List.find?_eq_some_iff_append.1 h
  refine ⟨before, later, hrecords, hnamed, ?_⟩
  intro r hr
  rw [← Bool.not_eq_true']
  exact hbefore r hr

theorem Store.notNamed_of_get? {s : Store} (h : s.get? reference = none) :
    ∀ record ∈ s.records, record.isNamedBy reference = false := by
  intro record hr
  rw [← Bool.not_eq_true]
  exact List.find?_eq_none.1 h record hr

theorem Turn.Fails.ne_noBlocks {s : Setting} (h : Fails s earlier seed turns b asked e) :
    e ≠ .noBlocks := by
  cases h with
  | rendering hrender =>
    obtain ⟨directive, cause, rfl⟩ := Setting.render_error hrender
    intro h
    cases h
  | generation =>
    intro h
    cases h
  | coercion _ _ hcoerce =>
    obtain ⟨-, fault, rfl⟩ := coerce_error hcoerce
    intro h
    cases h

theorem Setting.run_ne_noBlocks (s : Setting) (earlier : Log) (seed : Bag) (h : blocks ≠ []) :
    (s.run earlier blocks seed).2 ≠ .error .noBlocks := by
  obtain ⟨turns, -, ⟨-, hok⟩ | ⟨b, rest, asked, made, e, -, hfails, herr⟩⟩ :=
    s.runBlocks_start earlier seed blocks
  · rw [run_of_ok h hok]
    intro h
    cases h
  · rw [run_of_error h herr]
    intro h
    exact hfails.ne_noBlocks (Except.error.inj h)

theorem ne_nil_of_parseBlocks (h : parseBlocks t = .ok blocks) : blocks ≠ [] := by
  obtain ⟨front, last, hcut⟩ := exists_trailing (tokenize t)
  rw [parseBlocks_eq_cut h, hcut]
  exact List.concat_ne_nil _ _

namespace Engine

/-- How the run of a text comes out: by the first check that fails, with nothing asked until all
have passed. -/
inductive Runs (e : Engine) (log : Log) (text : Text) (definitions : List Definition)
    (supplied : Table Text) : Log × Except EngineError RunResult → Prop
  | unmet (split : definitions = before ++ d :: later)
      (met : ∀ d' ∈ before, ¬ d'.Unmet supplied) (unmet : d.Unmet supplied) :
      Runs e log text definitions supplied (log, .error (.placeholder (.missingRequired d.name)))
  | repeated (met : ∀ d ∈ definitions, ¬ d.Unmet supplied)
      (repeats : RepeatsFirst ((Block.cut (tokenize text)).map Block.output) name) :
      Runs e log text definitions supplied (log, .error (.template (.duplicateOutput name)))
  | executed (met : ∀ d ∈ definitions, ¬ d.Unmet supplied)
      (parsed : parseBlocks text = .ok blocks) (distinct : (blocks.map Block.output).Nodup)
      (ran : (e.setting definitions).run log blocks (supplied.mapValues .text) = (after, outcome))
      (hasBlocks : outcome ≠ .error .noBlocks) :
      Runs e log text definitions supplied (after, outcome.mapError .run)

/-- How a request is served by an engine with a store or without one: by running the text of the
first record that it names with that record's own definitions. -/
inductive Serves (e : Engine) (log : Log) (r : Request) :
    Option Store → Log × Except EngineError RunResult → Prop
  | noStore : Serves e log r none (log, .error .missingStore)
  | notFound (notNamed : ∀ record ∈ store.records, record.isNamedBy r.template = false) :
      Serves e log r (some store) (log, .error (.templateNotFound r.template))
  | found (finds : store.Finds r.template record) :
      Serves e log r (some store) (e.run log record.text record.placeholders r.placeholders)

theorem run_gates (e : Engine) (log : Log) (text : Text) (definitions : List Definition)
    (supplied : Table Text) :
    e.Runs log text definitions supplied (e.run log text definitions supplied) := by
  rw [run]
  cases hvalid : validateRequired definitions supplied with
  | error cause =>
    obtain ⟨before, d, later, hsplit, hmet, hunmet, rfl⟩ := validateRequired_error hvalid
    exact .unmet hsplit hmet hunmet
  | ok =>
    have hmet := validateRequired_ok hvalid
    cases hparse : parseBlocks text with
    | error cause =>
      obtain ⟨name, rfl, hrepeats⟩ := repeatsFirst_of_parseBlocks hparse
      exact .repeated hmet hrepeats
    | ok blocks =>
      have hne := (e.setting definitions).run_ne_noBlocks log (supplied.mapValues .text)
        (ne_nil_of_parseBlocks hparse)
      exact .executed hmet hparse (nodup_of_parseBlocks hparse) rfl hne

theorem Runs.ne_noBlocks {e : Engine} (h : e.Runs log text definitions supplied outcome) :
    outcome.2 ≠ .error (.run .noBlocks) := by
  cases h with
  | unmet =>
    intro h
    cases h
  | repeated =>
    intro h
    cases h
  | @executed _ after outcome _ _ _ _ hne =>
    cases outcome with
    | ok result =>
      intro h
      cases h
    | error cause =>
      rintro ⟨⟩
      exact hne rfl

theorem runRequest_of_store {e : Engine} {store : Store} (h : e.templates? = some store.source)
    (log : Log) (r : Request) :
    e.runRequest log r =
      match store.get? r.template with
      | none => (log, .error (.templateNotFound r.template))
      | some record => e.run log record.text record.placeholders r.placeholders := by
  rw [runRequest, template, h]
  simp only [Store.source, Store.text?, Store.placeholders]
  cases store.get? r.template <;> rfl

theorem Serves.ne_noBlocks {e : Engine} (h : e.Serves log r store? outcome) :
    outcome.2 ≠ .error (.run .noBlocks) := by
  cases h with
  | noStore =>
    intro h
    cases h
  | notFound =>
    intro h
    cases h
  | found => exact (e.run_gates log _ _ _).ne_noBlocks

/-- A request is answered by the first of its checks that fails, in one order: the store, the
record, the required names, the output names, and only then the run. Up to there nothing is logged,
and no text is without blocks. -/
theorem runRequest_gates (e : Engine) (store? : Option Store) (log : Log) (r : Request) :
    let e := { e with templates? := store?.map Store.source }
    e.Serves log r store? (e.runRequest log r) ∧
    (e.runRequest log r).2 ≠ .error (.run .noBlocks) ∧
    ∀ text definitions supplied,
      e.Runs log text definitions supplied (e.run log text definitions supplied) ∧
      (e.run log text definitions supplied).2 ≠ .error (.run .noBlocks) := by
  intro e
  have hserves : e.Serves log r store? (e.runRequest log r) := by
    cases store? with
    | none => exact .noStore
    | some store =>
      rw [runRequest_of_store rfl]
      cases hget : store.get? r.template with
      | none => exact .notFound (Store.notNamed_of_get? hget)
      | some record => exact .found (Store.finds_of_get? hget)
  refine ⟨hserves, hserves.ne_noBlocks, ?_⟩
  intro text definitions supplied
  have hruns := e.run_gates log text definitions supplied
  exact ⟨hruns, hruns.ne_noBlocks⟩

example :
    let e : Engine := { generator := .echo [] }
    let text := (Token.tag "#break output=a".toList).raw ++ (Token.tag "#break output=a".toList).raw
    e.run {} text [.mandatory "x".toList] [] =
      ({}, .error (.placeholder (.missingRequired "x".toList))) ∧
    e.run {} text [] [] = ({}, .error (.template (.duplicateOutput "a".toList))) := ⟨rfl, rfl⟩

end Engine

end DialogScript
