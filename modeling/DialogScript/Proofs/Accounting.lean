import Mathlib.Data.List.Induction
import DialogScript.Proofs.Retrieval
import DialogScript.Proofs.Turn

/-!
Runs on scripted replies, counted. How a run ends tells how many requests it made and how many
replies it left; and a run of more blocks goes on where the run of the first ones ended.
-/

namespace DialogScript

namespace Generator

/-- How many requests came between two logs, and how many of the replies went. -/
structure Spent (replies : List Text) (before after : List Conversation) (made used : Nat) :
    Prop where
  requests : after.length = before.length + made
  replies : remaining replies after + used = remaining replies before

theorem lt_of_scripted (h : scripted replies earlier conversation = .ok reply) :
    earlier.length < replies.length := by
  by_contra hle
  rw [scripted, left_eq_drop, List.drop_eq_nil_of_le (Nat.not_lt.1 hle)] at h
  cases h

theorem le_of_scripted (h : scripted replies earlier conversation = .error cause) :
    replies.length ≤ earlier.length := by
  simp only [scripted, left_eq_drop] at h
  split at h
  · cases h
  · rename_i hleft
    exact List.drop_eq_nil_iff.1 hleft

end Generator

/-- Only a reply that is kept as JSON can be refused. -/
theorem coerce_error (h : coerce b reply = .error e) :
    b.outputType = .json ∧ ∃ fault, e = .coercion b.output fault := by
  simp only [coerce] at h
  split at h
  · cases h
  · rename_i hjson
    split at h
    · cases h
    · rename_i fault _
      cases h
      exact ⟨hjson, fault, rfl⟩

theorem Setting.render_error {s : Setting} (h : (s.render bag lookups b).2 = .error e) :
    ∃ directive cause, e = .retrieval directive cause := by
  obtain ⟨asks, rest, -, -, hends⟩ := s.splice_asks bag lookups
    (tokenize (Placeholder.resolve bag s.defaults b.template))
  rw [render_eq_splice, splitKnowledge] at h
  generalize s.splice bag lookups _ = outcome at h hends
  cases hends with
  | done => cases h
  | refused =>
    cases h
    exact ⟨_, _, rfl⟩

/-- What an error says that stops a run at a block, with `done` blocks before it: which block it
names, which requests were made and which replies are left. -/
def RunError.Accounts (replies : List Text) (before after : List Conversation) (done : Nat)
    (b : Block) : RunError → Prop
  | noBlocks => False
  | retrieval _ _ => Generator.Spent replies before after done done
  | generation output _ =>
    output = b.output ∧ done = Generator.remaining replies before ∧
      Generator.Spent replies before after (done + 1) done
  | coercion output _ =>
    output = b.output ∧ b.outputType = .json ∧
      Generator.Spent replies before after (done + 1) (done + 1)

namespace Turn

theorem length_log (earlier : Log) (turns : List Turn) :
    (log earlier turns).requests.length = earlier.requests.length + turns.length := by
  rw [log, List.length_append, length_requests]

theorem requests_prefix (turns more : List Turn) : requests turns <+: requests (turns ++ more) := by
  induction more using List.reverseRecOn with
  | nil => exact ⟨[], by simp only [List.append_nil]⟩
  | append_singleton more t ih =>
    rw [← List.append_assoc, requests_concat]
    exact ih.trans (List.prefix_append _ _)

/-- Every turn has used one of the replies. -/
theorem Played.length_le {s : Setting}
    (h : Played { s with generator := .scripted replies } earlier seed turns) :
    turns.length ≤ Generator.remaining replies earlier.requests := by
  cases turns with
  | nil => exact Nat.zero_le _
  | cons t turns =>
    have hlast := (h turns.length (Nat.lt_succ_self _)).answered
    dsimp only at hlast
    have hlt := Generator.lt_of_scripted hlast
    rw [length_log, List.length_take_of_le (by simp)] at hlt
    rw [Generator.remaining_eq, List.length_cons]
    omega

theorem Fails.accounts {s : Setting}
    (h : Fails { s with generator := .scripted replies } earlier seed turns b asked e)
    (hplayed : Played { s with generator := .scripted replies } earlier seed turns) :
    e.Accounts replies earlier.requests ((log earlier turns).requests ++ asked) turns.length b := by
  have hused := hplayed.length_le
  have hlength := length_log earlier turns
  cases h with
  | rendering hrender =>
    obtain ⟨directive, cause, rfl⟩ := Setting.render_error hrender
    rw [List.append_nil]
    refine ⟨hlength, ?_⟩
    simp only [Generator.remaining_eq] at hused ⊢
    omega
  | generation _ hreply =>
    dsimp only at hreply
    have hle := Generator.le_of_scripted hreply
    refine ⟨rfl, ?_, ?_, ?_⟩
    all_goals
      simp only [Generator.remaining_eq, List.length_append, List.length_singleton] at hused ⊢
      omega
  | coercion _ hreply hcoerce =>
    dsimp only at hreply
    have hlt := Generator.lt_of_scripted hreply
    obtain ⟨hjson, fault, rfl⟩ := coerce_error hcoerce
    refine ⟨rfl, hjson, ?_, ?_⟩
    all_goals
      simp only [Generator.remaining_eq, List.length_append, List.length_singleton]
      omega

end Turn

namespace Setting

theorem runBlocks_append (s : Setting) (first : Bool) (log : Log) (p : Progress)
    (blocks more : List Block) :
    s.runBlocks first log p (blocks ++ more) =
      match s.runBlocks first log p blocks with
      | (log, .error e) => (log, .error e)
      | (log, .ok p) => s.runBlocks (first && blocks.isEmpty) log p more := by
  induction blocks generalizing first log p with
  | nil => rw [List.nil_append, runBlocks, List.isEmpty_nil, Bool.and_true]
  | cons b rest ih =>
    rw [List.cons_append, runBlocks, runBlocks, List.isEmpty_cons, Bool.and_false]
    rcases s.runBlock first log p b with ⟨log', e | p'⟩
    · rfl
    · exact ih false log' p'

theorem runBlocks_start (s : Setting) (earlier : Log) (seed : Bag) (blocks : List Block) :
    ∃ turns, Turn.Played s earlier seed turns ∧
      ((turns.map Turn.block = blocks ∧
        s.runBlocks true earlier { bag := seed } blocks =
          (Turn.log earlier turns, .ok (Turn.progress seed turns))) ∨
      ∃ b rest asked made e, turns.map Turn.block ++ b :: rest = blocks ∧
        Turn.Fails s earlier seed turns b asked e ∧
        s.runBlocks true earlier { bag := seed } blocks =
          (⟨(Turn.log earlier turns).requests ++ asked,
            (Turn.log earlier turns).lookups ++ made⟩, .error e)) := by
  have h := runBlocks_cases (Turn.played_nil s earlier seed) blocks
  rw [Turn.log_nil] at h
  exact h

theorem run_of_error {s : Setting} (h : blocks ≠ [])
    (hr : s.runBlocks true earlier { bag := seed } blocks = (after, .error e)) :
    s.run earlier blocks seed = (after, .error e) := by
  rw [run, List.getLast?_eq_some_getLast h]
  simp only [hr]

theorem run_of_ok {s : Setting} {p : Progress} (h : blocks ≠ [])
    (hr : s.runBlocks true earlier { bag := seed } blocks = (after, .ok p)) :
    s.run earlier blocks seed =
      (after, .ok ⟨p.bag, (blocks.getLast h).output, p.transcript, p.trace⟩) := by
  rw [run, List.getLast?_eq_some_getLast h]
  simp only [hr]

/-- How a run of more blocks goes on from a run: one that fails is all of it. -/
def Continues : Log × Except RunError RunResult → Log × Except RunError RunResult → Prop
  | (after, .error e), whole => whole = (after, .error e)
  | (after, .ok result), (later, whole) =>
    after.requests <+: later.requests ∧
      ∀ result', whole = .ok result' → result.trace <+: result'.trace

theorem run_append (s : Setting) (earlier : Log) (seed : Bag) {blocks : List Block}
    (h : blocks ≠ []) (more : List Block) :
    Continues (s.run earlier blocks seed) (s.run earlier (blocks ++ more) seed) := by
  have hmore : blocks ++ more ≠ [] := List.append_ne_nil_of_left_ne_nil h more
  have hwhole := s.runBlocks_append true earlier { bag := seed } blocks more
  obtain ⟨turns, hplayed, ⟨rfl, hok⟩ | ⟨b, rest, asked, made, e, -, -, herr⟩⟩ :=
    s.runBlocks_start earlier seed blocks
  · rw [hok, Bool.true_and, List.isEmpty_map] at hwhole
    rw [run_of_ok h hok]
    obtain ⟨later, -, ⟨-, hlater⟩ | ⟨b, rest, asked, made, e, -, -, hlater⟩⟩ :=
      runBlocks_cases hplayed more
    · rw [run_of_ok hmore (hwhole.trans hlater)]
      refine ⟨?_, ?_⟩
      · exact (List.prefix_append_right_inj _).2 (Turn.requests_prefix turns later)
      · rintro _ ⟨⟩
        rw [Turn.progress, Turn.progress, List.map_append]
        exact List.prefix_append _ _
    · rw [run_of_error hmore (hwhole.trans hlater)]
      refine ⟨?_, ?_⟩
      · rw [Turn.log, Turn.log, List.append_assoc]
        apply (List.prefix_append_right_inj _).2
        exact (Turn.requests_prefix turns later).trans (List.prefix_append _ _)
      · rintro _ ⟨⟩
  · rw [herr] at hwhole
    rw [run_of_error h herr, run_of_error hmore hwhole]
    rfl

/-- A run on scripted replies either uses a reply for each block, or stops at a block behind those
that were rendered, answered and coerced, and its error accounts for what was asked by then. A run
of more blocks goes on from there. -/
theorem run_scripted (s : Setting) (replies : List Text) (earlier : Log) (seed : Bag)
    {blocks : List Block} (h : blocks ≠ []) :
    let s := { s with generator := .scripted replies }
    (∃ turns : List Turn, Turn.Played s earlier seed turns ∧
      match s.run earlier blocks seed with
      | (after, .ok _) =>
        turns.map Turn.block = blocks ∧ after = Turn.log earlier turns ∧
        Generator.Spent replies earlier.requests after.requests blocks.length blocks.length
      | (after, .error e) =>
        ∃ b rest asked, turns.map Turn.block ++ b :: rest = blocks ∧
          Turn.Fails s earlier seed turns b asked e ∧
          after.requests = (Turn.log earlier turns).requests ++ asked ∧
          e.Accounts replies earlier.requests after.requests turns.length b) ∧
    ∀ more, Continues (s.run earlier blocks seed) (s.run earlier (blocks ++ more) seed) := by
  intro s
  refine ⟨?_, s.run_append earlier seed h⟩
  obtain ⟨turns, hplayed, ⟨rfl, hok⟩ | ⟨b, rest, asked, made, e, hblocks, hfails, herr⟩⟩ :=
    s.runBlocks_start earlier seed blocks
  · refine ⟨turns, hplayed, ?_⟩
    rw [run_of_ok h hok]
    have hused := hplayed.length_le
    have hlength := Turn.length_log earlier turns
    rw [List.length_map]
    refine ⟨rfl, rfl, hlength, ?_⟩
    simp only [Generator.remaining_eq] at hused ⊢
    omega
  · refine ⟨turns, hplayed, ?_⟩
    rw [run_of_error h herr]
    exact ⟨b, rest, asked, hblocks, hfails, rfl, hfails.accounts hplayed⟩

/-- A reply that is not JSON stops the run at the block that wants it so, with one reply left, and
no block behind it changes that. -/
theorem run_scripted_not_json :
    let replies : List Text := ["teal".toList, "calm".toList, "warm".toList]
    let s : Setting := { generator := .scripted replies }
    let colour : Block := ⟨"A colour?".toList, "colour".toList, false, .text⟩
    let mood : Block := ⟨"A mood?".toList, "mood".toList, false, .json⟩
    [colour, mood] ≠ [] ∧ ∃ after fault,
      s.run {} [colour, mood] [] = (after, .error (.coercion "mood".toList fault)) ∧
      after.requests.length = 2 ∧ Generator.remaining replies after.requests = 1 ∧
      ∀ more, s.run {} ([colour, mood] ++ more) [] =
        (after, .error (.coercion "mood".toList fault)) := by
  intro replies s colour mood
  have hne : [colour, mood] ≠ [] := List.cons_ne_nil _ _
  obtain ⟨⟨turns, -, hends⟩, hmore⟩ := run_scripted s replies {} [] hne
  have hrun : ∃ after fault, s.run {} [colour, mood] [] =
      (after, .error (.coercion "mood".toList fault)) := ⟨_, _, rfl⟩
  obtain ⟨after, fault, hrun⟩ := hrun
  rw [hrun] at hends hmore
  obtain ⟨b, rest, asked, hblocks, -, -, hname, -, hrequests, hleft⟩ := hends
  have hdone : turns.length = 1 := by
    have hlength := congrArg List.length hblocks
    simp only [List.length_append, List.length_map, List.length_cons, List.length_nil] at hlength
    cases turns with
    | nil =>
      obtain ⟨rfl, -⟩ := List.cons.inj hblocks
      cases hname
    | cons t turns =>
      rw [List.length_cons] at hlength ⊢
      omega
  refine ⟨hne, after, fault, hrun, ?_, ?_, hmore⟩
  · rw [hrequests, hdone]
    rfl
  · rw [hdone] at hleft
    exact Nat.add_right_cancel hleft

end Setting

end DialogScript
