import Mathlib.Data.List.Forall2
import DialogScript.Proofs.Accounting

/-!
Forgetting changes the conversation and nothing else. Two runs of blocks that differ only in which
of them are forgotten go side by side: each step asks, keeps and fails alike.
-/

namespace DialogScript

/-- Blocks that differ at most in whether they are forgotten. -/
structure Block.SameButForget (b b' : Block) : Prop where
  template : b'.template = b.template
  output : b'.output = b.output
  outputType : b'.outputType = b.outputType

/-- Logs of the same lookups and of equally many requests. Each request of a run that forgets more
holds some of the messages of the other's, in their order. -/
structure Log.Beside (forgetsMore : Prop) (log log' : Log) : Prop where
  lookups : log'.lookups = log.lookups
  count : log'.requests.length = log.requests.length
  requests : forgetsMore → List.Forall₂ List.Sublist log'.requests log.requests

structure Progress.Beside (forgetsMore : Prop) (p p' : Progress) : Prop where
  bag : p'.bag = p.bag
  messages : p'.trace.map TraceEntry.messages = p.trace.map TraceEntry.messages
  transcript : forgetsMore → p'.transcript.Sublist p.transcript

structure RunResult.Beside (forgetsMore : Prop) (r r' : RunResult) : Prop where
  responses : r'.responses = r.responses
  lastOutput : r'.lastOutput = r.lastOutput
  traceMessages : r'.trace.map TraceEntry.messages = r.trace.map TraceEntry.messages
  messages : forgetsMore → r'.messages.Sublist r.messages

/-- The same error, or two results that are related. -/
inductive SameOutcome (R : α → α → Prop) : Except ε α → Except ε α → Prop
  | error (e : ε) : SameOutcome R (.error e) (.error e)
  | ok (h : R a a') : SameOutcome R (.ok a) (.ok a')

theorem Block.SameButForget.map_output {blocks blocks' : List Block}
    (h : List.Forall₂ SameButForget blocks blocks') :
    blocks'.map Block.output = blocks.map Block.output := by
  induction h with
  | nil => rfl
  | cons hb _ ih => rw [List.map_cons, List.map_cons, hb.output, ih]

theorem Block.SameButForget.output_getLast {blocks blocks' : List Block}
    (h : List.Forall₂ SameButForget blocks blocks') (hne : blocks ≠ []) (hne' : blocks' ≠ []) :
    (blocks'.getLast hne').output = (blocks.getLast hne).output := by
  have houtputs := congrArg List.getLast? (map_output h)
  rw [List.getLast?_map, List.getLast?_map, List.getLast?_eq_some_getLast hne,
    List.getLast?_eq_some_getLast hne'] at houtputs
  exact Option.some.inj houtputs

theorem coerce_congr {b b' : Block} (h : b.SameButForget b') (reply : Text) :
    coerce b' reply = coerce b reply := by
  rw [coerce, coerce, h.outputType, h.output]

/-- What is left of a conversation keeps its place when more is forgotten. -/
theorem sublist_of_forget {t t' : Conversation} (h : t'.Sublist t)
    (hforget : forget = true → forget' = true) (added : Conversation) :
    (if forget' then t' else t' ++ added).Sublist (if forget then t else t ++ added) := by
  cases forget with
  | true =>
    rw [hforget rfl]
    exact h
  | false =>
    cases forget' with
    | true => exact h.trans (List.sublist_append_left t added)
    | false => exact h.append_right added

theorem Log.Beside.ask {log log' : Log} (h : Log.Beside forgetsMore log log')
    (hr : forgetsMore → request'.Sublist request) (lookups : List Filters) :
    Log.Beside forgetsMore ⟨log.requests ++ [request], lookups⟩
      ⟨log'.requests ++ [request'], lookups⟩ := by
  refine ⟨rfl, ?_, ?_⟩
  · rw [List.length_append, List.length_append, h.count]
    rfl
  · intro hmore
    exact List.rel_append (h.requests hmore) (.cons (hr hmore) .nil)

namespace Setting

theorem render_congr (s : Setting) (bag : Bag) (lookups : List Filters) {b b' : Block}
    (h : b'.template = b.template) : s.render bag lookups b' = s.render bag lookups b := by
  rw [render, render, h]

theorem conclude_beside (hp : Progress.Beside forgetsMore p p') (hb : b.SameButForget b')
    (hforget : forgetsMore → b.forget = true → b'.forget = true) (messages : List Message)
    (reply : Text) :
    SameOutcome (Progress.Beside forgetsMore) (conclude p b messages reply)
      (conclude p' b' messages reply) := by
  rw [conclude, conclude, coerce_congr hb]
  cases coerce b reply with
  | error e => exact .error e
  | ok value =>
    apply SameOutcome.ok
    refine ⟨?_, ?_, ?_⟩
    · rw [hp.bag, hb.output]
    · rw [List.map_append, List.map_append, hp.messages]
      rfl
    · intro hmore
      rw [List.take_left, List.take_left]
      exact sublist_of_forget (hp.transcript hmore) (hforget hmore) _

variable (s : Setting) (replies : List Text)

theorem runBlock_beside (first : Bool) (hlog : Log.Beside forgetsMore log log')
    (hp : Progress.Beside forgetsMore p p') (hb : b.SameButForget b')
    (hforget : forgetsMore → b.forget = true → b'.forget = true) :
    let s := { s with generator := .scripted replies }
    Log.Beside forgetsMore (s.runBlock first log p b).1 (s.runBlock first log' p' b').1 ∧
    SameOutcome (Progress.Beside forgetsMore) (s.runBlock first log p b).2
      (s.runBlock first log' p' b').2 := by
  intro s
  have hrender : s.render p'.bag log'.lookups b' = s.render p.bag log.lookups b := by
    rw [hp.bag, hlog.lookups]
    exact s.render_congr _ _ hb.template
  rw [runBlock, runBlock, hrender]
  rcases s.render p.bag log.lookups b with ⟨lookups, e | text⟩
  · exact ⟨⟨rfl, hlog.count, hlog.requests⟩, .error e⟩
  · have hreply : s.generator log'.requests (p'.transcript ++ blockMessages first text) =
        s.generator log.requests (p.transcript ++ blockMessages first text) := by
      simp only [s, Generator.scripted, Generator.left_eq_drop, hlog.count]
    have hasked := hlog.ask (fun hmore => (hp.transcript hmore).append_right
      (blockMessages first text)) lookups
    dsimp only
    rw [hreply]
    refine ⟨hasked, ?_⟩
    cases s.generator log.requests (p.transcript ++ blockMessages first text) with
    | error cause =>
      rw [hb.output]
      exact .error _
    | ok reply => exact conclude_beside hp hb hforget _ reply

theorem runBlocks_beside (first : Bool) (hlog : Log.Beside forgetsMore log log')
    (hp : Progress.Beside forgetsMore p p') (h : List.Forall₂ Block.SameButForget blocks blocks')
    (hforget : forgetsMore →
      List.Forall₂ (fun b b' => b.forget = true → b'.forget = true) blocks blocks') :
    let s := { s with generator := .scripted replies }
    Log.Beside forgetsMore (s.runBlocks first log p blocks).1
      (s.runBlocks first log' p' blocks').1 ∧
    SameOutcome (Progress.Beside forgetsMore) (s.runBlocks first log p blocks).2
      (s.runBlocks first log' p' blocks').2 := by
  intro s
  -- on the pairs of blocks that are left, behind any two states side by side
  induction h generalizing first log log' p p' with
  | nil => exact ⟨hlog, .ok hp⟩
  | @cons b b' rest rest' hb _ ih =>
    obtain ⟨hlog, houtcome⟩ := runBlock_beside s replies first hlog hp hb
      fun hmore => (List.forall₂_cons.1 (hforget hmore)).1
    rw [runBlocks, runBlocks]
    generalize s.runBlock first log p b = done at hlog houtcome
    generalize s.runBlock first log' p' b' = done' at hlog houtcome
    obtain ⟨log, outcome⟩ := done
    obtain ⟨log', outcome'⟩ := done'
    cases houtcome with
    | error e => exact ⟨hlog, .error e⟩
    | ok hp => exact ih false hlog hp fun hmore => (List.forall₂_cons.1 (hforget hmore)).2

/-- Of two runs on the same replies whose blocks differ only in which of them are forgotten, the
lookups, the number of requests, the outcome, the responses and the messages of the trace are the
same. If the second forgets all that the first does, each of its requests and its final messages
hold some of the messages of the first's, in their order. -/
theorem run_sameButForget (earlier : Log) (seed : Bag)
    (h : List.Forall₂ Block.SameButForget blocks blocks') :
    let s := { s with generator := .scripted replies }
    let forgetsMore := List.Forall₂ (fun b b' => b.forget = true → b'.forget = true) blocks blocks'
    Log.Beside forgetsMore (s.run earlier blocks seed).1 (s.run earlier blocks' seed).1 ∧
    SameOutcome (RunResult.Beside forgetsMore) (s.run earlier blocks seed).2
      (s.run earlier blocks' seed).2 := by
  intro s forgetsMore
  have hstart : Log.Beside forgetsMore earlier earlier :=
    ⟨rfl, rfl, fun _ => List.forall₂_same.2 fun _ _ => List.Sublist.refl _⟩
  cases h with
  | nil => exact ⟨hstart, .error RunError.noBlocks⟩
  | @cons b b' rest rest' hb hrest =>
    have hp : Progress.Beside forgetsMore { bag := seed } { bag := seed } :=
      ⟨rfl, rfl, fun _ => List.Sublist.refl _⟩
    obtain ⟨hlog, houtcome⟩ := runBlocks_beside s replies true hstart hp (.cons hb hrest) id
    generalize hdone : runBlocks _ true earlier _ (b :: rest) = done at hlog houtcome
    generalize hdone' : runBlocks _ true earlier _ (b' :: rest') = done' at hlog houtcome
    obtain ⟨after, outcome⟩ := done
    obtain ⟨after', outcome'⟩ := done'
    cases houtcome with
    | error e =>
      rw [run_of_error (List.cons_ne_nil _ _) hdone, run_of_error (List.cons_ne_nil _ _) hdone']
      exact ⟨hlog, .error e⟩
    | ok hp =>
      rw [run_of_ok (List.cons_ne_nil _ _) hdone, run_of_ok (List.cons_ne_nil _ _) hdone']
      have hlast := Block.SameButForget.output_getLast (.cons hb hrest) (List.cons_ne_nil _ _)
        (List.cons_ne_nil _ _)
      exact ⟨hlog, .ok ⟨hp.bag, hlast, hp.messages, hp.transcript⟩⟩

/-- The law where only the second run forgets the block whose reply the next one uses. -/
theorem run_sameButForget_first :
    let s : Setting := { generator := .echo [] }
    let replies : List Text := ["teal".toList, "calm".toList]
    let first (forget : Bool) : Block := ⟨"A colour?".toList, "colour".toList, forget, .text⟩
    let next : Block := .trailing ("And ".toList ++ (Token.tag "colour".toList).raw ++ ['?'])
    let ran (forget : Bool) :=
      { s with generator := .scripted replies }.run {} [first forget, next] []
    List.Forall₂ Block.SameButForget [first false, next] [first true, next] ∧
    ∃ after r after' r', ran false = (after, .ok r) ∧ ran true = (after', .ok r') ∧
      after.requests.map List.length = [1, 3] ∧ after'.requests.map List.length = [1, 1] ∧
      List.Forall₂ List.Sublist after'.requests after.requests ∧
      r'.responses = r.responses ∧ r'.messages.Sublist r.messages := by
  intro s replies first next ran
  have h : List.Forall₂ Block.SameButForget [first false, next] [first true, next] :=
    .cons ⟨rfl, rfl, rfl⟩ (.cons ⟨rfl, rfl, rfl⟩ .nil)
  have hmore : List.Forall₂ (fun b b' => b.forget = true → b'.forget = true)
      [first false, next] [first true, next] := .cons (fun _ => rfl) (.cons id .nil)
  have hkept : ∃ after r, ran false = (after, .ok r) ∧
      after.requests.map List.length = [1, 3] := ⟨_, _, rfl, rfl⟩
  have hforgotten : ∃ after r, ran true = (after, .ok r) ∧
      after.requests.map List.length = [1, 1] := ⟨_, _, rfl, rfl⟩
  obtain ⟨after, r, hran, hlengths⟩ := hkept
  obtain ⟨after', r', hran', hlengths'⟩ := hforgotten
  obtain ⟨hlog, houtcome⟩ := run_sameButForget s replies {} [] h
  change Log.Beside _ (ran false).1 (ran true).1 at hlog
  change SameOutcome _ (ran false).2 (ran true).2 at houtcome
  rw [hran, hran'] at hlog houtcome
  obtain - | hbeside := houtcome
  exact ⟨h, after, r, after', r', hran, hran', hlengths, hlengths', hlog.requests hmore,
    hbeside.responses, hbeside.messages hmore⟩

end Setting

end DialogScript
