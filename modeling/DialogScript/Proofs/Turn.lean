import DialogScript.Run

/-!
A run told turn by turn. What a block says, asks and is answered follows from the turns before it;
the transcript, the trace and the bag of a run are read off its turns.
-/

namespace DialogScript

/-- One block's part in a run. -/
structure Turn where
  block : Block
  lookups : List Filters
  own : List Message
  reply : Text
  value : Value

namespace Turn

/-- What the turn adds to the conversation, said also of a turn that is forgotten. -/
def messages (t : Turn) : List Message := t.own ++ [⟨.assistant, t.reply⟩]

def entry (t : Turn) : TraceEntry :=
  ⟨t.block.output, t.block.forget, t.block.outputType, t.messages⟩

/-- The seed with the values of some turns written to it in order. -/
def bag (seed : Bag) (turns : List Turn) : Bag :=
  turns.foldl (fun bag t => bag.insert t.block.output t.value) seed

/-- What is left of some turns in the conversation. -/
def transcript (turns : List Turn) : Conversation :=
  (turns.filter fun t => !t.block.forget).flatMap messages

/-- What each turn sends: all that is left of the turns before it, and its own messages. -/
def requests (turns : List Turn) : List Conversation :=
  turns.mapIdx fun k t => transcript (turns.take k) ++ t.own

/-- The log after some turns that began with an earlier one. -/
def log (earlier : Log) (turns : List Turn) : Log where
  requests := earlier.requests ++ requests turns
  lookups := earlier.lookups ++ turns.flatMap lookups

def progress (seed : Bag) (turns : List Turn) : Progress where
  bag := bag seed turns
  transcript := transcript turns
  trace := turns.map entry

theorem bag_concat (seed : Bag) (turns : List Turn) (t : Turn) :
    bag seed (turns ++ [t]) = (bag seed turns).insert t.block.output t.value := by
  simp only [bag, List.foldl_append, List.foldl_cons, List.foldl_nil]

theorem transcript_concat (turns : List Turn) (t : Turn) :
    transcript (turns ++ [t]) =
      if t.block.forget then transcript turns else transcript turns ++ t.messages := by
  cases h : t.block.forget <;> simp [transcript, h]

theorem requests_concat (turns : List Turn) (t : Turn) :
    requests (turns ++ [t]) = requests turns ++ [transcript turns ++ t.own] := by
  have earlier : turns.mapIdx (fun k u => transcript ((turns ++ [t]).take k) ++ u.own) =
      turns.mapIdx (fun k u => transcript (turns.take k) ++ u.own) := by
    rw [List.mapIdx_eq_mapIdx_iff]
    intro k hk
    rw [List.take_append_of_le_length (Nat.le_of_lt hk)]
  rw [requests, List.mapIdx_concat, earlier, List.take_left' rfl]
  rfl

theorem log_nil (earlier : Log) : log earlier [] = earlier := by
  simp only [log, requests, List.mapIdx_nil, List.flatMap_nil, List.append_nil]

theorem log_concat (earlier : Log) (turns : List Turn) (t : Turn) :
    log earlier (turns ++ [t]) =
      ⟨(log earlier turns).requests ++ [transcript turns ++ t.own],
        (log earlier turns).lookups ++ t.lookups⟩ := by
  simp only [log, requests_concat, List.flatMap_append, List.flatMap_singleton, List.append_assoc]

theorem progress_concat (seed : Bag) (turns : List Turn) (t : Turn) :
    progress seed (turns ++ [t]) =
      ⟨(bag seed turns).insert t.block.output t.value,
        if t.block.forget then transcript turns else transcript turns ++ t.messages,
        turns.map entry ++ [t.entry]⟩ := by
  simp only [progress, bag_concat, transcript_concat, List.map_append, List.map_singleton]

theorem length_requests (turns : List Turn) : (requests turns).length = turns.length := by
  rw [requests, List.length_mapIdx]

theorem transcript_eq_filter_entry (turns : List Turn) :
    transcript turns =
      ((turns.map entry).filter fun e => !e.forget).flatMap TraceEntry.messages := by
  rw [transcript, List.filter_map, List.flatMap_map]
  rfl

/-- The turn is the one that some turns before it lead to. -/
structure Follows (s : Setting) (earlier : Log) (seed : Bag) (turns : List Turn) (t : Turn) :
    Prop where
  rendered : ∃ text,
    s.render (bag seed turns) (log earlier turns).lookups t.block =
      ((log earlier turns).lookups ++ t.lookups, .ok text) ∧
    t.own = blockMessages turns.isEmpty text
  answered : s.generator (log earlier turns).requests (transcript turns ++ t.own) = .ok t.reply
  coerced : coerce t.block t.reply = .ok t.value

/-- Each of the turns follows from those before it. -/
def Played (s : Setting) (earlier : Log) (seed : Bag) (turns : List Turn) : Prop :=
  ∀ k (hk : k < turns.length), Follows s earlier seed (turns.take k) turns[k]

/-- How a block fails behind some turns, and what it has asked the generator by then. -/
inductive Fails (s : Setting) (earlier : Log) (seed : Bag) (turns : List Turn) (b : Block) :
    List Conversation → RunError → Prop
  | rendering {e} :
      (s.render (bag seed turns) (log earlier turns).lookups b).2 = .error e →
      Fails s earlier seed turns b [] e
  | generation {text cause} :
      (s.render (bag seed turns) (log earlier turns).lookups b).2 = .ok text →
      s.generator (log earlier turns).requests
        (transcript turns ++ blockMessages turns.isEmpty text) = .error cause →
      Fails s earlier seed turns b [transcript turns ++ blockMessages turns.isEmpty text]
        (.generation b.output cause)
  | coercion {text reply e} :
      (s.render (bag seed turns) (log earlier turns).lookups b).2 = .ok text →
      s.generator (log earlier turns).requests
        (transcript turns ++ blockMessages turns.isEmpty text) = .ok reply →
      coerce b reply = .error e →
      Fails s earlier seed turns b [transcript turns ++ blockMessages turns.isEmpty text] e

theorem played_nil (s : Setting) (earlier : Log) (seed : Bag) : Played s earlier seed [] := by
  intro k hk
  cases hk

theorem Played.concat {s : Setting} (h : Played s earlier seed turns)
    (ht : Follows s earlier seed turns t) : Played s earlier seed (turns ++ [t]) := by
  intro k hk
  by_cases hlt : k < turns.length
  · rw [List.take_append_of_le_length (Nat.le_of_lt hlt), List.getElem_append_left hlt]
    exact h k hlt
  · have hk : k = turns.length := by
      rw [List.length_append, List.length_singleton] at hk
      omega
    subst hk
    rw [List.take_left' rfl, List.getElem_concat_length rfl]
    exact ht

end Turn

namespace Setting

theorem lookups_prefix_retrieve (s : Setting) (lookups : List Filters) (q : Query) :
    lookups <+: (s.retrieve lookups q).1 := by
  unfold retrieve
  cases s.source? with
  | none => exact List.prefix_rfl
  | some source => exact List.prefix_append _ _

theorem lookups_prefix_splice (s : Setting) (bag : Bag) (lookups : List Filters)
    (segments : List Segment) : lookups <+: (s.splice bag lookups segments).1 := by
  induction segments generalizing lookups with
  | nil => exact List.prefix_rfl
  | cons segment rest ih =>
    cases segment with
    | text t =>
      have hr := ih lookups
      rw [splice]
      split
      · rename_i h
        rwa [h] at hr
      · exact hr
    | query q =>
      have hq := s.lookups_prefix_retrieve lookups q
      rw [splice]
      split
      · rename_i h
        rwa [h] at hq
      · rename_i between passages h
        rw [h] at hq
        have hr := hq.trans (ih between)
        split
        · rename_i hs
          rwa [hs] at hr
        · exact hr

/-- Rendering forgets no lookup. -/
theorem lookups_prefix_render (s : Setting) (bag : Bag) (lookups : List Filters) (b : Block) :
    lookups <+: (s.render bag lookups b).1 := by
  unfold render
  dsimp only
  split
  · exact s.lookups_prefix_splice bag lookups _
  · exact List.prefix_rfl

/-- A block taken behind some turns makes one more turn, or fails there. -/
theorem runBlock_cases (s : Setting) (earlier : Log) (seed : Bag) (turns : List Turn)
    (b : Block) :
    (∃ t, t.block = b ∧ Turn.Follows s earlier seed turns t ∧
      s.runBlock turns.isEmpty (Turn.log earlier turns) (Turn.progress seed turns) b =
        (Turn.log earlier (turns ++ [t]), .ok (Turn.progress seed (turns ++ [t])))) ∨
    ∃ asked made e, Turn.Fails s earlier seed turns b asked e ∧
      s.runBlock turns.isEmpty (Turn.log earlier turns) (Turn.progress seed turns) b =
        (⟨(Turn.log earlier turns).requests ++ asked, (Turn.log earlier turns).lookups ++ made⟩,
          .error e) := by
  have hp := s.lookups_prefix_render (Turn.bag seed turns) (Turn.log earlier turns).lookups b
  rcases hr : s.render (Turn.bag seed turns) (Turn.log earlier turns).lookups b with
    ⟨lookups, rendered⟩
  rw [hr] at hp
  obtain ⟨made, rfl⟩ := hp
  cases rendered with
  | error e =>
    refine .inr ⟨[], made, e, .rendering (congrArg Prod.snd hr), ?_⟩
    simp only [runBlock, Turn.progress, hr, List.append_nil]
  | ok text =>
    have hr' := congrArg Prod.snd hr
    cases hg : s.generator (Turn.log earlier turns).requests
        (Turn.transcript turns ++ blockMessages turns.isEmpty text) with
    | error cause =>
      refine .inr ⟨_, made, _, .generation hr' hg, ?_⟩
      simp only [runBlock, Turn.progress, hr, hg]
    | ok reply =>
      cases hc : coerce b reply with
      | error e =>
        refine .inr ⟨_, made, _, .coercion hr' hg hc, ?_⟩
        simp only [runBlock, Turn.progress, hr, hg, conclude, hc]
      | ok value =>
        let t : Turn := ⟨b, made, blockMessages turns.isEmpty text, reply, value⟩
        have follows : Turn.Follows s earlier seed turns t := ⟨⟨text, hr, rfl⟩, hg, hc⟩
        refine .inl ⟨t, rfl, follows, ?_⟩
        rw [Turn.log_concat, Turn.progress_concat]
        simp only [runBlock, Turn.progress, hr, hg, conclude, hc, List.take_left]
        rfl

/-- Running blocks behind some turns adds turns for as many of them as succeed. -/
theorem runBlocks_cases {s : Setting} (h : Turn.Played s earlier seed turns)
    (blocks : List Block) :
    ∃ more, Turn.Played s earlier seed (turns ++ more) ∧
      ((more.map Turn.block = blocks ∧
        s.runBlocks turns.isEmpty (Turn.log earlier turns) (Turn.progress seed turns) blocks =
          (Turn.log earlier (turns ++ more), .ok (Turn.progress seed (turns ++ more)))) ∨
      ∃ b rest asked made e, more.map Turn.block ++ b :: rest = blocks ∧
        Turn.Fails s earlier seed (turns ++ more) b asked e ∧
        s.runBlocks turns.isEmpty (Turn.log earlier turns) (Turn.progress seed turns) blocks =
          (⟨(Turn.log earlier (turns ++ more)).requests ++ asked,
            (Turn.log earlier (turns ++ more)).lookups ++ made⟩, .error e)) := by
  -- on the blocks that are left, behind any turns that were played
  induction blocks generalizing turns with
  | nil =>
    refine ⟨[], ?_, .inl ⟨rfl, ?_⟩⟩
    · rwa [List.append_nil]
    · rw [runBlocks, List.append_nil]
  | cons b rest ih =>
    rcases s.runBlock_cases earlier seed turns b with
      ⟨t, rfl, ht, hrun⟩ | ⟨asked, made, e, hfail, hrun⟩
    · obtain ⟨more, hplayed, outcome⟩ := ih (h.concat ht)
      have hfirst : (turns ++ [t]).isEmpty = false := by simp
      rw [hfirst, List.append_assoc] at outcome
      rw [List.append_assoc] at hplayed
      refine ⟨t :: more, hplayed, ?_⟩
      rw [runBlocks, hrun]
      rcases outcome with ⟨hblocks, hok⟩ | ⟨b, later, asked, made, e, hblocks, hfail, herr⟩
      · exact .inl ⟨congrArg (t.block :: ·) hblocks, hok⟩
      · exact .inr ⟨b, later, asked, made, e, congrArg (t.block :: ·) hblocks, hfail, herr⟩
    · refine ⟨[], ?_, .inr ⟨b, rest, asked, made, e, rfl, ?_, ?_⟩⟩
      · rwa [List.append_nil]
      · rwa [List.append_nil]
      · rw [runBlocks, hrun, List.append_nil]

/-- The law of a whole run. Every turn follows from the turns before it. A run that succeeds has a
turn for each block, in order, has made one request in each, and keeps in its messages the turns
that are not forgotten; one that fails has made the requests of the turns before the failure, and
at most one more by the same law. -/
theorem run_turns (s : Setting) (earlier : Log) (seed : Bag) {blocks : List Block}
    (h : blocks ≠ []) :
    ∃ turns : List Turn, Turn.Played s earlier seed turns ∧
      match s.run earlier blocks seed with
      | (after, .ok result) =>
        turns.map Turn.block = blocks ∧
        after.requests = earlier.requests ++ Turn.requests turns ∧
        (Turn.requests turns).length = blocks.length ∧
        result.trace = turns.map Turn.entry ∧
        result.messages = Turn.transcript turns ∧
        result.messages =
          (result.trace.filter fun e => !e.forget).flatMap TraceEntry.messages ∧
        result.responses = Turn.bag seed turns
      | (after, .error e) =>
        ∃ b rest asked, turns.map Turn.block ++ b :: rest = blocks ∧
          Turn.Fails s earlier seed turns b asked e ∧
          after.requests = earlier.requests ++ Turn.requests turns ++ asked := by
  obtain ⟨turns, hplayed, outcome⟩ := runBlocks_cases (Turn.played_nil s earlier seed) blocks
  have hlast : blocks.getLast? = some (blocks.getLast h) := List.getLast?_eq_some_getLast h
  have hstart : s.runBlocks true earlier { bag := seed } blocks =
      s.runBlocks true (Turn.log earlier []) (Turn.progress seed []) blocks := by
    rw [Turn.log_nil]
    rfl
  refine ⟨turns, hplayed, ?_⟩
  rcases outcome with ⟨hblocks, hok⟩ | ⟨b, rest, asked, made, e, hblocks, hfail, herr⟩
  · simp only [run, hlast, hstart]
    rw [List.isEmpty_nil] at hok
    simp only [hok]
    refine ⟨hblocks, rfl, ?_, rfl, rfl, Turn.transcript_eq_filter_entry turns, rfl⟩
    rw [Turn.length_requests, ← hblocks, List.length_map]
  · simp only [run, hlast, hstart]
    rw [List.isEmpty_nil] at herr
    simp only [herr]
    exact ⟨b, rest, asked, hblocks, hfail, rfl⟩

/-- The law at a forgotten block with a role section whose reply the next block uses. -/
theorem run_turns_forgotten :
    let s : Setting := { generator := .scripted ["teal".toList, "calm".toList] }
    let system := (Token.tag "#role=system".toList).raw ++ "Brief.".toList
    let question := system ++ (Token.tag "/role".toList).raw ++ "A colour?".toList
    let blocks : List Block :=
      [⟨question, "colour".toList, true, .text⟩,
        .trailing ("And ".toList ++ (Token.tag "colour".toList).raw ++ ['?'])]
    let teal : Message := ⟨.user, "And teal?".toList⟩
    blocks ≠ [] ∧ ∃ turns : List Turn, Turn.Played s {} [] turns ∧
      turns.map Turn.block = blocks ∧
      Turn.requests turns =
        [[⟨.system, "Brief.".toList⟩, ⟨.user, "A colour?".toList⟩], [teal]] ∧
      Turn.transcript turns = [teal, ⟨.assistant, "calm".toList⟩] := by
  intro s system question blocks teal
  have hne : blocks ≠ [] := List.cons_ne_nil _ _
  obtain ⟨turns, hplayed, law⟩ := run_turns s {} [] hne
  have hrun : ∃ after result, s.run {} blocks [] = (after, .ok result) ∧
      after.requests =
        [[⟨.system, "Brief.".toList⟩, ⟨.user, "A colour?".toList⟩], [teal]] ∧
      result.messages = [teal, ⟨.assistant, "calm".toList⟩] := ⟨_, _, rfl, rfl, rfl⟩
  obtain ⟨after, result, hrun, hrequests, hmessages⟩ := hrun
  rw [hrun] at law
  obtain ⟨hblocks, hasked, -, -, htranscript, -⟩ := law
  exact ⟨hne, turns, hplayed, hblocks, hasked.symm.trans hrequests,
    htranscript.symm.trans hmessages⟩

end Setting

end DialogScript
