import DialogScript.Proofs.Response

/-!
Runs that are answered by an echo. Each reply repeats the last message that says something, and the
run stops at the first block that comes behind forgotten blocks only and says nothing itself.
-/

namespace DialogScript

/-- None of the messages says anything. -/
def Silent (messages : List Message) : Prop := ∀ m ∈ messages, m.content = []

/-- The message is the last one of a conversation that says something. -/
def LastSaid (conversation : Conversation) (m : Message) : Prop :=
  ∃ before after, conversation = before ++ m :: after ∧ m.content ≠ [] ∧ Silent after

theorem LastSaid.not_silent (h : LastSaid conversation m) : ¬ Silent conversation := by
  obtain ⟨before, after, rfl, hm, -⟩ := h
  intro hs
  exact hm (hs m (List.mem_append_right _ List.mem_cons_self))

namespace Generator

def nothingToEcho : Text := "nothing to echo".toList

theorem echo_cases (lead : Text) (earlier : List Conversation) (conversation : Conversation) :
    (∃ m, LastSaid conversation m ∧
      echo lead earlier conversation = .ok (lead ++ m.content)) ∨
    (Silent conversation ∧ echo lead earlier conversation = .error nothingToEcho) := by
  cases hfind : conversation.reverse.find? fun m => !m.content.isEmpty with
  | some m =>
    left
    obtain ⟨hm, after, before, hsplit, hafter⟩ := List.find?_eq_some_iff_append.1 hfind
    refine ⟨m, ⟨before.reverse, after.reverse, ?_, ?_, ?_⟩, ?_⟩
    · rw [← List.reverse_inj, hsplit]
      simp
    · simpa using hm
    · intro m' hm'
      simpa using hafter m' (List.mem_reverse.1 hm')
    · simp only [echo, hfind]
  | none =>
    right
    refine ⟨?_, ?_⟩
    · intro m hm
      simpa using List.find?_eq_none.1 hfind m (List.mem_reverse.2 hm)
    · simp only [echo, hfind]
      rfl

theorem exists_lastSaid_of_echo (h : echo lead earlier conversation = .ok reply) :
    ∃ m, LastSaid conversation m ∧ reply = lead ++ m.content := by
  rcases echo_cases lead earlier conversation with ⟨m, hm, he⟩ | ⟨-, he⟩
  · rw [he] at h
    cases h
    exact ⟨m, hm, rfl⟩
  · rw [he] at h
    cases h

theorem silent_of_echo (h : echo lead earlier conversation = .error cause) :
    Silent conversation := by
  rcases echo_cases lead earlier conversation with ⟨m, -, he⟩ | ⟨hsilent, -⟩
  · rw [he] at h
    cases h
  · exact hsilent

end Generator

namespace Turn

/-- A block that comes behind turns that are all forgotten, and adds no message that says
anything. -/
structure Mute (s : Setting) (earlier : Log) (seed : Bag) (turns : List Turn) (b : Block) :
    Prop where
  forgotten : ∀ t ∈ turns, t.block.forget = true
  silent : ∃ text, (s.render (bag seed turns) (log earlier turns).lookups b).2 = .ok text ∧
    Silent (blockMessages turns.isEmpty text)

/-- A block runs to the turn that follows. -/
theorem Follows.runBlock_eq {s : Setting} (h : Follows s earlier seed turns t) :
    s.runBlock turns.isEmpty (log earlier turns) (progress seed turns) t.block =
      (log earlier (turns ++ [t]), .ok (progress seed (turns ++ [t]))) := by
  obtain ⟨⟨text, hrender, hown⟩, hreply, hvalue⟩ := h
  rw [hown] at hreply
  rw [log_concat, progress_concat]
  simp only [Setting.runBlock, progress, hrender, hreply, Setting.conclude, hvalue, entry, messages,
    hown, List.take_left]

theorem Played.left {s : Setting} (h : Played s earlier seed (turns ++ more)) :
    Played s earlier seed turns := by
  intro k hk
  have hlt : k < (turns ++ more).length := by
    rw [List.length_append]
    omega
  have hf := h k hlt
  rwa [List.take_append_of_le_length (Nat.le_of_lt hk), List.getElem_append_left hk] at hf

theorem Played.last {s : Setting} (h : Played s earlier seed (turns ++ [t])) :
    Follows s earlier seed turns t := by
  have hf := h turns.length (by simp)
  rwa [List.take_left' rfl, List.getElem_concat_length rfl] at hf

theorem Played.runBlocks_eq {s : Setting} (h : Played s earlier seed turns) :
    s.runBlocks true earlier { bag := seed } (turns.map Turn.block) =
      (log earlier turns, .ok (progress seed turns)) := by
  induction turns using List.reverseRecOn with
  | nil =>
    rw [log_nil]
    rfl
  | append_singleton turns t ih =>
    rw [List.map_append, Setting.runBlocks_append, ih h.left, Bool.true_and, List.isEmpty_map]
    simp only [List.map_singleton, Setting.runBlocks, h.last.runBlock_eq]

theorem transcript_of_forgotten (h : ∀ t ∈ turns, t.block.forget = true) :
    transcript turns = [] := by
  have hnone : turns.filter (fun t => !t.block.forget) = [] := by
    rw [List.filter_eq_nil_iff]
    intro t ht
    simp [h t ht]
  rw [transcript, hnone, List.flatMap_nil]

theorem reply_mem_transcript (ht : t ∈ turns) (hkept : t.block.forget = false) :
    ⟨.assistant, t.reply⟩ ∈ transcript turns := by
  refine List.mem_flatMap.2 ⟨t, List.mem_filter.2 ⟨ht, ?_⟩, List.mem_concat_self⟩
  rw [hkept]
  rfl

section Echo

variable {s : Setting} {lead : Text} (hecho : s.generator = .echo lead)
include hecho

theorem Follows.exists_lastSaid (h : Follows s earlier seed turns t) :
    ∃ m, LastSaid (transcript turns ++ t.own) m ∧ t.reply = lead ++ m.content := by
  have hreply := h.answered
  rw [hecho] at hreply
  exact Generator.exists_lastSaid_of_echo hreply

/-- A turn that is kept leaves its reply in the conversation, and that says something. -/
theorem Played.forgotten_of_silent (h : Played s earlier seed turns)
    (hsilent : Silent (transcript turns)) : ∀ t ∈ turns, t.block.forget = true := by
  intro t ht
  by_contra hkept
  rw [Bool.not_eq_true] at hkept
  have hempty : t.reply = [] := hsilent _ (reply_mem_transcript ht hkept)
  obtain ⟨k, hk, rfl⟩ := List.mem_iff_getElem.1 ht
  obtain ⟨m, ⟨-, -, -, hm, -⟩, hreply⟩ := (h k hk).exists_lastSaid hecho
  rw [hreply] at hempty
  exact hm (List.append_eq_nil_iff.1 hempty).2

theorem Mute.runBlock_error (h : Mute s earlier seed turns b) :
    ∃ after, s.runBlock turns.isEmpty (log earlier turns) (progress seed turns) b =
      (after, .error (.generation b.output Generator.nothingToEcho)) := by
  obtain ⟨hforgotten, text, hrender, hsilent⟩ := h
  rcases hr : s.render (bag seed turns) (log earlier turns).lookups b with ⟨lookups, rendered⟩
  rw [hr] at hrender
  cases hrender
  have hreply : s.generator (log earlier turns).requests
      (transcript turns ++ blockMessages turns.isEmpty text) = .error Generator.nothingToEcho := by
    rw [hecho, transcript_of_forgotten hforgotten, List.nil_append]
    rcases Generator.echo_cases lead (log earlier turns).requests
      (blockMessages turns.isEmpty text) with ⟨m, hm, -⟩ | ⟨-, he⟩
    · exact (hm.not_silent hsilent).elim
    · exact he
  simp only [Setting.runBlock, progress, hr, hreply]
  exact ⟨_, rfl⟩

theorem Mute.not_follows (h : Mute s earlier seed turns t.block) :
    ¬ Follows s earlier seed turns t := by
  intro hfollows
  obtain ⟨after, hrun⟩ := h.runBlock_error hecho
  rw [hfollows.runBlock_eq] at hrun
  cases hrun

/-- Behind turns that were played, a block whose lookups succeed and that is kept as text fails only
by being mute. -/
theorem Fails.mute (h : Fails s earlier seed turns b asked e)
    (hplayed : Played s earlier seed turns) (htext : b.outputType = .text)
    (hretrieval : ∀ directive cause, e ≠ .retrieval directive cause) :
    Mute s earlier seed turns b := by
  cases h with
  | rendering hrender =>
    obtain ⟨directive, cause, rfl⟩ := Setting.render_error hrender
    exact (hretrieval directive cause rfl).elim
  | generation hrender hreply =>
    rw [hecho] at hreply
    obtain ⟨hbefore, hown⟩ := List.forall_mem_append.1 (Generator.silent_of_echo hreply)
    exact ⟨hplayed.forgotten_of_silent hecho hbefore, _, hrender, hown⟩
  | coercion _ _ hcoerce =>
    obtain ⟨hjson, -⟩ := coerce_error hcoerce
    rw [htext] at hjson
    cases hjson

end Echo

end Turn

namespace Setting

/-- The run comes to a block that is mute. -/
def Stalls (s : Setting) (earlier : Log) (seed : Bag) (blocks : List Block) (b : Block) : Prop :=
  ∃ turns rest, turns.map Turn.block ++ b :: rest = blocks ∧ Turn.Played s earlier seed turns ∧
    Turn.Mute s earlier seed turns b

theorem Stalls.run_eq {s : Setting} (hecho : s.generator = .echo lead)
    (h : s.Stalls earlier seed blocks b) :
    (s.run earlier blocks seed).2 = .error (.generation b.output Generator.nothingToEcho) := by
  obtain ⟨turns, rest, rfl, hplayed, hmute⟩ := h
  obtain ⟨after, hrun⟩ := hmute.runBlock_error hecho
  have hblocks : s.runBlocks true earlier { bag := seed } (turns.map Turn.block ++ b :: rest) =
      (after, .error (.generation b.output Generator.nothingToEcho)) := by
    rw [runBlocks_append, hplayed.runBlocks_eq, Bool.true_and, List.isEmpty_map]
    simp only [runBlocks, hrun]
  rw [run_of_error (by simp) hblocks]

theorem exists_stalls {s : Setting} (hecho : s.generator = .echo lead)
    (htext : ∀ b ∈ blocks, b.outputType = .text)
    (hretrieval : ∀ directive cause, e ≠ .retrieval directive cause) (hne : blocks ≠ [])
    (he : (s.run earlier blocks seed).2 = .error e) : ∃ b, s.Stalls earlier seed blocks b := by
  obtain ⟨turns, hplayed, ⟨-, hok⟩ | ⟨b, rest, asked, made, e', hblocks, hfails, herr⟩⟩ :=
    s.runBlocks_start earlier seed blocks
  · rw [run_of_ok hne hok] at he
    cases he
  · rw [run_of_error hne herr] at he
    cases he
    have hb : b ∈ blocks := by
      rw [← hblocks]
      exact List.mem_append_right _ List.mem_cons_self
    have hmute := hfails.mute hecho hplayed (htext b hb) hretrieval
    exact ⟨b, turns, rest, hblocks, hplayed, hmute⟩

/-- When an echo fails. A run of blocks that are all kept as text, in which no lookup fails, fails
exactly if it comes to a block that says nothing behind blocks that are all forgotten, and its
error names that block, which is the first of its kind; only a run of no blocks fails otherwise.
Where it succeeds, each reply repeats behind the lead the last message of its request that says
something. -/
theorem run_echo {s : Setting} {lead : Text} (hecho : s.generator = .echo lead) (earlier : Log)
    (seed : Bag) {blocks : List Block} (htext : ∀ b ∈ blocks, b.outputType = .text)
    (hretrieval : ∀ directive cause,
      (s.run earlier blocks seed).2 ≠ .error (.retrieval directive cause)) :
    ((∃ e, (s.run earlier blocks seed).2 = .error e) ↔
      blocks = [] ∨ ∃ b, s.Stalls earlier seed blocks b) ∧
    (∀ b, s.Stalls earlier seed blocks b →
      (s.run earlier blocks seed).2 = .error (.generation b.output Generator.nothingToEcho)) ∧
    (∀ turns, Turn.Played s earlier seed turns → ∀ k (hk : k < turns.length),
      ¬ Turn.Mute s earlier seed (turns.take k) turns[k].block) ∧
    ∀ result, (s.run earlier blocks seed).2 = .ok result →
      ∃ turns, Turn.Played s earlier seed turns ∧ turns.map Turn.block = blocks ∧
        (s.run earlier blocks seed).1.requests = earlier.requests ++ Turn.requests turns ∧
        result.trace = turns.map Turn.entry ∧
        ∀ k (hk : k < turns.length), ∃ request m, (Turn.requests turns)[k]? = some request ∧
          LastSaid request m ∧ turns[k].reply = lead ++ m.content := by
  refine ⟨⟨?_, ?_⟩, fun b => Stalls.run_eq hecho, ?_, ?_⟩
  · rintro ⟨e, he⟩
    by_cases hne : blocks = []
    · exact .inl hne
    · rw [he] at hretrieval
      have hother : ∀ directive cause, e ≠ .retrieval directive cause := by
        rintro directive cause rfl
        exact hretrieval directive cause rfl
      exact .inr (exists_stalls hecho htext hother hne he)
  · rintro (rfl | ⟨b, hb⟩)
    · exact ⟨_, rfl⟩
    · exact ⟨_, hb.run_eq hecho⟩
  · intro turns hplayed k hk hmute
    exact hmute.not_follows hecho (hplayed k hk)
  · intro result hok
    rcases hrun : s.run earlier blocks seed with ⟨after, outcome⟩
    rw [hrun] at hok
    cases hok
    obtain ⟨turns, hplayed, hblocks, rfl, -, rfl⟩ := run_eq_ok hrun
    refine ⟨turns, hplayed, hblocks, rfl, rfl, ?_⟩
    intro k hk
    obtain ⟨m, hm, hreply⟩ := (hplayed k hk).exists_lastSaid hecho
    refine ⟨_, m, ?_, hm, hreply⟩
    rw [Turn.requests, List.getElem?_mapIdx, List.getElem?_eq_getElem hk]
    rfl

/-- The law at a block whose only name stands for nothing, behind one that is answered and
forgotten. -/
theorem run_echo_forgotten :
    let s : Setting := { generator := .echo "> ".toList }
    let seed : Bag := [("q".toList, .text "A colour?".toList)]
    let blocks : List Block :=
      [⟨(Token.tag "q".toList).raw, "colour".toList, true, .text⟩,
        .trailing (Token.tag "note".toList).raw]
    (∀ b ∈ blocks, b.outputType = .text) ∧
    (∀ directive cause, (s.run {} blocks seed).2 ≠ .error (.retrieval directive cause)) ∧
    (s.run {} blocks seed).1.requests = [[⟨.user, "A colour?".toList⟩], [⟨.user, []⟩]] ∧
    ∃ b, s.Stalls {} seed blocks b ∧ b.output = "output".toList := by
  intro s seed blocks
  have htext : ∀ b ∈ blocks, b.outputType = .text := by decide
  have hrun : (s.run {} blocks seed).2 =
      .error (.generation "output".toList Generator.nothingToEcho) := rfl
  have hretrieval : ∀ directive cause,
      (s.run {} blocks seed).2 ≠ .error (.retrieval directive cause) := by
    intro directive cause h
    cases hrun.symm.trans h
  obtain ⟨hfails, hnames, -, -⟩ := run_echo rfl {} seed htext hretrieval
  obtain ⟨b, hb⟩ := (hfails.1 ⟨_, hrun⟩).resolve_left (List.cons_ne_nil _ _)
  refine ⟨htext, hretrieval, rfl, b, hb, ?_⟩
  exact (RunError.generation.inj (Except.error.inj ((hnames b hb).symm.trans hrun))).1

end Setting

end DialogScript
