import DialogScript.Engine
import DialogScript.Proofs.Accounting
import DialogScript.Proofs.Precheck

/-!
What a run hands back under names. The blocks of a template have different output names, so no
reply is written over another, and all else that was supplied stays.
-/

namespace DialogScript

namespace Turn

theorem bag_eq_insertAll (seed : Bag) (turns : List Turn) :
    bag seed turns = Table.insertAll seed (turns.map fun t => (t.block.output, t.value)) := by
  rw [bag, Table.insertAll, List.foldl_map]

theorem map_fst_outputs (turns : List Turn) :
    (turns.map fun t => (t.block.output, t.value)).map Prod.fst =
      (turns.map Turn.block).map Block.output := by
  rw [List.map_map, List.map_map]
  rfl

theorem get?_bag_of_mem (h : ((turns.map Turn.block).map Block.output).Nodup) (ht : t ∈ turns)
    (seed : Bag) : (bag seed turns).get? t.block.output = some t.value := by
  rw [bag_eq_insertAll]
  rw [← map_fst_outputs] at h
  exact Table.get?_insertAll_of_mem h (List.mem_map_of_mem ht) seed

theorem get?_bag_of_notMem (h : name ∉ (turns.map Turn.block).map Block.output) (seed : Bag) :
    (bag seed turns).get? name = seed.get? name := by
  rw [bag_eq_insertAll]
  rw [← map_fst_outputs] at h
  exact Table.get?_insertAll_of_notMem h seed

theorem mem_names_bag {seed : Bag} {turns : List Turn} :
    name ∈ (bag seed turns).names ↔
      name ∈ (turns.map Turn.block).map Block.output ∨ name ∈ seed.names := by
  rw [bag_eq_insertAll, Table.mem_names_insertAll, map_fst_outputs]

theorem getLast?_transcript (h : t.block.forget = false) (turns : List Turn) :
    (transcript (turns ++ [t])).getLast? = some ⟨.assistant, t.reply⟩ := by
  rw [transcript_concat, h, messages, if_neg Bool.false_ne_true, ← List.append_assoc,
    List.getLast?_concat]

/-- The last turn of a whole template is that of the block that closes it. -/
theorem exists_last (h : turns.map Turn.block = Block.cut tokens) :
    ∃ before last rest, turns = before ++ [last] ∧ last.block = .trailing rest := by
  obtain ⟨front, rest, hcut⟩ := exists_trailing tokens
  rw [hcut, List.map_eq_append_iff] at h
  obtain ⟨before, ends, rfl, -, hends⟩ := h
  obtain ⟨last, rfl, hlast⟩ := List.map_eq_singleton_iff.1 hends
  exact ⟨before, last, rest, rfl, hlast⟩

theorem Played.coerced {s : Setting} (h : Played s earlier seed turns) (ht : t ∈ turns) :
    coerce t.block t.reply = .ok t.value := by
  obtain ⟨k, hk, rfl⟩ := List.mem_iff_getElem.1 ht
  exact (h k hk).coerced

end Turn

namespace Setting

theorem runBlocks_eq_ok {s : Setting} {p : Progress}
    (h : s.runBlocks true earlier { bag := seed } blocks = (after, .ok p)) :
    ∃ turns, Turn.Played s earlier seed turns ∧ turns.map Turn.block = blocks ∧
      after = Turn.log earlier turns ∧ p = Turn.progress seed turns := by
  obtain ⟨turns, hplayed, ⟨hblocks, hok⟩ | ⟨b, rest, asked, made, e, -, -, herr⟩⟩ :=
    s.runBlocks_start earlier seed blocks
  · rw [hok] at h
    cases h
    exact ⟨turns, hplayed, hblocks, rfl, rfl⟩
  · rw [herr] at h
    cases h

/-- The bag behind some blocks holds their outputs and what it held before. -/
theorem mem_names_runBlocks {s : Setting} {p : Progress}
    (h : s.runBlocks true earlier { bag := seed } blocks = (after, .ok p)) :
    name ∈ p.bag.names ↔ name ∈ blocks.map Block.output ∨ name ∈ seed.names := by
  obtain ⟨turns, -, rfl, -, rfl⟩ := runBlocks_eq_ok h
  exact Turn.mem_names_bag

/-- A run that succeeds is told by its turns, one for each block. -/
theorem run_eq_ok {s : Setting} (h : s.run earlier blocks seed = (after, .ok result)) :
    ∃ turns, Turn.Played s earlier seed turns ∧ turns.map Turn.block = blocks ∧
      after = Turn.log earlier turns ∧ ∃ hne : blocks ≠ [],
      result = ⟨Turn.bag seed turns, (blocks.getLast hne).output, Turn.transcript turns,
        turns.map Turn.entry⟩ := by
  have hne : blocks ≠ [] := by
    rintro rfl
    cases h
  rcases hran : s.runBlocks true earlier { bag := seed } blocks with ⟨log, e | p⟩
  · rw [run_of_error hne hran] at h
    cases h
  · obtain ⟨turns, hplayed, hblocks, rfl, rfl⟩ := runBlocks_eq_ok hran
    rw [run_of_ok hne hran] at h
    cases h
    exact ⟨turns, hplayed, hblocks, rfl, hne, rfl⟩

end Setting

namespace Engine

theorem run_eq_ok {e : Engine}
    (h : e.run log text definitions supplied = (after, .ok result)) :
    ∃ blocks, parseBlocks text = .ok blocks ∧
      (e.setting definitions).run log blocks (supplied.mapValues .text) = (after, .ok result) := by
  rw [run] at h
  split at h
  · cases h
  · split at h
    · cases h
    · rename_i blocks hblocks
      refine ⟨blocks, hblocks, ?_⟩
      generalize (e.setting definitions).run log blocks (supplied.mapValues .text) = ran at h
      obtain ⟨after', e | result'⟩ := ran
      · cases h
      · cases h
        rfl

/-- What the run of a template hands back when it succeeds. It has a turn for each block that the
template's text was cut into, whatever values, replies and passages say. Under each output name
stands what was made of the block's own reply and under any other name what was supplied; the last
reply stands as it is under the name of the block that closes the template, and ends the
conversation. -/
theorem run_responses {e : Engine} {text : Text} {definitions : List Definition}
    {supplied : Table Text} {result : RunResult}
    (h : e.run log text definitions supplied = (after, .ok result)) :
    ∃ (blocks : List Block) (turns : List Turn) (last : Turn),
      parseBlocks text = .ok blocks ∧ (turns ++ [last]).map Turn.block = blocks ∧
      Turn.Played (e.setting definitions) log (supplied.mapValues .text) (turns ++ [last]) ∧
      after = Turn.log log (turns ++ [last]) ∧
      result.trace.map (fun entry => (entry.output, entry.forget, entry.outputType)) =
        blocks.map (fun b => (b.output, b.forget, b.outputType)) ∧
      (∀ t ∈ turns ++ [last], coerce t.block t.reply = .ok t.value ∧
        result.responses.get? t.block.output = some t.value) ∧
      (∀ name, name ∉ blocks.map Block.output →
        result.responses.get? name = (supplied.get? name).map .text) ∧
      result.lastOutput = Block.trailingOutput ∧
      result.responses.get? Block.trailingOutput = some (.text last.reply) ∧
      result.messages.getLast? = some ⟨.assistant, last.reply⟩ := by
  obtain ⟨blocks, hparse, hrun⟩ := run_eq_ok h
  obtain ⟨turns, hplayed, rfl, rfl, hne, rfl⟩ := Setting.run_eq_ok hrun
  obtain ⟨before, last, rest, rfl, hlast⟩ := Turn.exists_last (parseBlocks_eq_cut hparse)
  have hnodup := nodup_of_parseBlocks hparse
  have hfound {t : Turn} (ht : t ∈ before ++ [last]) := Turn.get?_bag_of_mem hnodup ht
    (supplied.mapValues .text)
  have hvalue : last.value = .text last.reply := by
    have hcoerced := hplayed.coerced List.mem_concat_self
    rw [hlast] at hcoerced
    exact (Except.ok.inj hcoerced).symm
  refine ⟨_, before, last, hparse, rfl, hplayed, rfl, ?_, ?_, ?_, ?_, ?_, ?_⟩
  · rw [List.map_map, List.map_map]
    rfl
  · intro t ht
    exact ⟨hplayed.coerced ht, hfound ht⟩
  · intro name hname
    rw [Turn.get?_bag_of_notMem hname, Table.get?_mapValues]
  · simp only [List.map_append, List.map_singleton, List.getLast_concat, hlast]
    rfl
  · have hfound := hfound List.mem_concat_self
    rw [hvalue, hlast] at hfound
    exact hfound
  · apply Turn.getLast?_transcript
    rw [hlast]
    rfl

/-- The law where a supplied value and a reply both hold a break directive. -/
theorem run_responses_break :
    let directive := (Token.tag "#break output=x".toList).raw
    let e : Engine := { generator := .scripted ["[1]".toList, directive] }
    let text := (Token.tag "q".toList).raw ++
      (Token.tag "#break output=pick output_type=json".toList).raw ++ (Token.tag "pick".toList).raw
    let supplied : Table Text := [("q".toList, directive)]
    ∃ after result, e.run {} text [] supplied = (after, .ok result) ∧
      result.trace.map TraceEntry.output = ["pick".toList, "output".toList] ∧
      result.responses.get? "q".toList = some (.text directive) ∧
      result.responses.get? "x".toList = none ∧
      result.responses.get? "output".toList = some (.text directive) := by
  intro directive e text supplied
  have hrun : ∃ after result, e.run {} text [] supplied = (after, .ok result) ∧
      result.messages.getLast? = some ⟨.assistant, directive⟩ := ⟨_, _, rfl, rfl⟩
  obtain ⟨after, result, hrun, hmessage⟩ := hrun
  obtain ⟨blocks, turns, last, hparse, -, -, -, htrace, -, hother, -, houtput, hlast⟩ :=
    run_responses hrun
  have hblocks : blocks.map Block.output = ["pick".toList, "output".toList] := by
    have hcut : parseBlocks text = .ok _ := rfl
    cases hcut.symm.trans hparse
    rfl
  have hreply : last.reply = directive :=
    congrArg Message.content (Option.some.inj (hlast.symm.trans hmessage))
  refine ⟨after, result, hrun, ?_, ?_, ?_, ?_⟩
  · have houtputs := congrArg (List.map Prod.fst) htrace
    rw [List.map_map, List.map_map] at houtputs
    exact houtputs.trans hblocks
  · exact hother _ (by rw [hblocks]; decide)
  · exact hother _ (by rw [hblocks]; decide)
  · rw [← hreply]
    exact houtput

end Engine

end DialogScript
