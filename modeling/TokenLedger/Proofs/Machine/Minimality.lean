import TokenLedger.Proofs.Machine.Pushes

/-!
# The rule on shortest pushes

Under the rule a run accepts exactly one chunk for each byte string, the shortest one: all others
that put the same bytes on the stack are longer, and stop the run. Scripts that are built from data
and numbers keep the rule, unless the single byte of -1 is pushed as data, for which there is a
code.
-/

namespace TokenLedger

namespace Chunk

/-- The test for shortest pushes accepts a well-formed chunk exactly if no other one that stands for
the same bytes is shorter, and each byte string that can be pushed has exactly one that is shortest.
When a chunk is executed it puts on the stack what it stands for, but under the rule on shortest
pushes only if it passes the test. -/
theorem shortest_push_is_unique :
    (∀ (chunk : Chunk) (data : Bytes), chunk.WellFormed → chunk.Denotes data →
      (chunk.isShortestPush = true ↔
        ¬ ∃ other : Chunk, other.WellFormed ∧ other.Denotes data ∧
          other.encodedLength < chunk.encodedLength)) ∧
    (∀ data : Bytes, data.length < 2 ^ 32 →
      ∃! chunk : Chunk, chunk.WellFormed ∧ chunk.Denotes data ∧
        ∀ other : Chunk, other.WellFormed → other.Denotes data →
          chunk.encodedLength ≤ other.encodedLength) ∧
    ∀ (chunk : Chunk) (data : Bytes), chunk.Denotes data → data.length ≤ Limits.elementSize →
      ∀ (context : Option SpendContext) (flags : Flags) (stack : Stack),
        stack.length < Limits.stackSize →
          (Script.assemble [chunk]).execute context flags stack =
            if flags.requiresMinimal = true ∧ chunk.isShortestPush = false then
              .error (.evaluation .minimalData)
            else .ok (data :: stack) := by
  refine ⟨fun chunk data good denotes => ?_, fun data fits => ?_, ?_⟩
  · rw [denotes.isShortestPush_iff good]
    constructor
    · rintro rfl ⟨other, goodOther, denotesOther, shorter⟩
      exact absurd shorter (Nat.not_lt.mpr (denotesOther.encodedLength_le goodOther))
    · intro none_shorter
      by_contra other
      exact none_shorter ⟨shortestPush data, wellFormed_shortestPush (denotes.length_lt good),
        denotes_shortestPush data, denotes.encodedLength_lt good other⟩
  · have good := wellFormed_shortestPush fits
    refine ⟨shortestPush data, ⟨good, denotes_shortestPush data,
      fun other goodOther denotesOther => denotesOther.encodedLength_le goodOther⟩, ?_⟩
    rintro chunk ⟨goodChunk, denotes, least⟩
    by_contra other
    exact absurd (denotes.encodedLength_lt goodChunk other)
      (Nat.not_lt.mpr (least _ good (denotes_shortestPush data)))
  · intro chunk data denotes small context flags stack room
    have row : List.Forall₂ Denotes [chunk] [data] := .cons denotes .nil
    have ran : (Script.assemble [chunk]).execute context flags stack =
        if flags.requiresMinimal = true ∧ ∃ c ∈ [chunk], isShortestPush c = false then
          .error (.evaluation .minimalData)
        else .ok ([data].reverse ++ stack) :=
      Script.execute_assemble_of_denotes row (List.forall_mem_singleton.mpr small) room
    simpa using ran

/-- The byte of -1 as data: its code is shorter, and under the rule the push stops a run. -/
theorem shortest_push_is_unique_minusOne :
    let chunk : Chunk := .push 1 [0x81]
    chunk.WellFormed ∧ chunk.Denotes [0x81] ∧ [(0x81 : UInt8)].length < 2 ^ 32 ∧
      [(0x81 : UInt8)].length ≤ Limits.elementSize ∧ ([] : Stack).length < Limits.stackSize ∧
      (∃ other : Chunk, other.WellFormed ∧ other.Denotes [0x81] ∧
        other.encodedLength < chunk.encodedLength) ∧
      (∃! chunk : Chunk, chunk.WellFormed ∧ chunk.Denotes [0x81] ∧
        ∀ other : Chunk, other.WellFormed → other.Denotes [0x81] →
          chunk.encodedLength ≤ other.encodedLength) ∧
      (Script.assemble [chunk]).execute none (.ofList [.minimalData]) [] =
        .error (.evaluation .minimalData) := by
  intro chunk
  have good : chunk.WellFormed := .direct (by decide) rfl
  have denotes : chunk.Denotes [0x81] := .push 1 [0x81]
  have fits : [(0x81 : UInt8)].length < 2 ^ 32 := by decide
  have small : [(0x81 : UInt8)].length ≤ Limits.elementSize := by decide
  have room : ([] : Stack).length < Limits.stackSize := by decide
  obtain ⟨exact_test, unique, runs⟩ := shortest_push_is_unique
  have longer : ¬ chunk.isShortestPush = true := by decide
  rw [exact_test chunk _ good denotes, not_not] at longer
  have stopped := runs chunk _ denotes small none (.ofList [.minimalData]) [] room
  rw [if_pos (by decide)] at stopped
  exact ⟨good, denotes, fits, small, room, longer, unique _ fits, stopped⟩

end Chunk

namespace Script

/-- The bytes that steps without codes ask for are what their chunks stand for. -/
theorem denotes_steps {steps : List BuildStep} (values : ∀ code, .op code ∉ steps) :
    List.Forall₂ Chunk.Denotes (steps.map BuildStep.chunk) (steps.filterMap BuildStep.value?) := by
  induction steps with
  | nil => exact .nil
  | cons step steps ih =>
    have rest := ih fun code mem => values code (List.mem_cons_of_mem _ mem)
    have asks {bytes : Bytes} (asked : step.value? = some bytes) :
        List.Forall₂ Chunk.Denotes ((step :: steps).map BuildStep.chunk)
          ((step :: steps).filterMap BuildStep.value?) := by
      rw [List.map_cons, List.filterMap_cons_some asked]
      exact .cons (BuildStep.denotes_chunk asked) rest
    cases step with
    | op code => exact absurd List.mem_cons_self (values code)
    | data bytes => exact asks rfl
    | number n => exact asks rfl

/-- Numbers of 64 bits take at most nine bytes. -/
theorem length_le_of_mem_values {steps : List BuildStep}
    (small : ∀ bytes, .data bytes ∈ steps → bytes.length ≤ Limits.elementSize) :
    ∀ bytes ∈ steps.filterMap BuildStep.value?, bytes.length ≤ Limits.elementSize := by
  intro bytes mem
  obtain ⟨step, among, asked⟩ := List.mem_filterMap.mp mem
  cases step with
  | op code => cases asked
  | data bytes =>
    cases asked
    exact small bytes among
  | number n =>
    cases asked
    exact Nat.le_trans (ScriptNumber.length_encode_toInt_le n) (by decide)

theorem exists_longer_iff {steps : List BuildStep} :
    (∃ chunk ∈ steps.map BuildStep.chunk, chunk.isShortestPush = false) ↔
      .data [0x81] ∈ steps := by
  have longer (step : BuildStep) : step.chunk.isShortestPush = false ↔ step = .data [0x81] := by
    rw [← Bool.not_eq_true, BuildStep.isShortestPush_chunk_iff, not_not]
  simp only [List.mem_map, exists_exists_and_eq_and, longer, exists_eq_right]

/-- Every step of building gives a chunk that passes the test for shortest pushes, but for the byte
of -1 as data. So under the rule on shortest pushes a script that is built from data and numbers
leaves them on the stack, unless that byte is among the data: then the rule stops it. -/
theorem built_pushes_are_shortest_iff (steps : List BuildStep) :
    (build steps).chunks.map (·.chunk.isShortestPush) =
        steps.map (fun step => decide (step ≠ .data [0x81])) ∧
    ((∀ code, .op code ∉ steps) →
      (∀ bytes, .data bytes ∈ steps → bytes.length ≤ Limits.elementSize) →
      steps.length ≤ Limits.stackSize →
      ∀ (context : Option SpendContext) (flags : Flags), flags.requiresMinimal = true →
        (build steps).execute context flags [] =
          if .data [0x81] ∈ steps then .error (.evaluation .minimalData)
          else .ok (steps.filterMap BuildStep.value?).reverse) := by
  constructor
  · have chunks : (build steps).chunks.map (·.chunk) = steps.map BuildStep.chunk :=
      map_chunk_place 0 _
    calc (build steps).chunks.map (·.chunk.isShortestPush)
        = ((build steps).chunks.map (·.chunk)).map Chunk.isShortestPush := by
          rw [List.map_map]
          rfl
      _ = steps.map (fun step => step.chunk.isShortestPush) := by
          rw [chunks, List.map_map]
          rfl
      _ = steps.map (fun step => decide (step ≠ .data [0x81])) := by
          refine List.map_congr_left fun step _ => ?_
          rw [Bool.eq_iff_iff, BuildStep.isShortestPush_chunk_iff, decide_eq_true_eq]
  · intro values small few context flags minimal
    have room : ([] : Stack).length + (steps.filterMap BuildStep.value?).length ≤
        Limits.stackSize := by
      have fewer := List.length_filterMap_le BuildStep.value? steps
      rw [List.length_nil]
      omega
    rw [build, execute_assemble_of_denotes (denotes_steps values) (length_le_of_mem_values small)
      room]
    simp only [minimal, true_and, exists_longer_iff, List.append_nil]

/-- Data and numbers of every width of code and push. -/
theorem built_pushes_are_shortest_iff_mixed :
    let steps : List BuildStep := [.data [], .number (-1), .data [16], .data [0x80], .number 1000]
    (∀ code, .op code ∉ steps) ∧
      (∀ bytes, .data bytes ∈ steps → bytes.length ≤ Limits.elementSize) ∧
      steps.length ≤ Limits.stackSize ∧ (Flags.ofList [.minimalData]).requiresMinimal = true ∧
      (build steps).chunks.map (·.chunk.isShortestPush) = [true, true, true, true, true] ∧
      (build steps).execute none (.ofList [.minimalData]) [] =
        .ok [ScriptNumber.encode 1000, [0x80], [16], ScriptNumber.encode (-1), []] := by
  intro steps
  have values : ∀ code, .op code ∉ steps := by simp [steps]
  have small : ∀ bytes, .data bytes ∈ steps → bytes.length ≤ Limits.elementSize := by
    intro bytes mem
    simp only [steps, List.mem_cons, BuildStep.data.injEq, reduceCtorEq, List.not_mem_nil,
      or_false, false_or] at mem
    rcases mem with rfl | rfl | rfl <;> decide
  have few : steps.length ≤ Limits.stackSize := by decide
  have minimal : (Flags.ofList [.minimalData]).requiresMinimal = true := by decide
  obtain ⟨shortest, runs⟩ := built_pushes_are_shortest_iff steps
  have ran := runs values small few none _ minimal
  rw [if_neg (by decide)] at ran
  exact ⟨values, small, few, minimal, shortest, ran⟩

/-- The byte of -1 is built into a push of its own, though there is a code for it. -/
theorem built_push_of_minusOne_is_not_shortest :
    let steps : List BuildStep := [.data [0x81]]
    (∀ code, .op code ∉ steps) ∧ [(0x81 : UInt8)].length ≤ Limits.elementSize ∧
      steps.length ≤ Limits.stackSize ∧
      ¬ (∀ c ∈ (build steps).chunks, c.chunk.isShortestPush = true) ∧
      (Flags.ofList [.minimalData]).requiresMinimal = true ∧
      (build steps).execute none (.ofList [.minimalData]) [] =
        .error (.evaluation .minimalData) := by
  intro steps
  have values : ∀ code, .op code ∉ steps := by simp [steps]
  exact ⟨values, by decide, by decide, by decide, by decide, by decide +kernel⟩

end Script

end TokenLedger
