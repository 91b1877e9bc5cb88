import TokenLedger.Proofs.Machine.Step
import TokenLedger.Proofs.Script.ShortestPush

/-!
# Running pushes

A chunk puts the bytes that it stands for on the stack, be it a push or the code of a number, and
what is built from data stands for the data. A row of such chunks stacks all the bytes up, unless
the rule on shortest pushes stops it at the first chunk that could be shorter.
-/

namespace TokenLedger.Machine

variable {env : Environment} {s s' : State} {value : Unit} {offset : Nat}

/-- The code of a number pushes it, and does not count as an operation. Skipped it does nothing. -/
theorem step_numberCode_eq_ok_iff {code : UInt8} {n : Int}
    (meaning : Instruction.ofCode code = .number n) (atMost : code ≤ Opcode.sixteen) :
    step env ⟨.op code, offset⟩ s = .ok value s' ↔
      s' = (if s.isActive then { s with stack := ScriptNumber.encode n :: s.stack } else s) ∧
        s'.stack.length + s'.altStack.length ≤ Limits.stackSize := by
  have free : ¬ Opcode.sixteen < code := UInt8.not_lt.mpr atMost
  have same : counted code s = s := by simp [counted, free]
  have idle : takesEffectWhenSkipped (.number n) = false := rfl
  rw [step_op_eq_ok_iff, stepCode_eq_ok_iff, meaning, idle, same, Bool.or_false, Instruction.number,
    execute, onStack_eq_ok_iff]
  cases s.isActive with
  | true => simp [free, StackOp.apply, eq_comm]
  | false => simp [free]

theorem step_number_eq_ok_iff {n : Nat} (pos : 1 ≤ n) (small : n ≤ 16) :
    step env ⟨.op (Opcode.one + UInt8.ofNat n - 1), offset⟩ s = .ok value s' ↔
      s' = (if s.isActive then { s with stack := ScriptNumber.encode (n : Int) :: s.stack }
          else s) ∧
        s'.stack.length + s'.altStack.length ≤ Limits.stackSize := by
  obtain ⟨-, atMost, -, meaning⟩ := number_code pos small
  exact step_numberCode_eq_ok_iff meaning atMost

/-- A chunk puts the bytes that it stands for on the stack. -/
theorem step_of_denotes {chunk : Chunk} {data : Bytes} (active : s.isActive = true)
    (denotes : chunk.Denotes data) :
    step env ⟨chunk, offset⟩ s = .ok value s' ↔
      data.length ≤ Limits.elementSize ∧
        (env.flags.requiresMinimal = true → chunk.isShortestPush = true) ∧
        s.stack.length + 1 + s.altStack.length ≤ Limits.stackSize ∧
        s' = { s with stack := data :: s.stack } := by
  cases chunk with
  | op code =>
    obtain ⟨n, meaning, rfl, short, -, atMost⟩ := denotes.exists_number
    rw [step_numberCode_eq_ok_iff meaning atMost, if_pos active, short]
    constructor
    · rintro ⟨rfl, room⟩
      exact ⟨by decide, fun _ => rfl, room, rfl⟩
    · rintro ⟨-, -, room, rfl⟩
      exact ⟨rfl, room⟩
  | push code data =>
    cases denotes
    exact step_push_of_active active

/-- In a skipped part only the size of the bytes matters. -/
theorem step_of_denotes_of_skipped {chunk : Chunk} {data : Bytes} (skipped : s.isActive = false)
    (denotes : chunk.Denotes data) :
    step env ⟨chunk, offset⟩ s = .ok value s' ↔
      data.length ≤ Limits.elementSize ∧
        s.stack.length + s.altStack.length ≤ Limits.stackSize ∧ s' = s := by
  cases chunk with
  | op code =>
    obtain ⟨n, meaning, rfl, short, -, atMost⟩ := denotes.exists_number
    rw [step_numberCode_eq_ok_iff meaning atMost, skipped, short]
    constructor
    · rintro ⟨rfl, room⟩
      exact ⟨by decide, room, rfl⟩
    · rintro ⟨-, room, rfl⟩
      exact ⟨rfl, room⟩
  | push code data =>
    cases denotes
    rw [step_push_eq_ok_iff, stepPush_eq_ok_iff, skipped]
    constructor
    · rintro ⟨⟨short, rfl⟩, room⟩
      exact ⟨short, room, rfl⟩
    · rintro ⟨short, room, rfl⟩
      exact ⟨⟨short, rfl⟩, room⟩

/-- Under the rule on shortest pushes other chunks stop the run, unless they are skipped. -/
theorem step_of_denotes_eq_error {chunk : Chunk} {data : Bytes} (active : s.isActive = true)
    (denotes : chunk.Denotes data) (short : data.length ≤ Limits.elementSize)
    (minimal : env.flags.requiresMinimal = true) (longer : chunk.isShortestPush = false) :
    step env ⟨chunk, offset⟩ s = .error (.evaluation .minimalData) s := by
  cases chunk with
  | op code => cases longer
  | push code data =>
    cases denotes
    have stopped : stepPush env (.push code data) data s = .error (.evaluation .minimalData) s := by
      unfold stepPush
      dsimp only
      rw [if_neg (Nat.not_lt.mpr short), estate_get_bind, if_pos active, minimal, longer]
      rfl
    exact estate_bind_of_error stopped

/-- What is built from data pushes the data. -/
theorem step_dataChunk_of_active {data : Bytes} (active : s.isActive = true) :
    step env ⟨BuildStep.dataChunk data, offset⟩ s = .ok value s' ↔
      data.length ≤ Limits.elementSize ∧
        (env.flags.requiresMinimal = true → (BuildStep.dataChunk data).isShortestPush = true) ∧
        s.stack.length + 1 + s.altStack.length ≤ Limits.stackSize ∧
        s' = { s with stack := data :: s.stack } :=
  step_of_denotes active (BuildStep.denotes_dataChunk data)

theorem step_dataChunk_of_skipped {data : Bytes} (skipped : s.isActive = false) :
    step env ⟨BuildStep.dataChunk data, offset⟩ s = .ok value s' ↔
      data.length ≤ Limits.elementSize ∧
        s.stack.length + s.altStack.length ≤ Limits.stackSize ∧ s' = s :=
  step_of_denotes_of_skipped skipped (BuildStep.denotes_dataChunk data)

/-- A row of chunks stacks up the bytes that they stand for, the last on top. -/
theorem steps_place_of_denotes {chunks : List Chunk} {data : List Bytes}
    (denotes : List.Forall₂ Chunk.Denotes chunks data) (active : s.isActive = true)
    (small : ∀ bytes ∈ data, bytes.length ≤ Limits.elementSize)
    (shortest : env.flags.requiresMinimal = true → ∀ chunk ∈ chunks, chunk.isShortestPush = true)
    (room : s.stack.length + data.length + s.altStack.length ≤ Limits.stackSize) :
    steps env (Script.place offset chunks) s =
      .ok () { s with stack := data.reverse ++ s.stack } := by
  induction denotes generalizing s offset with
  | nil => rfl
  | @cons chunk bytes chunks data first _ ih =>
    obtain ⟨smallFirst, smallRest⟩ := List.forall_mem_cons.mp small
    rw [List.length_cons] at room
    have stepped : step env ⟨chunk, offset⟩ s = .ok () { s with stack := bytes :: s.stack } :=
      (step_of_denotes active first).mpr
        ⟨smallFirst, fun minimal => shortest minimal _ List.mem_cons_self, by omega, rfl⟩
    have rest : steps env (Script.place (offset + chunk.encodedLength) chunks)
        { s with stack := bytes :: s.stack } =
          .ok () { s with stack := data.reverse ++ bytes :: s.stack } :=
      ih active smallRest
        (fun minimal other mem => shortest minimal other (List.mem_cons_of_mem _ mem))
        (by simp only [List.length_cons]; omega)
    rw [Script.place, steps_cons_eq_ok_iff, List.reverse_cons, List.append_assoc]
    exact ⟨_, stepped, rest⟩

/-- Under the rule on shortest pushes the first chunk that is longer stops the row. -/
theorem steps_place_of_denotes_eq_error {chunks : List Chunk} {data : List Bytes}
    (denotes : List.Forall₂ Chunk.Denotes chunks data) (active : s.isActive = true)
    (small : ∀ bytes ∈ data, bytes.length ≤ Limits.elementSize)
    (minimal : env.flags.requiresMinimal = true)
    (longer : ∃ chunk ∈ chunks, chunk.isShortestPush = false)
    (room : s.stack.length + data.length + s.altStack.length ≤ Limits.stackSize) :
    ∃ stopped, steps env (Script.place offset chunks) s =
      .error (.evaluation .minimalData) stopped := by
  induction denotes generalizing s offset with
  | nil => simp at longer
  | @cons chunk bytes chunks data first _ ih =>
    obtain ⟨smallFirst, smallRest⟩ := List.forall_mem_cons.mp small
    rw [List.length_cons] at room
    rw [Script.place, steps]
    cases shortest : chunk.isShortestPush with
    | false =>
      have stopped : step env ⟨chunk, offset⟩ s = .error (.evaluation .minimalData) s :=
        step_of_denotes_eq_error active first smallFirst minimal shortest
      exact ⟨s, estate_bind_of_error stopped⟩
    | true =>
      have stepped : step env ⟨chunk, offset⟩ s = .ok () { s with stack := bytes :: s.stack } :=
        (step_of_denotes active first).mpr ⟨smallFirst, fun _ => shortest, by omega, rfl⟩
      have longerBehind : ∃ chunk ∈ chunks, chunk.isShortestPush = false := by
        simpa [shortest] using longer
      rw [estate_bind_of_ok stepped]
      exact ih active smallRest longerBehind (by simp only [List.length_cons]; omega)

/-- A row of built pushes stacks all the data up, the last on top. -/
theorem steps_place_dataChunk {data : List Bytes} (active : s.isActive = true)
    (small : ∀ bytes ∈ data, bytes.length ≤ Limits.elementSize)
    (shortest : env.flags.requiresMinimal = true →
      ∀ bytes ∈ data, (BuildStep.dataChunk bytes).isShortestPush = true)
    (room : s.stack.length + data.length + s.altStack.length ≤ Limits.stackSize) :
    steps env (Script.place offset (data.map BuildStep.dataChunk)) s =
      .ok () { s with stack := data.reverse ++ s.stack } := by
  have denotes : List.Forall₂ Chunk.Denotes (data.map BuildStep.dataChunk) data :=
    List.forall₂_map_left_iff.mpr
      (List.forall₂_same.mpr fun bytes _ => BuildStep.denotes_dataChunk bytes)
  exact steps_place_of_denotes denotes active small
    (fun minimal => List.forall_mem_map.mpr (shortest minimal)) room

end TokenLedger.Machine

namespace TokenLedger.Script

variable {context : Option SpendContext} {flags : Flags} {stack : Stack} {data : List Bytes}

/-- A script of chunks that stand for bytes leaves the bytes on top of what was there, unless the
rule on shortest pushes stops it. -/
theorem execute_assemble_of_denotes {chunks : List Chunk}
    (denotes : List.Forall₂ Chunk.Denotes chunks data)
    (small : ∀ bytes ∈ data, bytes.length ≤ Limits.elementSize)
    (room : stack.length + data.length ≤ Limits.stackSize) :
    (assemble chunks).execute context flags stack =
      if flags.requiresMinimal = true ∧ ∃ chunk ∈ chunks, chunk.isShortestPush = false then
        .error (.evaluation .minimalData)
      else .ok (data.reverse ++ stack) := by
  split
  next stops =>
    obtain ⟨minimal, longer⟩ := stops
    obtain ⟨stopped, ran⟩ : ∃ stopped,
        Machine.steps ⟨context, assemble chunks, flags⟩ (place 0 chunks) { stack } =
          .error (.evaluation .minimalData) stopped :=
      Machine.steps_place_of_denotes_eq_error denotes rfl small minimal longer room
    have failed : Machine.run ⟨context, assemble chunks, flags⟩ { stack } =
        .error (.evaluation .minimalData) stopped := estate_bind_of_error ran
    rw [execute, failed]
  next passes =>
    refine execute_eq_ok_iff.mpr
      ⟨_, Machine.steps_place_of_denotes denotes rfl small (fun minimal chunk mem => ?_) room,
        rfl, rfl⟩
    have none_longer : ¬ chunk.isShortestPush = false :=
      fun longer => passes ⟨minimal, chunk, mem, longer⟩
    simpa using none_longer

/-- A script of built pushes leaves the data on top of what was there. -/
theorem execute_assemble_dataChunk (small : ∀ bytes ∈ data, bytes.length ≤ Limits.elementSize)
    (shortest : flags.requiresMinimal = true →
      ∀ bytes ∈ data, (BuildStep.dataChunk bytes).isShortestPush = true)
    (room : stack.length + data.length ≤ Limits.stackSize) :
    (assemble (data.map BuildStep.dataChunk)).execute context flags stack =
      .ok (data.reverse ++ stack) :=
  execute_eq_ok_iff.mpr ⟨_, Machine.steps_place_dataChunk rfl small shortest room, rfl, rfl⟩

end TokenLedger.Script
