import TokenLedger.Proofs.Machine.Effect
import TokenLedger.Proofs.Machine.Pushes

/-!
# Executing chunk by chunk

A run whose first chunk is known goes on exactly if that chunk's conditions hold, from the state
that the chunk leaves. With one equivalence for each kind of chunk, executed or skipped, a whole
script is executed symbolically by rewriting, in both directions at once.
-/

namespace TokenLedger.Machine

variable {env : Environment} {s s' : State} {value : Unit} {chunks : List PlacedChunk}
  {code : UInt8} {data : Bytes} {offset : Nat}

/-! ### Codes -/

/-- A code that takes effect where it stands. -/
theorem steps_op_cons_iff (counts : Opcode.sixteen < code)
    (effective : (s.isActive || takesEffectWhenSkipped (Instruction.ofCode code)) = true) :
    steps env (⟨.op code, offset⟩ :: chunks) s = .ok value s' ↔
      s.operations + 1 ≤ Limits.operations ∧
        ∃ between, execute env code offset (Instruction.ofCode code)
            { s with operations := s.operations + 1 } = .ok () between ∧
          between.stack.length + between.altStack.length ≤ Limits.stackSize ∧
          steps env chunks between = .ok value s' := by
  have counted : counted code s = { s with operations := s.operations + 1 } := by
    simp [counted, counts]
  rw [steps_cons_eq_ok_iff]
  simp only [step_op_eq_ok_iff, stepCode_eq_ok_iff, effective, if_true, counts, true_implies,
    counted]
  constructor
  · rintro ⟨between, ⟨⟨budget, ran⟩, room⟩, rest⟩
    exact ⟨budget, between, ran, room, rest⟩
  · rintro ⟨budget, between, ran, room, rest⟩
    exact ⟨between, ⟨⟨budget, ran⟩, room⟩, rest⟩

/-- A code that takes no effect in a skipped part only counts. -/
theorem steps_op_cons_iff_of_skipped (counts : Opcode.sixteen < code)
    (skipped : (s.isActive || takesEffectWhenSkipped (Instruction.ofCode code)) = false) :
    steps env (⟨.op code, offset⟩ :: chunks) s = .ok value s' ↔
      s.operations + 1 ≤ Limits.operations ∧
        s.stack.length + s.altStack.length ≤ Limits.stackSize ∧
        steps env chunks { s with operations := s.operations + 1 } = .ok value s' := by
  have counted : counted code s = { s with operations := s.operations + 1 } := by
    simp [counted, counts]
  rw [steps_cons_eq_ok_iff]
  simp only [step_op_eq_ok_iff, stepCode_eq_ok_iff, skipped, Bool.false_eq_true, if_false, counts,
    true_implies, counted]
  constructor
  · rintro ⟨_, ⟨⟨budget, rfl⟩, room⟩, rest⟩
    exact ⟨budget, room, rest⟩
  · rintro ⟨budget, room, rest⟩
    exact ⟨_, ⟨⟨budget, rfl⟩, room⟩, rest⟩

/-- An operation whose result on the stack is known. -/
theorem steps_stackOp_cons_iff {op : StackOp} {stack : Stack} (counts : Opcode.sixteen < code)
    (meaning : Instruction.ofCode code = .stack op) (active : s.isActive = true)
    (applied : op.apply env.flags.requiresMinimal s.stack = .ok stack) :
    steps env (⟨.op code, offset⟩ :: chunks) s = .ok value s' ↔
      s.operations + 1 ≤ Limits.operations ∧
        stack.length + s.altStack.length ≤ Limits.stackSize ∧
        steps env chunks { s with stack, operations := s.operations + 1 } = .ok value s' := by
  rw [steps_op_cons_iff counts (by rw [active, Bool.true_or]), meaning, execute]
  simp only [onStack_eq_ok_iff, applied]
  constructor
  · rintro ⟨budget, _, ⟨_, ⟨⟩, rfl⟩, room, rest⟩
    exact ⟨budget, room, rest⟩
  · rintro ⟨budget, room, rest⟩
    exact ⟨budget, _, ⟨_, rfl, rfl⟩, room, rest⟩

/-- An operation that the stack does not suffice for. -/
theorem steps_stackOp_cons_ne_ok {op : StackOp} {e : Error} (counts : Opcode.sixteen < code)
    (meaning : Instruction.ofCode code = .stack op) (active : s.isActive = true)
    (failed : op.apply env.flags.requiresMinimal s.stack = .error e) :
    ¬ steps env (⟨.op code, offset⟩ :: chunks) s = .ok value s' := by
  rw [steps_op_cons_iff counts (by rw [active, Bool.true_or]), meaning, execute]
  simp only [onStack_eq_ok_iff, failed]
  rintro ⟨-, _, ⟨_, ⟨⟩, -⟩, -⟩

theorem steps_checkSig_cons_iff {verify : Bool} (counts : Opcode.sixteen < code)
    (meaning : Instruction.ofCode code = .checkSig verify) (active : s.isActive = true) :
    steps env (⟨.op code, offset⟩ :: chunks) s = .ok value s' ↔
      s.operations + 1 ≤ Limits.operations ∧
        ∃ key signature rest accepted, s.stack = key :: signature :: rest ∧
          env.checkSignature (connectedScript env s.separator [signature]) signature key =
            .ok accepted ∧
          (verify = true → accepted = true) ∧
          (if verify then rest else ScriptNumber.ofBool accepted :: rest).length +
            s.altStack.length ≤ Limits.stackSize ∧
          steps env chunks
            { s with
              stack := if verify then rest else ScriptNumber.ofBool accepted :: rest
              operations := s.operations + 1
              checks := ⟨signature, key, .ok accepted⟩ :: s.checks } = .ok value s' := by
  rw [steps_op_cons_iff counts (by rw [active, Bool.true_or]), meaning]
  simp only [execute_checkSig_eq_ok_iff]
  constructor
  · rintro ⟨budget, _, ⟨key, signature, rest, accepted, taken, verdict, passed, rfl⟩, room,
      further⟩
    exact ⟨budget, key, signature, rest, accepted, taken, verdict, passed, room, further⟩
  · rintro ⟨budget, key, signature, rest, accepted, taken, verdict, passed, room, further⟩
    exact ⟨budget, _, ⟨key, signature, rest, accepted, taken, verdict, passed, rfl⟩, room, further⟩

/-- Lock times are enforced. -/
theorem steps_checkLockTime_cons_iff (enforced : env.flags.has .checkLockTime = true)
    (active : s.isActive = true) :
    steps env (⟨.op Opcode.checkLockTimeVerify, offset⟩ :: chunks) s = .ok value s' ↔
      s.operations + 1 ≤ Limits.operations ∧ env.checkLockTime s.stack = .ok () ∧
        s.stack.length + s.altStack.length ≤ Limits.stackSize ∧
        steps env chunks { s with operations := s.operations + 1 } = .ok value s' := by
  have meaning : Instruction.ofCode Opcode.checkLockTimeVerify = .checkLockTime := rfl
  rw [steps_op_cons_iff (by decide) (by rw [active, Bool.true_or]), meaning, execute,
    if_pos enforced]
  simp only [onStack_checkLockTime_eq_ok_iff]
  constructor
  · rintro ⟨budget, _, ⟨satisfied, rfl⟩, room, rest⟩
    exact ⟨budget, satisfied, room, rest⟩
  · rintro ⟨budget, satisfied, room, rest⟩
    exact ⟨budget, _, ⟨satisfied, rfl⟩, room, rest⟩

/-- Opening a part takes the top of the stack. -/
theorem steps_branch_cons_iff {expected : Bool} {top : Bytes} {rest : Stack}
    (counts : Opcode.sixteen < code)
    (meaning : Instruction.ofCode code = .conditional (.branch expected))
    (active : s.isActive = true) (stack : s.stack = top :: rest) :
    steps env (⟨.op code, offset⟩ :: chunks) s = .ok value s' ↔
      s.operations + 1 ≤ Limits.operations ∧
        rest.length + s.altStack.length ≤ Limits.stackSize ∧
        steps env chunks
          { s with
            stack := rest
            operations := s.operations + 1
            branches := (ScriptNumber.isTrue top == expected) :: s.branches } = .ok value s' := by
  have opened : execute env code offset (.conditional (.branch expected))
      { s with operations := s.operations + 1 } =
        .ok () { s with
          stack := rest
          operations := s.operations + 1
          branches := (ScriptNumber.isTrue top == expected) :: s.branches } := by
    have noneSkipped : s.branches.all id = true := active
    simp [execute, conditional, State.isActive, noneSkipped, stack]
  rw [steps_op_cons_iff counts (by rw [active, Bool.true_or]), meaning, opened]
  simp

/-- Nothing is there to decide on. -/
theorem steps_branch_cons_ne_ok {expected : Bool} (counts : Opcode.sixteen < code)
    (meaning : Instruction.ofCode code = .conditional (.branch expected))
    (active : s.isActive = true) (empty : s.stack = []) :
    ¬ steps env (⟨.op code, offset⟩ :: chunks) s = .ok value s' := by
  have noneSkipped : s.branches.all id = true := active
  rw [steps_op_cons_iff counts (by rw [active, Bool.true_or]), meaning]
  simp [execute, conditional, State.isActive, noneSkipped, empty]

/-- Turning goes on with the other part, executed or not. -/
theorem steps_otherwise_cons_iff {inner : Bool} {outer : List Bool}
    (branches : s.branches = inner :: outer) :
    steps env (⟨.op Opcode.otherwise, offset⟩ :: chunks) s = .ok value s' ↔
      s.operations + 1 ≤ Limits.operations ∧
        s.stack.length + s.altStack.length ≤ Limits.stackSize ∧
        steps env chunks
          { s with operations := s.operations + 1, branches := (!inner) :: outer } =
            .ok value s' := by
  have turned : execute env Opcode.otherwise offset (.conditional .otherwise)
      { s with operations := s.operations + 1 } =
        .ok () { s with operations := s.operations + 1, branches := (!inner) :: outer } := by
    simp [execute, conditional, branches]
  have meaning : Instruction.ofCode Opcode.otherwise = .conditional .otherwise := rfl
  rw [steps_op_cons_iff (by decide) (by rw [meaning, takesEffectWhenSkipped, Bool.or_true]),
    meaning, turned]
  simp

theorem steps_close_cons_iff {inner : Bool} {outer : List Bool}
    (branches : s.branches = inner :: outer) :
    steps env (⟨.op Opcode.endIf, offset⟩ :: chunks) s = .ok value s' ↔
      s.operations + 1 ≤ Limits.operations ∧
        s.stack.length + s.altStack.length ≤ Limits.stackSize ∧
        steps env chunks { s with operations := s.operations + 1, branches := outer } =
          .ok value s' := by
  have closed : execute env Opcode.endIf offset (.conditional .close)
      { s with operations := s.operations + 1 } =
        .ok () { s with operations := s.operations + 1, branches := outer } := by
    simp [execute, conditional, branches]
  have meaning : Instruction.ofCode Opcode.endIf = .conditional .close := rfl
  rw [steps_op_cons_iff (by decide) (by rw [meaning, takesEffectWhenSkipped, Bool.or_true]),
    meaning, closed]
  simp

/-! ### Pushes -/

theorem steps_push_cons_iff (active : s.isActive = true) :
    steps env (⟨.push code data, offset⟩ :: chunks) s = .ok value s' ↔
      data.length ≤ Limits.elementSize ∧
        (env.flags.requiresMinimal = true → (Chunk.push code data).isShortestPush = true) ∧
        s.stack.length + 1 + s.altStack.length ≤ Limits.stackSize ∧
        steps env chunks { s with stack := data :: s.stack } = .ok value s' := by
  rw [steps_cons_eq_ok_iff]
  simp only [step_push_of_active active]
  constructor
  · rintro ⟨_, ⟨small, shortest, room, rfl⟩, rest⟩
    exact ⟨small, shortest, room, rest⟩
  · rintro ⟨small, shortest, room, rest⟩
    exact ⟨_, ⟨small, shortest, room, rfl⟩, rest⟩

/-- What is built from data pushes the data. -/
theorem steps_dataChunk_cons_iff (active : s.isActive = true) :
    steps env (⟨BuildStep.dataChunk data, offset⟩ :: chunks) s = .ok value s' ↔
      data.length ≤ Limits.elementSize ∧
        (env.flags.requiresMinimal = true → (BuildStep.dataChunk data).isShortestPush = true) ∧
        s.stack.length + 1 + s.altStack.length ≤ Limits.stackSize ∧
        steps env chunks { s with stack := data :: s.stack } = .ok value s' := by
  rw [steps_cons_eq_ok_iff]
  simp only [step_dataChunk_of_active active]
  constructor
  · rintro ⟨_, ⟨small, shortest, room, rfl⟩, rest⟩
    exact ⟨small, shortest, room, rest⟩
  · rintro ⟨small, shortest, room, rest⟩
    exact ⟨_, ⟨small, shortest, room, rfl⟩, rest⟩

/-- In a skipped part only the size of the data matters. -/
theorem steps_dataChunk_cons_iff_of_skipped (skipped : s.isActive = false) :
    steps env (⟨BuildStep.dataChunk data, offset⟩ :: chunks) s = .ok value s' ↔
      data.length ≤ Limits.elementSize ∧
        s.stack.length + s.altStack.length ≤ Limits.stackSize ∧
        steps env chunks s = .ok value s' := by
  rw [steps_cons_eq_ok_iff]
  simp only [step_dataChunk_of_skipped skipped]
  constructor
  · rintro ⟨_, ⟨small, room, rfl⟩, rest⟩
    exact ⟨small, room, rest⟩
  · rintro ⟨small, room, rest⟩
    exact ⟨_, ⟨small, room, rfl⟩, rest⟩

/-! ### What single signatures commit to -/

/-- Before any separator a signature commits to the whole script without its own pushes. -/
theorem connectedScript_single {chunks : List Chunk} {signature : Bytes}
    (script : env.script = .assemble chunks) (good : ∀ chunk ∈ chunks, chunk.WellFormed)
    (fits : signature.length < 2 ^ 32) :
    connectedScript env 0 [signature] = .assemble (chunks.filter (· ≠ Chunk.ofData signature)) := by
  have whole : env.script = .assemble ([] ++ chunks) := script
  have stripped := connectedScript_assemble whole good (List.forall_mem_singleton.mpr fits)
  simpa using stripped

/-- So a signature that was an element of the stack is checked on that script. -/
theorem checkSignature_single_iff {context : SpendContext} {chunks : List Chunk}
    {signature key : Bytes} (known : env.context = some context)
    (script : env.script = .assemble chunks) (good : ∀ chunk ∈ chunks, chunk.WellFormed)
    (short : signature.length ≤ Limits.elementSize) :
    env.checkSignature (connectedScript env 0 [signature]) signature key = .ok true ↔
      Environment.PassesCheck env.flags context
        (.assemble (chunks.filter (· ≠ Chunk.ofData signature))) signature key := by
  unfold Limits.elementSize at short
  rw [connectedScript_single script good (by omega),
    Environment.checkSignature_eq_ok_true_iff_passesCheck known]

end TokenLedger.Machine
