import TokenLedger.Machine.Run
import TokenLedger.Proofs.Outcome

/-!
# What a step does

Each action of the machine is described by the states that it leads to when it does not fail, the
limits it keeps included. Proofs about runs use these descriptions and do not look into the actions.
-/

namespace TokenLedger.Machine

variable {env : Environment} {s s' : State} {value : Unit}

theorem onStack_eq_ok_iff {act : Stack → Except Error Stack} :
    onStack act s = .ok value s' ↔ ∃ stack, act s.stack = .ok stack ∧ s' = { s with stack } := by
  unfold onStack
  cases act s.stack with
  | error e => simp
  | ok stack => simp [eq_comm]

/-- Lock times are looked at and left on the stack. -/
theorem onStack_checkLockTime_eq_ok_iff :
    onStack (fun stack => (env.checkLockTime stack).map fun () => stack) s = .ok value s' ↔
      env.checkLockTime s.stack = .ok () ∧ s' = s := by
  rw [onStack_eq_ok_iff]
  cases env.checkLockTime s.stack with
  | error e => simp [Except.map]
  | ok => simp [Except.map]

theorem countOperations_eq (count : Nat) (s : State) :
    countOperations count s =
      if Limits.operations < s.operations + count then
        .error (.evaluation .tooManyOperations) { s with operations := s.operations + count }
      else .ok () { s with operations := s.operations + count } := by
  have modified : (modify fun s => { s with operations := s.operations + count } :
      MachineM Unit) s = .ok () { s with operations := s.operations + count } := rfl
  rw [countOperations, estate_bind_of_ok modified, estate_get_bind]
  split <;> rfl

theorem countOperations_eq_ok_iff {count : Nat} :
    countOperations count s = .ok value s' ↔
      s.operations + count ≤ Limits.operations ∧
        s' = { s with operations := s.operations + count } := by
  rw [countOperations_eq]
  split
  next exceeds => simp [Nat.not_le.mpr exceeds]
  next within => simp [Nat.not_lt.mp within, eq_comm]

theorem checkStackSize_eq (s : State) :
    checkStackSize s =
      if Limits.stackSize < s.stack.length + s.altStack.length then
        .error (.evaluation .stackSize) s
      else .ok () s := by
  rw [checkStackSize, estate_get_bind]
  split <;> rfl

theorem checkStackSize_eq_ok_iff :
    checkStackSize s = .ok value s' ↔
      s.stack.length + s.altStack.length ≤ Limits.stackSize ∧ s' = s := by
  rw [checkStackSize_eq]
  split
  next exceeds => simp [Nat.not_le.mpr exceeds]
  next within => simp [Nat.not_lt.mp within, eq_comm]

/-! ### Single chunks -/

/-- A push is checked for its size wherever it stands, and for its form where it is executed. -/
theorem stepPush_eq_ok_iff {chunk : Chunk} {data : Bytes} :
    stepPush env chunk data s = .ok value s' ↔
      data.length ≤ Limits.elementSize ∧
        if s.isActive then
          (env.flags.requiresMinimal = true → chunk.isShortestPush = true) ∧
            s' = { s with stack := data :: s.stack }
        else s' = s := by
  unfold stepPush
  dsimp only
  rw [estate_guard_eq_ok, estate_get_bind, Nat.not_lt]
  cases s.isActive with
  | true =>
    simp only [if_true]
    rw [estate_guard_eq_ok, push, estate_modify_eq_ok]
    cases env.flags.requiresMinimal <;> simp
  | false => simp [estate_pure_eq_ok, eq_comm]

/-- The state in which the instruction of a code is executed: codes above the numbers count. -/
def counted (code : UInt8) (s : State) : State :=
  { s with operations := s.operations + if Opcode.sixteen < code then 1 else 0 }

/-- A code is counted wherever it stands. -/
theorem stepCode_eq_ok_iff {code : UInt8} {offset : Nat} :
    stepCode env code offset s = .ok value s' ↔
      (Opcode.sixteen < code → s.operations + 1 ≤ Limits.operations) ∧
        if s.isActive || takesEffectWhenSkipped (Instruction.ofCode code) then
          execute env code offset (Instruction.ofCode code) (counted code s) = .ok value s'
        else s' = counted code s := by
  have behind (t : State) :
      (get >>= fun s => if (s.isActive || takesEffectWhenSkipped (Instruction.ofCode code)) = true
        then execute env code offset (Instruction.ofCode code) else pure ()) t = .ok value s' ↔
      if t.isActive || takesEffectWhenSkipped (Instruction.ofCode code) then
        execute env code offset (Instruction.ofCode code) t = .ok value s'
      else s' = t := by
    rw [estate_get_bind]
    split
    · rfl
    · rw [estate_pure_eq_ok]
      simp [eq_comm]
  unfold stepCode
  dsimp only
  by_cases counts : Opcode.sixteen < code
  · have same : counted code s = { s with operations := s.operations + 1 } := by
      simp [counted, counts]
    rw [if_pos counts, estate_bind_eq_ok]
    simp only [countOperations_eq_ok_iff, behind, counts, true_implies, same]
    constructor
    · rintro ⟨_, _, ⟨within, rfl⟩, effect⟩
      exact ⟨within, effect⟩
    · rintro ⟨within, effect⟩
      exact ⟨(), _, ⟨within, rfl⟩, effect⟩
  · have same : counted code s = s := by simp [counted, counts]
    rw [if_neg counts, behind, same]
    simp [counts]

theorem step_push_eq_ok_iff {code : UInt8} {data : Bytes} {offset : Nat} :
    step env ⟨.push code data, offset⟩ s = .ok value s' ↔
      stepPush env (.push code data) data s = .ok () s' ∧
        s'.stack.length + s'.altStack.length ≤ Limits.stackSize := by
  unfold step
  simp only [estate_bind_eq_ok, checkStackSize_eq_ok_iff]
  constructor
  · rintro ⟨_, _, stepped, within, rfl⟩
    exact ⟨stepped, within⟩
  · rintro ⟨stepped, within⟩
    exact ⟨_, _, stepped, within, rfl⟩

theorem step_op_eq_ok_iff {code : UInt8} {offset : Nat} :
    step env ⟨.op code, offset⟩ s = .ok value s' ↔
      stepCode env code offset s = .ok () s' ∧
        s'.stack.length + s'.altStack.length ≤ Limits.stackSize := by
  unfold step
  simp only [estate_bind_eq_ok, checkStackSize_eq_ok_iff]
  constructor
  · rintro ⟨_, _, stepped, within, rfl⟩
    exact ⟨stepped, within⟩
  · rintro ⟨stepped, within⟩
    exact ⟨_, _, stepped, within, rfl⟩

/-- A push that is executed. -/
theorem step_push_of_active {code : UInt8} {data : Bytes} {offset : Nat}
    (active : s.isActive = true) :
    step env ⟨.push code data, offset⟩ s = .ok value s' ↔
      data.length ≤ Limits.elementSize ∧
        (env.flags.requiresMinimal = true → (Chunk.push code data).isShortestPush = true) ∧
        s.stack.length + 1 + s.altStack.length ≤ Limits.stackSize ∧
        s' = { s with stack := data :: s.stack } := by
  rw [step_push_eq_ok_iff, stepPush_eq_ok_iff, if_pos active]
  constructor
  · rintro ⟨⟨small, shortest, rfl⟩, room⟩
    exact ⟨small, shortest, by simpa using room, rfl⟩
  · rintro ⟨small, shortest, room, rfl⟩
    exact ⟨⟨small, shortest, rfl⟩, by simpa using room⟩

/-- An operation on the stack that is executed. -/
theorem step_stackOp_of_active {code : UInt8} {offset : Nat} {op : StackOp}
    (meaning : Instruction.ofCode code = .stack op) (counts : Opcode.sixteen < code)
    (active : s.isActive = true) :
    step env ⟨.op code, offset⟩ s = .ok value s' ↔
      s.operations + 1 ≤ Limits.operations ∧
        ∃ stack, op.apply env.flags.requiresMinimal s.stack = .ok stack ∧
          stack.length + s.altStack.length ≤ Limits.stackSize ∧
          s' = { s with stack, operations := s.operations + 1 } := by
  rw [step_op_eq_ok_iff, stepCode_eq_ok_iff, meaning, active, Bool.true_or, if_pos rfl, execute,
    onStack_eq_ok_iff]
  simp only [counted, counts, if_true, true_implies]
  constructor
  · rintro ⟨⟨within, stack, applied, rfl⟩, room⟩
    exact ⟨within, stack, applied, room, rfl⟩
  · rintro ⟨within, stack, applied, room, rfl⟩
    exact ⟨⟨within, stack, applied, rfl⟩, room⟩

/-! ### Rows of chunks -/

theorem steps_nil_eq_ok_iff : steps env [] s = .ok value s' ↔ s' = s := by
  rw [steps, estate_pure_eq_ok]
  simp [eq_comm]

theorem steps_cons_eq_ok_iff {c : PlacedChunk} {chunks : List PlacedChunk} :
    steps env (c :: chunks) s = .ok value s' ↔
      ∃ between, step env c s = .ok () between ∧ steps env chunks between = .ok value s' := by
  rw [steps, estate_bind_eq_ok]
  constructor
  · rintro ⟨_, between, stepped, rest⟩
    exact ⟨between, stepped, rest⟩
  · rintro ⟨between, stepped, rest⟩
    exact ⟨(), between, stepped, rest⟩

theorem steps_append_eq_ok_iff {front back : List PlacedChunk} :
    steps env (front ++ back) s = .ok value s' ↔
      ∃ between, steps env front s = .ok () between ∧ steps env back between = .ok value s' := by
  induction front generalizing s with
  | nil => simp [steps_nil_eq_ok_iff]
  | cons c front ih =>
    simp only [List.cons_append, steps_cons_eq_ok_iff, ih]
    constructor
    · rintro ⟨first, stepped, between, rest, last⟩
      exact ⟨between, ⟨first, stepped, rest⟩, last⟩
    · rintro ⟨between, ⟨first, stepped, rest⟩, last⟩
      exact ⟨first, stepped, between, rest, last⟩

/-- What follows chunks that succeed goes on from the state behind them. -/
theorem steps_append_of_ok {front back : List PlacedChunk} {between : State}
    (ran : steps env front s = .ok () between) :
    steps env (front ++ back) s = steps env back between := by
  induction front generalizing s with
  | nil =>
    rw [steps_nil_eq_ok_iff.mp ran]
    rfl
  | cons c front ih =>
    obtain ⟨first, stepped, rest⟩ := steps_cons_eq_ok_iff.mp ran
    rw [List.cons_append, steps, estate_bind_of_ok stepped, ih rest]

theorem run_eq_ok_iff :
    run env s = .ok value s' ↔
      steps env env.script.chunks s = .ok () s' ∧ s'.branches = [] := by
  unfold run
  rw [estate_bind_eq_ok]
  simp only [estate_get_bind]
  constructor
  · rintro ⟨_, between, ran, closed⟩
    rw [estate_guard_eq_ok, estate_pure_eq_ok] at closed
    obtain ⟨none_open, -, rfl⟩ := closed
    exact ⟨ran, by simpa using none_open⟩
  · rintro ⟨ran, closed⟩
    refine ⟨(), s', ran, ?_⟩
    rw [estate_guard_eq_ok, estate_pure_eq_ok]
    exact ⟨by simp [closed], rfl, rfl⟩

end TokenLedger.Machine

namespace TokenLedger.Script

/-- A script leaves the stack of the state behind its last chunk, all conditional parts closed. -/
theorem execute_eq_ok_iff {script : Script} {context : Option SpendContext} {flags : Flags}
    {stack final : Stack} :
    script.execute context flags stack = .ok final ↔
      ∃ s, Machine.steps ⟨context, script, flags⟩ script.chunks { stack } = .ok () s ∧
        s.branches = [] ∧ s.stack = final := by
  unfold execute
  constructor
  · intro ran
    split at ran
    next s run =>
      obtain ⟨steps, closed⟩ := Machine.run_eq_ok_iff.mp run
      exact ⟨s, steps, closed, Except.ok.inj ran⟩
    next => cases ran
  · rintro ⟨s, steps, closed, rfl⟩
    have run : Machine.run ⟨context, script, flags⟩ { stack } = .ok () s :=
      Machine.run_eq_ok_iff.mpr ⟨steps, closed⟩
    rw [run]

/-- A script fails as its chunks do. -/
theorem execute_eq_error_of_steps {script : Script} {context : Option SpendContext} {flags : Flags}
    {stack : Stack} {e : Error} {s : State}
    (stopped : Machine.steps ⟨context, script, flags⟩ script.chunks { stack } = .error e s) :
    script.execute context flags stack = .error e := by
  have run : Machine.run ⟨context, script, flags⟩ { stack } = .error e s :=
    estate_bind_of_error stopped
  rw [execute, run]

end TokenLedger.Script
