import Mathlib
import TokenLedger.Proofs.Machine.SignedBytes

/-!
# Runs inside of other runs

A run does not look at what lies below the elements that it uses, nor at how many operations were
counted before it began. What there is around a run is its frame, and the same chunks are run inside
of a frame in lockstep with a run outside of it. Only one instruction asks for the size of the
stack, and signatures commit to a place in the script, so that has to be the same for them. All that
can go wrong inside of the frame is that it leaves too little room.
-/

namespace TokenLedger

/-! ### Operations on the stack -/

theorem Shuffle.apply?_append {op : Shuffle} {stack result base : Stack}
    (moved : op.apply? stack = some result) :
    op.apply? (stack ++ base) = some (result ++ base) := by
  unfold Shuffle.apply? at moved
  split at moved <;> cases moved <;> rfl

namespace StackOp

variable {minimal : Bool} {stack result base : Stack}

theorem elementAt_append {depth : Int} {index : Nat} {element : Bytes}
    (inside : elementAt stack depth = .ok (index, element)) :
    index < stack.length ∧ elementAt (stack ++ base) depth = .ok (index, element) := by
  unfold elementAt at inside ⊢
  split at inside
  next => cases inside
  next positive =>
    rw [if_neg positive]
    split at inside
    next => cases inside
    next there =>
      cases inside
      have inRange := (List.getElem?_eq_some_iff.mp there).1
      rw [List.getElem?_append_left inRange, there]
      exact ⟨inRange, rfl⟩

/-- An operation that does not ask for the size of the stack acts on the top of it. -/
theorem apply_append {op : StackOp} (blind : op = .depth → base = [])
    (applied : op.apply minimal stack = .ok result) :
    op.apply minimal (stack ++ base) = .ok (result ++ base) := by
  apply Applies.apply_eq_ok
  cases apply_eq_ok_iff.mp applied with
  | push => exact .push
  | shuffle moved => exact .shuffle (Shuffle.apply?_append moved)
  | @ifDup a rest =>
    have same : (if ScriptNumber.isTrue a then a :: a :: rest else a :: rest) ++ base =
        if ScriptNumber.isTrue a then a :: a :: (rest ++ base) else a :: (rest ++ base) := by
      split <;> rfl
    rw [same]
    exact .ifDup
  | depth =>
    rw [blind rfl, List.append_nil, List.append_nil]
    exact .depth
  | size => exact .size
  | pick reads found => exact .pick reads (elementAt_append found).2
  | @roll _ element rest _ index reads found =>
    obtain ⟨inRange, outside⟩ := @elementAt_append _ base _ _ _ found
    have same : element :: rest.eraseIdx index ++ base =
        element :: (rest ++ base).eraseIdx index := by
      rw [List.eraseIdx_append_of_lt_length inRange, List.cons_append]
    rw [same]
    exact .roll reads outside
  | verify good => exact .verify good
  | equal => exact .equal
  | equalVerify => exact .equalVerify
  | unary reads => exact .unary reads
  | binary readsSecond readsFirst => exact .binary readsSecond readsFirst
  | numEqualVerify readsSecond readsFirst => exact .numEqualVerify readsSecond readsFirst
  | within readsUpper readsLower reads => exact .within readsUpper readsLower reads
  | hash => exact .hash

end StackOp

/-- A lock time is on top of the stack. -/
theorem Environment.checkLockTime_append {env : Environment} {stack base : Stack}
    (passed : env.checkLockTime stack = .ok ()) : env.checkLockTime (stack ++ base) = .ok () := by
  cases stack with
  | nil => cases passed
  | cons top rest => exact passed

theorem Instruction.ofCode_eq_depth_iff (code : UInt8) :
    ofCode code = .stack .depth ↔ code = Opcode.depth := by
  revert code
  exact forall_byte (by decide +kernel)

namespace Machine

/-! ### Frames -/

/-- What there is around a run. -/
structure Frame where
  /-- The elements below its stack. -/
  below : Stack := []
  /-- The elements below those that it puts aside. -/
  aside : Stack := []
  /-- The operations that were counted before. -/
  spent : Nat := 0
  /-- Its chunks stand at the same places as outside of the frame. -/
  aligned : Bool := true

namespace Frame

variable {f : Frame} {env : Environment} {s s' t : State}

/-- The second state is the first one inside of the frame. -/
structure Embeds (f : Frame) (s t : State) : Prop where
  stack : t.stack = s.stack ++ f.below
  altStack : t.altStack = s.altStack ++ f.aside
  branches : t.branches = s.branches
  operations : t.operations = s.operations + f.spent
  separator : f.aligned = true → t.separator = s.separator

theorem Embeds.isActive (embeds : f.Embeds s t) : t.isActive = s.isActive := by
  rw [State.isActive, embeds.branches, State.isActive]

/-- Where the first action succeeds, the second one does the same inside of the frame. -/
def Carries {α : Type} (f : Frame) (m n : MachineM α) : Prop :=
  ∀ s t, f.Embeds s t → ∀ value s', m s = .ok value s' →
    ∃ t', n t = .ok value t' ∧ f.Embeds s' t'

namespace Carries

variable {α β : Type} {m n : MachineM α}

theorem pure (value : α) : f.Carries (Pure.pure value) (Pure.pure value) := by
  intro s t embeds _ s' ran
  obtain ⟨rfl, rfl⟩ := estate_pure_eq_ok.mp ran
  exact ⟨t, rfl, embeds⟩

theorem fault (cause : ScriptError) : f.Carries (Machine.fault cause) n := by
  intro s t _ value s' ran
  cases ran

theorem modify {change change' : State → State}
    (kept : ∀ s t, f.Embeds s t → f.Embeds (change s) (change' t)) :
    f.Carries (modify change) (modify change') := by
  intro s t embeds _ s' ran
  rw [estate_modify_eq_ok.mp ran]
  exact ⟨change' t, rfl, kept s t embeds⟩

theorem bind {next next' : α → MachineM β} (head : f.Carries m n)
    (tail : ∀ value, f.Carries (next value) (next' value)) :
    f.Carries (m >>= next) (n >>= next') := by
  intro s t embeds value s' ran
  obtain ⟨first, between, ranFirst, rest⟩ := estate_bind_eq_ok.mp ran
  obtain ⟨outer, ranOuter, embedsOuter⟩ := head s t embeds first between ranFirst
  obtain ⟨t', restOuter, embedsLast⟩ := tail first between outer embedsOuter value s' rest
  exact ⟨t', estate_bind_eq_ok.mpr ⟨first, outer, ranOuter, restOuter⟩, embedsLast⟩

theorem get_bind {body body' : State → MachineM α}
    (each : ∀ s t, f.Embeds s t → f.Carries (body s) (body' t)) :
    f.Carries (get >>= body) (get >>= body') := by
  intro s t embeds value s' ran
  rw [estate_get_bind] at ran ⊢
  exact each s t embeds s t embeds value s' ran

end Carries

/-! ### Actions -/

theorem onStack_carries {act act' : Stack → Except Error Stack}
    (same : ∀ stack result, act stack = .ok result →
      act' (stack ++ f.below) = .ok (result ++ f.below)) :
    f.Carries (onStack act) (onStack act') := by
  intro s t embeds value s' ran
  obtain ⟨stack, applied, rfl⟩ := onStack_eq_ok_iff.mp ran
  have outside := same s.stack stack applied
  rw [← embeds.stack] at outside
  exact ⟨_, onStack_eq_ok_iff.mpr ⟨_, outside, rfl⟩,
    { embeds with stack := rfl }⟩

theorem push_carries (bytes : Bytes) : f.Carries (push bytes) (push bytes) :=
  .modify fun s t embeds => { embeds with stack := by rw [embeds.stack, List.cons_append] }

theorem pop_carries : f.Carries pop pop := by
  intro s t embeds top s' ran
  obtain ⟨rest, taken, rfl⟩ := pop_eq_ok_iff.mp ran
  refine ⟨{ t with stack := rest ++ f.below }, pop_eq_ok_iff.mpr ⟨_, ?_, rfl⟩,
    { embeds with stack := rfl }⟩
  rw [embeds.stack, taken, List.cons_append]

theorem popBelowOne_carries (count : Nat) : f.Carries (popBelowOne count) (popBelowOne count) := by
  intro s t embeds taken s' ran
  obtain ⟨below, rest, stack, length, rfl⟩ := popBelowOne_eq_ok_iff.mp ran
  refine ⟨{ t with stack := below :: rest ++ f.below },
    popBelowOne_eq_ok_iff.mpr ⟨below, rest ++ f.below, ?_, length, rfl⟩,
    { embeds with stack := rfl }⟩
  rw [embeds.stack, stack, List.append_assoc, List.cons_append]

theorem countOperations_carries (free : f.spent = 0) (count : Nat) :
    f.Carries (countOperations count) (countOperations count) := by
  intro s t embeds value s' ran
  obtain ⟨budget, rfl⟩ := countOperations_eq_ok_iff.mp ran
  have same : t.operations = s.operations := by rw [embeds.operations, free, Nat.add_zero]
  refine ⟨_, countOperations_eq_ok_iff.mpr ⟨by rwa [same], rfl⟩,
    { embeds with operations := ?_ }⟩
  rw [same, free, Nat.add_zero]

theorem conditional_carries (op : Conditional) : f.Carries (conditional op) (conditional op) := by
  intro s t embeds value s' ran
  unfold conditional at ran ⊢
  cases op with
  | branch expected =>
    dsimp only at ran ⊢
    rw [embeds.isActive]
    split at ran
    next skipped =>
      cases ran
      rw [if_pos skipped]
      exact ⟨_, rfl, { embeds with branches := by rw [embeds.branches] }⟩
    next active =>
      rw [if_neg active]
      split at ran
      next => cases ran
      next top rest taken =>
        cases ran
        have outside : t.stack = top :: (rest ++ f.below) := by
          rw [embeds.stack, taken, List.cons_append]
        rw [outside]
        exact ⟨_, rfl, { embeds with stack := rfl, branches := by rw [embeds.branches] }⟩
  | otherwise | close =>
    dsimp only at ran ⊢
    rw [embeds.branches]
    split at ran
    next => cases ran
    next =>
      cases ran
      exact ⟨_, rfl, { embeds with branches := rfl }⟩

/-! ### Signature checks -/

theorem checkRecorded_carries (connected : Script) (signature key : Bytes) :
    f.Carries (checkRecorded env connected signature key)
      (checkRecorded env connected signature key) := by
  intro s t embeds value s' ran
  unfold checkRecorded at ran ⊢
  dsimp only at ran ⊢
  split at ran
  next =>
    cases ran
    exact ⟨_, rfl, { embeds with }⟩
  next => cases ran

theorem checkSig_carries (aligned : f.aligned = true) :
    f.Carries (checkSig env) (checkSig env) := by
  intro s t embeds accepted s' ran
  obtain ⟨key, signature, rest, taken, verdict, rfl⟩ := checkSig_eq_ok_iff.mp ran
  rw [← embeds.separator aligned] at verdict
  refine ⟨_, checkSig_eq_ok_iff.mpr ⟨key, signature, rest ++ f.below, ?_, verdict, rfl⟩,
    { embeds with stack := rfl }⟩
  rw [embeds.stack, taken, List.cons_append, List.cons_append]

theorem Carries.compositional : Compositional (fun _ => f.Carries) where
  pure := .pure
  fault cause := .fault cause
  bind := .bind

theorem Carries.relatesChecks (aligned : f.aligned = true) (free : f.spent = 0) :
    RelatesChecks (fun _ => f.Carries) env env where
  toCompositional := compositional
  pop := pop_carries
  popCount := compositional.popCount pop_carries
  popBelowOne := popBelowOne_carries
  countOperations := countOperations_carries free
  atSeparator _ _ each := by
    refine .get_bind fun s t embeds => ?_
    rw [embeds.separator aligned]
    exact each s.separator
  checkRecorded _ _ := checkRecorded_carries _
  rejectDummy _ := compositional.guard _

/-! ### Chunks -/

theorem fromAltStack_carries (code : UInt8) (offset offset' : Nat) :
    f.Carries (execute env code offset .fromAltStack) (execute env code offset' .fromAltStack) := by
  intro s t embeds value s' ran
  simp only [execute] at ran ⊢
  split at ran
  next => cases ran
  next top rest taken =>
    cases ran
    have outside : t.altStack = top :: (rest ++ f.aside) := by
      rw [embeds.altStack, taken, List.cons_append]
    rw [outside]
    exact ⟨_, rfl, { embeds with
      stack := by rw [embeds.stack, List.cons_append]
      altStack := rfl }⟩

theorem Carries.relatesInstruction {code : UInt8} {offset offset' : Nat}
    {instruction : Instruction} (sameOffset : f.aligned = true → offset' = offset)
    (blind : instruction = .stack .depth → f.below = [])
    (signs : ChecksSignatures instruction → f.aligned = true ∧ f.spent = 0) :
    RelatesInstruction (fun _ => f.Carries) env code offset offset' instruction where
  toCompositional := compositional
  stackOp op isOp := onStack_carries fun stack result applied =>
    StackOp.apply_append (fun asks => blind (by rw [isOp, asks])) applied
  conditional op _ := conditional_carries op
  push := push_carries
  pop := pop_carries
  putAside top := .modify fun s t embeds =>
    { embeds with altStack := by rw [embeds.altStack, List.cons_append] }
  takeBack := fromAltStack_carries code offset offset'
  separate _ := .modify fun s t embeds =>
    { embeds with separator := fun aligned => by rw [sameOffset aligned] }
  checkSig verify checks := checkSig_carries (signs ⟨verify, .inl checks⟩).1
  checkMultiSig verify checks := by
    obtain ⟨aligned, free⟩ := signs ⟨verify, .inr checks⟩
    exact (relatesChecks aligned free).checkMultiSig
  checkLockTime := onStack_carries fun stack result applied => by
    obtain ⟨_, passed, rfl⟩ := except_map_eq_ok.mp applied
    exact except_map_eq_ok.mpr ⟨(), Environment.checkLockTime_append passed, rfl⟩

/-- Inside of a frame the chunk does what it does outside of it. -/
theorem execute_carries {code : UInt8} {offset offset' : Nat} {instruction : Instruction}
    (sameOffset : f.aligned = true → offset' = offset)
    (blind : instruction = .stack .depth → f.below = [])
    (signs : ChecksSignatures instruction → f.aligned = true ∧ f.spent = 0) :
    f.Carries (execute env code offset instruction) (execute env code offset' instruction) :=
  (Carries.relatesInstruction sameOffset blind signs).execute

/-- Two chunks do the same outside and inside of the frame. -/
structure Admits (f : Frame) (c c' : PlacedChunk) : Prop where
  chunk : c'.chunk = c.chunk
  offset : f.aligned = true → c'.offset = c.offset
  blind : c.chunk = .op Opcode.depth → f.below = []
  signs : ∀ code, c.chunk = .op code → ChecksSignatures (Instruction.ofCode code) →
    f.aligned = true ∧ f.spent = 0

/-- What the first state asks for is more than the frame leaves. -/
inductive Overruns (f : Frame) (s t : State) : ScriptError → Prop where
  | stackSize (embeds : f.Embeds s t)
      (full : Limits.stackSize < t.stack.length + t.altStack.length) : Overruns f s t .stackSize
  | operations (shared : f.spent ≠ 0) (full : Limits.operations < s.operations + f.spent) :
      Overruns f s t .tooManyOperations

theorem stepPush_carries (chunk : Chunk) (data : Bytes) :
    f.Carries (stepPush env chunk data) (stepPush env chunk data) := by
  intro s t embeds value s' ran
  obtain ⟨small, effect⟩ := stepPush_eq_ok_iff.mp ran
  rw [← embeds.isActive] at effect
  split at effect
  next active =>
    obtain ⟨shortest, rfl⟩ := effect
    refine ⟨{ t with stack := data :: t.stack }, stepPush_eq_ok_iff.mpr ⟨small, ?_⟩,
      { embeds with stack := by rw [embeds.stack, List.cons_append] }⟩
    rw [if_pos active]
    exact ⟨shortest, rfl⟩
  next skipped =>
    subst effect
    refine ⟨t, stepPush_eq_ok_iff.mpr ⟨small, ?_⟩, embeds⟩
    rw [if_neg skipped]

/-- A code is executed inside of the frame if one operation more can be counted there. -/
theorem stepCode_carries {code : UInt8} {offset offset' : Nat} (embeds : f.Embeds s t)
    (sameOffset : f.aligned = true → offset' = offset)
    (blind : Instruction.ofCode code = .stack .depth → f.below = [])
    (signs : ChecksSignatures (Instruction.ofCode code) → f.aligned = true ∧ f.spent = 0)
    (budget : Opcode.sixteen < code → t.operations + 1 ≤ Limits.operations)
    (ran : stepCode env code offset s = .ok () s') :
    ∃ t', stepCode env code offset' t = .ok () t' ∧ f.Embeds s' t' := by
  obtain ⟨-, effect⟩ := stepCode_eq_ok_iff.mp ran
  have before : f.Embeds (counted code s) (counted code t) :=
    { embeds with
      operations := by
        simp only [counted, embeds.operations]
        omega }
  rw [← embeds.isActive] at effect
  split at effect
  next takesEffect =>
    obtain ⟨t', executed, after⟩ :=
      execute_carries sameOffset blind signs _ _ before () s' effect
    refine ⟨t', stepCode_eq_ok_iff.mpr ⟨budget, ?_⟩, after⟩
    rw [if_pos takesEffect]
    exact executed
  next skipped =>
    subst effect
    refine ⟨counted code t, stepCode_eq_ok_iff.mpr ⟨budget, ?_⟩, before⟩
    rw [if_neg skipped]

/-- The count of operations fails before anything else. -/
theorem stepCode_eq_error {code : UInt8} {offset : Nat} (counts : Opcode.sixteen < code)
    (full : Limits.operations < t.operations + 1) :
    stepCode env code offset t =
      .error (.evaluation .tooManyOperations) { t with operations := t.operations + 1 } := by
  have stopped : countOperations 1 t =
      .error (.evaluation .tooManyOperations) { t with operations := t.operations + 1 } := by
    rw [countOperations_eq, if_pos full]
  unfold stepCode
  dsimp only
  rw [if_pos counts]
  exact estate_bind_of_error stopped

/-- Behind the action the stacks have to leave room for the frame. -/
theorem checkStackSize_in_frame {n : MachineM Unit}
    (carried : ∃ t', n t = .ok () t' ∧ f.Embeds s' t') :
    (∃ t', (n >>= fun _ => checkStackSize) t = .ok () t' ∧ f.Embeds s' t') ∨
      ∃ cause t', (n >>= fun _ => checkStackSize) t = .error (.evaluation cause) t' ∧
        f.Overruns s' t' cause := by
  obtain ⟨t', ran, embeds⟩ := carried
  rw [estate_bind_of_ok ran, checkStackSize_eq]
  split
  next full => exact .inr ⟨_, t', rfl, .stackSize embeds full⟩
  next => exact .inl ⟨t', rfl, embeds⟩

/-- A step that succeeds does the same inside of the frame, unless it needs more room. -/
theorem step_in_frame {c c' : PlacedChunk} (embeds : f.Embeds s t) (admits : f.Admits c c')
    (stepped : step env c s = .ok () s') :
    (∃ t', step env c' t = .ok () t' ∧ f.Embeds s' t') ∨
      ∃ cause t', step env c' t = .error (.evaluation cause) t' ∧ f.Overruns s' t' cause := by
  obtain ⟨outside, offset⟩ := c
  obtain ⟨chunk, offset'⟩ := c'
  obtain ⟨sameChunk, sameOffset, blind, signs⟩ := admits
  obtain rfl : chunk = outside := sameChunk
  have operations := operations_of_step stepped
  cases chunk with
  | push code data =>
    obtain ⟨pushed, -⟩ := step_push_eq_ok_iff.mp stepped
    exact checkStackSize_in_frame (stepPush_carries _ _ s t embeds () s' pushed)
  | op code =>
    obtain ⟨executed, -⟩ := step_op_eq_ok_iff.mp stepped
    by_cases budget : Opcode.sixteen < code → t.operations + 1 ≤ Limits.operations
    · refine checkStackSize_in_frame (stepCode_carries embeds sameOffset (fun asks => blind ?_)
        (signs code rfl) budget executed)
      rw [(Instruction.ofCode_eq_depth_iff code).mp asks]
    -- The count fails in the frame only, so what was spent before makes the difference.
    · obtain ⟨counts, full⟩ := Classical.not_imp.mp budget
      have own := (stepCode_eq_ok_iff.mp executed).1 counts
      have stopped : stepCode env code offset' t = _ :=
        stepCode_eq_error counts (Nat.not_le.mp full)
      rw [embeds.operations] at full
      have counted : (Chunk.op code).isOperation = true := decide_eq_true counts
      rw [if_pos counted] at operations
      exact .inr ⟨_, _, estate_bind_of_error stopped, .operations (by omega) (by omega)⟩

/-! ### Rows of chunks -/

/-- A run that succeeds does the same inside of the frame, unless it needs more room behind one of
its chunks. -/
theorem steps_in_frame {chunks chunks' : List PlacedChunk} (embeds : f.Embeds s t)
    (row : List.Forall₂ f.Admits chunks chunks') (ran : steps env chunks s = .ok () s') :
    (∃ t', steps env chunks' t = .ok () t' ∧ f.Embeds s' t') ∨
      ∃ front back u cause t', chunks = front ++ back ∧ front ≠ [] ∧
        steps env front s = .ok () u ∧
        steps env chunks' t = .error (.evaluation cause) t' ∧ f.Overruns u t' cause := by
  induction row generalizing s t with
  | nil =>
    rw [steps_nil_eq_ok_iff.mp ran]
    exact .inl ⟨t, rfl, embeds⟩
  | @cons c c' chunks chunks' admits row ih =>
    obtain ⟨between, stepped, rest⟩ := steps_cons_eq_ok_iff.mp ran
    obtain ⟨outer, steppedOuter, embedsOuter⟩ | ⟨cause, t', stopped, overruns⟩ :=
      step_in_frame embeds admits stepped
    · have onward : steps env (c' :: chunks') t = steps env chunks' outer := by
        rw [steps, estate_bind_of_ok steppedOuter]
      rw [onward]
      obtain success | ⟨front, back, u, cause, t', rfl, -, reached, stopped, overruns⟩ :=
        ih embedsOuter rest
      · exact .inl success
      · exact .inr ⟨c :: front, back, u, cause, t', rfl, by simp,
          steps_cons_eq_ok_iff.mpr ⟨between, stepped, reached⟩, stopped, overruns⟩
    -- The first chunk that needs more room ends the run inside of the frame.
    · refine .inr ⟨[c], chunks, between, cause, t', rfl, by simp,
        steps_cons_eq_ok_iff.mpr ⟨between, stepped, rfl⟩, ?_, overruns⟩
      rw [steps, estate_bind_of_error stopped]

end Frame

theorem depth_of_step {env : Environment} {s s' : State} {c : PlacedChunk}
    (stepped : step env c s = .ok () s') :
    s'.stack.length + s'.altStack.length ≤ Limits.stackSize := by
  obtain ⟨chunk, offset⟩ := c
  cases chunk with
  | push => exact (step_push_eq_ok_iff.mp stepped).2
  | op => exact (step_op_eq_ok_iff.mp stepped).2

/-- Behind each chunk the stacks are checked, whatever the run began with. -/
theorem depth_of_steps {env : Environment} {s s' : State} {chunks : List PlacedChunk}
    (nonempty : chunks ≠ []) (ran : steps env chunks s = .ok () s') :
    s'.stack.length + s'.altStack.length ≤ Limits.stackSize := by
  induction chunks generalizing s with
  | nil => exact absurd rfl nonempty
  | cons c chunks ih =>
    obtain ⟨between, stepped, rest⟩ := steps_cons_eq_ok_iff.mp ran
    by_cases last : chunks = []
    · subst last
      rw [steps_nil_eq_ok_iff.mp rest]
      exact depth_of_step stepped
    · exact ih last rest

end Machine

end TokenLedger
