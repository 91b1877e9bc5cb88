import TokenLedger.Machine.Run
import TokenLedger.Proofs.Machine.Matching

/-!
# Actions from their parts

Several properties of actions pass from the parts of an action to the whole: that it fails for some
causes only, that it leaves something of the state alone, that a second machine does the same. Each
of them is a relation between two actions, where a property of a single one does not look at the
second. The walk through the check of many signatures and through the instructions asks little of
such a relation, and is done here for all of them.
-/

namespace TokenLedger

/-- Numbers are refused by rules of execution. -/
theorem ScriptNumber.exists_cause_of_decode {maxWidth : Nat} {minimal : Bool} {bytes : Bytes}
    {e : Error} (failed : decode maxWidth minimal bytes = .error e) :
    ∃ cause, e = .evaluation cause := by
  unfold decode at failed
  split at failed
  next =>
    cases failed
    exact ⟨_, rfl⟩
  next =>
    split at failed
    next =>
      cases failed
      exact ⟨_, rfl⟩
    next => cases failed

namespace Machine

/-- A relation between actions with results of the same type. -/
abbrev ActionRelation := ∀ ⦃α : Type⦄, MachineM α → MachineM α → Prop

/-- Results and failures are related to themselves, and sequences if their parts are. -/
structure Compositional (R : ActionRelation) : Prop where
  pure : ∀ {α : Type} (value : α), R (Pure.pure value) (Pure.pure value)
  fault : ∀ {α : Type} (cause : ScriptError),
    R (Machine.fault cause : MachineM α) (Machine.fault cause)
  bind : ∀ {α β : Type} {m n : MachineM α} {next next' : α → MachineM β}, R m n →
    (∀ value, R (next value) (next' value)) → R (m >>= next) (n >>= next')

variable {R : ActionRelation} {env env' : Environment}

theorem relates_ite {α : Type} {condition : Prop} [Decidable condition] {m n m' n' : MachineM α}
    (yes : R m n) (no : R m' n') :
    R (if condition then m else m') (if condition then n else n') := by
  split
  · exact yes
  · exact no

/-! ### Matching -/

namespace Compositional

theorem matchInOrder (closed : Compositional R) {accepts accepts' : Bytes → Bytes → MachineM Bool}
    (each : ∀ signature key, R (accepts signature key) (accepts' signature key))
    (signatures keys : List Bytes) :
    R (TokenLedger.matchInOrder accepts signatures keys)
      (TokenLedger.matchInOrder accepts' signatures keys) := by
  induction keys generalizing signatures with
  | nil => cases signatures <;> exact closed.pure _
  | cons key keys ih =>
    cases signatures with
    | nil => exact closed.pure _
    | cons signature signatures =>
      unfold TokenLedger.matchInOrder
      exact relates_ite (closed.pure _)
        (closed.bind (each signature key) fun _ => relates_ite (ih _) (ih _))

theorem matchFrom (closed : Compositional R) {accepts accepts' : Bytes → Bytes → MachineM Bool}
    (each : ∀ signature key, R (accepts signature key) (accepts' signature key))
    (signatures keys : List Bytes) :
    R (Machine.matchFrom accepts signatures keys 0 0)
      (Machine.matchFrom accepts' signatures keys 0 0) := by
  rw [matchFrom_start, matchFrom_start]
  exact closed.matchInOrder each signatures keys

/-! ### Operands and verdicts -/

theorem popCount (closed : Compositional R) (pop : R Machine.pop Machine.pop) (maximum : Nat)
    (cause : ScriptError) :
    R (Machine.popCount env maximum cause) (Machine.popCount env maximum cause) := by
  refine closed.bind pop fun bytes => ?_
  cases reads : StackOp.operand env.flags.requiresMinimal bytes with
  | error e =>
    obtain ⟨cause, rfl⟩ := ScriptNumber.exists_cause_of_decode reads
    exact closed.fault cause
  | ok n => exact relates_ite (closed.pure _) (closed.fault cause)

/-- A guard in front of a result. -/
theorem guard (closed : Compositional R) {α : Type} {blocked : Prop} [Decidable blocked]
    (cause : ScriptError) (value : α) :
    R (do
        if blocked then Machine.fault cause
        return value)
      (do
        if blocked then Machine.fault cause
        return value) :=
  relates_ite (closed.bind (closed.fault _) fun _ => closed.pure _) (closed.pure _)

theorem conclude (closed : Compositional R)
    (push : ∀ bytes, R (Machine.push bytes) (Machine.push bytes)) (verify accepted : Bool)
    (cause : ScriptError) :
    R (Machine.conclude verify accepted cause) (Machine.conclude verify accepted cause) := by
  cases verify with
  | true =>
    cases accepted with
    | true => exact closed.pure _
    | false => exact closed.fault cause
  | false => exact push _

end Compositional

/-! ### Many signatures -/

/-- The parts of the check of many signatures are related, each to that of the other
environment. -/
structure RelatesChecks (R : ActionRelation) (env env' : Environment) : Prop
    extends Compositional R where
  pop : R Machine.pop Machine.pop
  popCount : ∀ maximum cause,
    R (Machine.popCount env maximum cause) (Machine.popCount env' maximum cause)
  popBelowOne : ∀ count, R (Machine.popBelowOne count) (Machine.popBelowOne count)
  countOperations : ∀ count, R (Machine.countOperations count) (Machine.countOperations count)
  /-- Of the state only the place of the separator is looked at. -/
  atSeparator : ∀ body body' : Nat → MachineM Bool, (∀ place, R (body place) (body' place)) →
    R (get >>= fun s => body s.separator) (get >>= fun s => body' s.separator)
  checkRecorded : ∀ place signatures signature key,
    R (Machine.checkRecorded env (connectedScript env place signatures) signature key)
      (Machine.checkRecorded env' (connectedScript env' place signatures) signature key)
  rejectDummy : ∀ (dummy : Bytes) (accepted : Bool),
    R (do
        if env.flags.has .nullDummy && !dummy.isEmpty then Machine.fault .dummyNotNull
        return accepted)
      (do
        if env'.flags.has .nullDummy && !dummy.isEmpty then Machine.fault .dummyNotNull
        return accepted)

namespace RelatesChecks

theorem matchOperands (relates : RelatesChecks R env env') (signatures keys : List Bytes)
    (place : Nat) :
    R (Machine.matchOperands env signatures keys place)
      (Machine.matchOperands env' signatures keys place) := by
  have closed := relates.toCompositional
  refine closed.bind ?_ fun accepted => ?_
  · exact closed.matchFrom (relates.checkRecorded place signatures) signatures keys
  · exact closed.bind relates.pop fun dummy => relates.rejectDummy dummy accepted

theorem checkMultiSig (relates : RelatesChecks R env env') :
    R (Machine.checkMultiSig env) (Machine.checkMultiSig env') := by
  have closed := relates.toCompositional
  refine closed.bind (relates.popCount _ _) fun keyCount => ?_
  refine closed.bind (relates.countOperations keyCount) fun _ => ?_
  refine closed.bind (relates.popBelowOne keyCount) fun keys => ?_
  refine closed.bind (relates.popCount _ _) fun signatureCount => ?_
  refine closed.bind (relates.popBelowOne signatureCount) fun signatures => ?_
  exact relates.atSeparator _ _ (relates.matchOperands signatures keys)

end RelatesChecks

/-! ### Instructions -/

/-- The actions that an instruction is made of are related. The code may stand at another place. -/
structure RelatesInstruction (R : ActionRelation) (env : Environment) (code : UInt8)
    (offset offset' : Nat) (instruction : Instruction) : Prop extends Compositional R where
  stackOp : ∀ op, instruction = .stack op →
    R (onStack (op.apply env.flags.requiresMinimal)) (onStack (op.apply env.flags.requiresMinimal))
  conditional : ∀ op, instruction = .conditional op →
    R (Machine.conditional op) (Machine.conditional op)
  push : ∀ bytes, R (Machine.push bytes) (Machine.push bytes)
  pop : R Machine.pop Machine.pop
  putAside : ∀ bytes : Bytes, R (modify fun s => { s with altStack := bytes :: s.altStack })
    (modify fun s => { s with altStack := bytes :: s.altStack })
  takeBack : R (execute env code offset .fromAltStack) (execute env code offset' .fromAltStack)
  separate : instruction = .codeSeparator →
    R (modify fun s => { s with separator := offset + 1 })
      (modify fun s => { s with separator := offset' + 1 })
  checkSig : ∀ verify, instruction = .checkSig verify →
    R (Machine.checkSig env) (Machine.checkSig env)
  checkMultiSig : ∀ verify, instruction = .checkMultiSig verify →
    R (Machine.checkMultiSig env) (Machine.checkMultiSig env)
  checkLockTime :
    R (onStack fun stack => (env.checkLockTime stack).map fun () => stack)
      (onStack fun stack => (env.checkLockTime stack).map fun () => stack)

theorem RelatesInstruction.execute {code : UInt8} {offset offset' : Nat} {instruction : Instruction}
    (relates : RelatesInstruction R env code offset offset' instruction) :
    R (execute env code offset instruction) (execute env code offset' instruction) := by
  have closed := relates.toCompositional
  cases instruction with
  | stack op => exact relates.stackOp op rfl
  | nop => exact closed.pure _
  | conditional op => exact relates.conditional op rfl
  | toAltStack => exact closed.bind relates.pop relates.putAside
  | fromAltStack => exact relates.takeBack
  | codeSeparator => exact relates.separate rfl
  | checkSig verify =>
    exact closed.bind (relates.checkSig verify rfl) fun accepted =>
      closed.conclude relates.push verify accepted _
  | checkMultiSig verify =>
    exact closed.bind (relates.checkMultiSig verify rfl) fun accepted =>
      closed.conclude relates.push verify accepted _
  | checkLockTime =>
    exact relates_ite relates.checkLockTime (relates_ite (closed.fault _) (closed.pure _))
  | reservedNop => exact relates_ite (closed.fault _) (closed.pure _)
  | fail | disabled | forbidden | unknown => exact closed.fault _

end Machine

end TokenLedger
