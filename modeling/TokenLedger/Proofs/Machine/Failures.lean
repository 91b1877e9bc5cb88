import TokenLedger.Proofs.Machine.Composition
import TokenLedger.Proofs.Machine.Step

/-!
# What stops a run

A run is stopped by a rule of execution, or because the input that it is for is none of its
transaction. What goes wrong while a signature or a key is read only makes the check negative.
Actions are taken apart along their sequences: where every part fails for such causes only, the
whole does.
-/

namespace TokenLedger

/-! ### Kinds of failures -/

/-- A rule of execution was broken. -/
def Error.IsEvaluation (e : Error) : Prop := ∃ cause, e = .evaluation cause

/-- The program bytes are not a sequence of chunks. -/
def Error.IsScriptParse (e : Error) : Prop := ∃ offset fault, e = .scriptParse offset fault

/-- The input to be spent is none of its transaction. -/
def SpendContext.IsMissing (context : Option SpendContext) (index : Nat) : Prop :=
  ∃ tx : Transaction, context = some ⟨tx, index⟩ ∧ tx.inputs.length ≤ index

/-- What may stop a run. -/
inductive Error.Stops (context : Option SpendContext) : Error → Prop where
  | evaluation (cause : ScriptError) : Stops context (.evaluation cause)
  | missing {index : Nat} (missing : SpendContext.IsMissing context index) :
      Stops context (.invalidInputIndex index)

/-- All failures of the computation are of one kind. -/
def FailsOnly {α : Type} (kind : Error → Prop) (x : Except Error α) : Prop :=
  ∀ e, x = .error e → kind e

namespace FailsOnly

variable {α β : Type} {kind : Error → Prop} {x : Except Error α}

theorem ok (value : α) : FailsOnly kind (.ok value : Except Error α) := by
  intro e failed
  cases failed

theorem error {e : Error} (holds : kind e) : FailsOnly kind (.error e : Except Error α) := by
  intro _ failed
  cases failed
  exact holds

/-- What follows matters only for what the first part yields. -/
theorem bind_of_ok {next : α → Except Error β} (head : FailsOnly kind x)
    (tail : ∀ value, x = .ok value → FailsOnly kind (next value)) :
    FailsOnly kind (x >>= next) := by
  intro e failed
  rcases except_bind_eq_error.mp failed with first | ⟨value, yielded, rest⟩
  · exact head e first
  · exact tail value yielded e rest

theorem bind {next : α → Except Error β} (head : FailsOnly kind x)
    (tail : ∀ value, FailsOnly kind (next value)) : FailsOnly kind (x >>= next) :=
  head.bind_of_ok fun value _ => tail value

theorem map {f : α → β} (fails : FailsOnly kind x) : FailsOnly kind (x.map f) := by
  intro e failed
  exact fails e (except_map_eq_error.mp failed)

theorem ite {condition : Prop} [Decidable condition] {y : Except Error α}
    (yes : FailsOnly kind x) (no : FailsOnly kind y) :
    FailsOnly kind (if condition then x else y) := by
  split
  · exact yes
  · exact no

/-- A guard in front of other statements. -/
theorem guard {blocked : Prop} [Decidable blocked] {failure : Error} {after : β → Except Error α}
    (holds : kind failure) (rest : FailsOnly kind x) :
    FailsOnly kind (if blocked then throw failure >>= after else x) := by
  intro e failed
  rcases guard_bind_eq_error.mp failed with ⟨-, rfl⟩ | ⟨-, later⟩
  · exact holds
  · exact rest e later

theorem mono {wider : Error → Prop} (implies : ∀ e, kind e → wider e) (fails : FailsOnly kind x) :
    FailsOnly wider x := fun e failed => implies e (fails e failed)

end FailsOnly

variable {context : Option SpendContext} {env : Environment}

/-! ### The stack -/

theorem ScriptNumber.decode_failsOnly (width : Nat) (minimal : Bool) (bytes : Bytes) :
    FailsOnly (Error.Stops context) (ScriptNumber.decode width minimal bytes) := by
  intro e failed
  obtain ⟨cause, rfl⟩ := ScriptNumber.exists_cause_of_decode failed
  exact .evaluation cause

theorem StackOp.elementAt_failsOnly (stack : Stack) (depth : Int) :
    FailsOnly (Error.Stops context) (elementAt stack depth) := by
  refine .ite (.error (.evaluation _)) ?_
  cases stack[depth.toNat]? with
  | none => exact .error (.evaluation _)
  | some element => exact .ok _

theorem StackOp.apply_failsOnly (minimal : Bool) (op : StackOp) (stack : Stack) :
    FailsOnly (Error.Stops context) (op.apply minimal stack) := by
  have operand (bytes : Bytes) : FailsOnly (Error.Stops context) (operand minimal bytes) :=
    ScriptNumber.decode_failsOnly _ _ _
  have underflow : FailsOnly (Error.Stops context) (.error underflow : Except Error Stack) :=
    .error (.evaluation _)
  cases op with
  | push | depth => exact .ok _
  | shuffle op =>
    cases moved : op.apply? stack with
    | none =>
      rw [apply, moved]
      exact underflow
    | some result =>
      rw [apply, moved]
      exact .ok result
  | ifDup | size | hash =>
    cases stack with
    | nil => exact underflow
    | cons a rest => exact .ok _
  | pick | roll =>
    cases stack with
    | nil => exact underflow
    | cons n rest => exact .bind (operand n) fun _ => .bind (elementAt_failsOnly _ _) fun _ => .ok _
  | verify =>
    cases stack with
    | nil => exact underflow
    | cons a rest => exact .ite (.ok _) (.error (.evaluation _))
  | unary op =>
    cases stack with
    | nil => exact underflow
    | cons a rest => exact .bind (operand a) fun _ => .ok _
  | equal =>
    rcases stack with _ | ⟨a, _ | ⟨b, rest⟩⟩
    · exact underflow
    · exact underflow
    · exact .ok _
  | equalVerify =>
    rcases stack with _ | ⟨a, _ | ⟨b, rest⟩⟩
    · exact underflow
    · exact underflow
    · exact .ite (.ok _) (.error (.evaluation _))
  | binary op =>
    rcases stack with _ | ⟨b, _ | ⟨a, rest⟩⟩
    · exact underflow
    · exact underflow
    · exact .bind (operand b) fun _ => .bind (operand a) fun _ => .ok _
  | numEqualVerify =>
    rcases stack with _ | ⟨b, _ | ⟨a, rest⟩⟩
    · exact underflow
    · exact underflow
    · exact .bind (operand b) fun _ => .bind (operand a) fun _ =>
        .ite (.ok _) (.error (.evaluation _))
  | within =>
    rcases stack with _ | ⟨upper, _ | ⟨lower, _ | ⟨a, rest⟩⟩⟩
    · exact underflow
    · exact underflow
    · exact underflow
    · exact .bind (operand upper) fun _ => .bind (operand lower) fun _ =>
        .bind (operand a) fun _ => .ok _

/-! ### The input -/

namespace Environment

theorem checkEncodings_failsOnly (signature key : Bytes) :
    FailsOnly (Error.Stops context) (env.checkEncodings signature key) := by
  have keyCheck : FailsOnly (Error.Stops context)
      (if (env.flags.has .strictEncoding && !PublicKey.isPlainEncoding key) = true then
        throw (.evaluation .pubkeyEncoding)
      else pure () : Except Error Unit) := .ite (.error (.evaluation _)) (.ok _)
  exact .ite (.guard (.evaluation _) (.guard (.evaluation _) keyCheck)) keyCheck

/-- A digest is that of an input that is there. -/
theorem digest_failsOnly (tx : Transaction) (index : Nat) (script : Script) (hashType : HashType) :
    FailsOnly (Error.Stops (some ⟨tx, index⟩))
      (SignatureHash.digest tx index script hashType) := by
  intro e failed
  unfold SignatureHash.digest at failed
  split at failed
  next outside =>
    cases failed
    exact .missing ⟨tx, rfl, outside⟩
  next => split at failed <;> cases failed

/-- Bytes that are no signature or no key are not accepted, and stop nothing. -/
theorem checkSignature_failsOnly (connected : Script) (signature key : Bytes) :
    FailsOnly (Error.Stops env.context) (env.checkSignature connected signature key) := by
  refine .bind (checkEncodings_failsOnly _ _) fun _ => ?_
  cases env.context with
  | none => exact .ok _
  | some context =>
    dsimp only
    split
    next => exact .bind (digest_failsOnly _ _ _ _) fun _ => .ok _
    next => exact .ok _

theorem checkLockTime_failsOnly (stack : Stack) :
    FailsOnly (Error.Stops env.context) (env.checkLockTime stack) := by
  unfold checkLockTime
  cases stack with
  | nil => exact .error (.evaluation _)
  | cons top rest =>
    refine .bind (ScriptNumber.decode_failsOnly _ _ _) fun required => ?_
    refine .guard (.evaluation _) ?_
    cases env.context with
    | none => exact .error (.evaluation _)
    | some context =>
      obtain ⟨tx, index⟩ := context
      refine .guard (.evaluation _) ?_
      cases found : tx.inputs[index]? with
      | none => exact .error (.missing ⟨tx, rfl, List.getElem?_eq_none_iff.mp found⟩)
      | some input => exact .ite (.error (.evaluation _)) (.ok _)

end Environment

/-! ### Actions -/

namespace Machine

/-- The action stops only for what may stop a run in the environment. -/
def StopsWithin {α : Type} (env : Environment) (m : MachineM α) : Prop :=
  ∀ s e s', m s = .error e s' → e.Stops env.context

namespace StopsWithin

variable {α β : Type} {m : MachineM α}

theorem pure (value : α) : StopsWithin env (Pure.pure value : MachineM α) := by
  intro s e s' stopped
  cases stopped

theorem fault (cause : ScriptError) : StopsWithin env (Machine.fault cause : MachineM α) := by
  intro s e s' stopped
  cases stopped
  exact .evaluation cause

theorem modify (change : State → State) : StopsWithin env (modify change : MachineM Unit) := by
  intro s e s' stopped
  cases stopped

theorem get : StopsWithin env (MonadState.get : MachineM State) := by
  intro s e s' stopped
  cases stopped

theorem bind {next : α → MachineM β} (head : StopsWithin env m)
    (tail : ∀ value, StopsWithin env (next value)) : StopsWithin env (m >>= next) := by
  intro s e s' stopped
  cases ran : m s with
  | error first between =>
    rw [estate_bind_of_error ran] at stopped
    cases stopped
    exact head s e s' ran
  | ok value between =>
    rw [estate_bind_of_ok ran] at stopped
    exact tail value between e s' stopped

theorem ite {condition : Prop} [Decidable condition] {n : MachineM α} (yes : StopsWithin env m)
    (no : StopsWithin env n) : StopsWithin env (if condition then m else n) := by
  split
  · exact yes
  · exact no

/-- A guard in front of other actions. -/
theorem guard {blocked : Prop} [Decidable blocked] {cause : ScriptError} {after : β → MachineM α}
    (rest : StopsWithin env m) :
    StopsWithin env (if blocked then Machine.fault cause >>= after else m) := by
  refine .ite ?_ rest
  intro s e s' stopped
  cases stopped
  exact .evaluation cause

end StopsWithin

theorem onStack_stopsWithin {act : Stack → Except Error Stack}
    (fails : ∀ stack, FailsOnly (Error.Stops env.context) (act stack)) :
    StopsWithin env (onStack act) := by
  intro s e s' stopped
  unfold onStack at stopped
  split at stopped
  next => cases stopped
  next failed =>
    cases stopped
    exact fails s.stack e failed

theorem pop_stopsWithin : StopsWithin env pop := by
  intro s e s' stopped
  unfold pop at stopped
  split at stopped
  next =>
    cases stopped
    exact .evaluation _
  next => cases stopped

theorem popBelowOne_stopsWithin (count : Nat) : StopsWithin env (popBelowOne count) := by
  intro s e s' stopped
  unfold popBelowOne at stopped
  split at stopped
  next =>
    cases stopped
    exact .evaluation _
  next => cases stopped

theorem countOperations_stopsWithin (count : Nat) : StopsWithin env (countOperations count) :=
  .bind (.modify _) fun _ => .bind .get fun _ => .ite (.fault _) (.pure _)

theorem conditional_stopsWithin (op : Conditional) : StopsWithin env (conditional op) := by
  intro s e s' stopped
  unfold conditional at stopped
  cases op with
  | branch expected =>
    dsimp only at stopped
    split at stopped
    next => cases stopped
    next =>
      split at stopped
      next =>
        cases stopped
        exact .evaluation _
      next => cases stopped
  | otherwise | close =>
    dsimp only at stopped
    split at stopped
    next =>
      cases stopped
      exact .evaluation _
    next => cases stopped

/-! ### Signature checks -/

theorem checkRecorded_stopsWithin (connected : Script) (signature key : Bytes) :
    StopsWithin env (checkRecorded env connected signature key) := by
  intro s e s' stopped
  unfold checkRecorded at stopped
  dsimp only at stopped
  split at stopped
  next => cases stopped
  next failed =>
    cases stopped
    exact env.checkSignature_failsOnly connected signature key e failed

theorem checkSig_stopsWithin : StopsWithin env (checkSig env) := by
  intro s e s' stopped
  unfold checkSig at stopped
  split at stopped
  next key signature stack _ =>
    exact checkRecorded_stopsWithin _ _ _ { s with stack } e s' stopped
  next =>
    cases stopped
    exact .evaluation _

theorem StopsWithin.compositional : Compositional fun _ m _ => StopsWithin env m where
  pure := .pure
  fault := .fault
  bind := .bind

theorem StopsWithin.relatesChecks : RelatesChecks (fun _ m _ => StopsWithin env m) env env where
  toCompositional := compositional
  pop := pop_stopsWithin
  popCount := compositional.popCount pop_stopsWithin
  popBelowOne := popBelowOne_stopsWithin
  countOperations := countOperations_stopsWithin
  atSeparator _ _ each := .bind .get fun _ => each _
  checkRecorded _ _ := checkRecorded_stopsWithin _
  rejectDummy _ := compositional.guard _

/-! ### Chunks and runs -/

theorem fromAltStack_stopsWithin (code : UInt8) (offset : Nat) :
    StopsWithin env (execute env code offset .fromAltStack) := by
  intro s e s' stopped
  simp only [execute] at stopped
  split at stopped
  next =>
    cases stopped
    exact .evaluation _
  next => cases stopped

theorem StopsWithin.relatesInstruction (code : UInt8) (offset : Nat) (instruction : Instruction) :
    RelatesInstruction (fun _ m _ => StopsWithin env m) env code offset offset instruction where
  toCompositional := compositional
  stackOp _ _ := onStack_stopsWithin fun _ => StackOp.apply_failsOnly _ _ _
  conditional op _ := conditional_stopsWithin op
  push _ := .modify _
  pop := pop_stopsWithin
  putAside _ := .modify _
  takeBack := fromAltStack_stopsWithin code offset
  separate _ := .modify _
  checkSig _ _ := checkSig_stopsWithin
  checkMultiSig _ _ := relatesChecks.checkMultiSig
  checkLockTime := onStack_stopsWithin fun stack => .map (env.checkLockTime_failsOnly stack)

theorem execute_stopsWithin (code : UInt8) (offset : Nat) (instruction : Instruction) :
    StopsWithin env (execute env code offset instruction) :=
  (StopsWithin.relatesInstruction code offset instruction).execute

theorem stepPush_stopsWithin (chunk : Chunk) (data : Bytes) :
    StopsWithin env (stepPush env chunk data) :=
  .guard (.bind .get fun _ => .ite (.guard (.modify _)) (.pure _))

theorem stepCode_stopsWithin (code : UInt8) (offset : Nat) :
    StopsWithin env (stepCode env code offset) := by
  have effect : StopsWithin env (do
      if (← MonadState.get).isActive || takesEffectWhenSkipped (Instruction.ofCode code) then
        execute env code offset (Instruction.ofCode code)) :=
    .bind .get fun _ => .ite (execute_stopsWithin _ _ _) (.pure _)
  exact .ite (.bind (countOperations_stopsWithin 1) fun _ => effect) effect

theorem checkStackSize_stopsWithin : StopsWithin env checkStackSize :=
  .bind .get fun _ => .ite (.fault _) (.pure _)

theorem step_stopsWithin (c : PlacedChunk) : StopsWithin env (step env c) := by
  obtain ⟨chunk, offset⟩ := c
  cases chunk with
  | push code data =>
    exact .bind (stepPush_stopsWithin _ _) fun _ => checkStackSize_stopsWithin
  | op code => exact .bind (stepCode_stopsWithin _ _) fun _ => checkStackSize_stopsWithin

theorem steps_stopsWithin (chunks : List PlacedChunk) : StopsWithin env (steps env chunks) := by
  induction chunks with
  | nil => exact .pure _
  | cons c chunks ih => exact .bind (step_stopsWithin c) fun _ => ih

theorem run_stopsWithin : StopsWithin env (run env) :=
  .bind (steps_stopsWithin _) fun _ => .bind .get fun _ => .ite (.fault _) (.pure _)

end Machine

/-- A script fails for what may stop its run. -/
theorem Script.execute_failsOnly (script : Script) (context : Option SpendContext) (flags : Flags)
    (stack : Stack) :
    FailsOnly (Error.Stops context) (script.execute context flags stack) := by
  intro e failed
  unfold execute at failed
  split at failed
  next => cases failed
  next stopped =>
    cases failed
    exact Machine.run_stopsWithin _ _ _ stopped

end TokenLedger
