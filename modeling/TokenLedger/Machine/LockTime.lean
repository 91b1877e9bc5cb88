import TokenLedger.Machine.State

/-!
# Lock times

A script may demand that the transaction spending it cannot be included before some time. Lock
times below a threshold are heights of blocks, the others are times of day, and the two kinds do
not compare.

Embeds `op_check_lock_time_verify` (`script::interpreter`).
-/

namespace TokenLedger

namespace LockTime

/-- The least lock time that is a time of day. -/
def threshold : Nat := 500000000

/-- The transaction's lock time is of the same kind as the required one and not before it. -/
def satisfies (lockTime : Nat) (required : Int) : Bool :=
  (lockTime < threshold : Bool) == (required < threshold : Bool) && required ≤ lockTime

end LockTime

/-- The top of the stack is a lock time, of up to five bytes, that the transaction satisfies, and
its input does not switch lock times off. The stack is not changed. -/
def Environment.checkLockTime (env : Environment) (stack : Stack) : Except Error Unit := do
  match stack with
  | [] => throw StackOp.underflow
  | top :: _ =>
    let required ←
      ScriptNumber.decode ScriptNumber.lockTimeWidth env.flags.requiresMinimal top
    if required < 0 then throw (.evaluation .negativeLockTime)
    match env.context with
    | none => throw (.evaluation .unsatisfiedLockTime)
    | some { tx, inputIndex } =>
      if !LockTime.satisfies tx.lockTime.toNat required then
        throw (.evaluation .unsatisfiedLockTime)
      match tx.inputs[inputIndex]? with
      | none => throw (.invalidInputIndex inputIndex)
      | some input => if input.isFinal then throw (.evaluation .unsatisfiedLockTime)

end TokenLedger
