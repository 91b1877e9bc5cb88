import TokenLedger.Machine.Run
import TokenLedger.Script.Pattern

/-!
# Spends

An input may spend an output if its unlocking script, and after it the locking script of the
output, leave a true value. Where the output pays to a script hash, the script with that hash is
then executed on what the unlocking script pushed before it.

Embeds `correctly_spends` (`script::verify`) and `TangleConsensus::verify_spend_with_flags`.
-/

namespace TokenLedger

namespace Spend

/-- The verdict on a stack that has to be true. -/
def requireTrue (stack : Stack) : Except Error Unit :=
  if stack.isTrue then .ok () else .error (.evaluation .evaluatedToFalse)

/-- Executes the redeem script on top of what an unlocking script left. Only pushes may have built
it. -/
def runRedeem (context : SpendContext) (flags : Flags) (unlocking : Script) (stack : Stack) :
    Except Error Stack := do
  if !unlocking.isPushOnly then throw (.evaluation .unlockingNotPushOnly)
  match stack with
  | [] => throw StackOp.underflow
  | program :: arguments =>
    let redeem ← Script.parse program
    let stack ← redeem.execute (some context) flags arguments
    requireTrue stack
    return stack

/-- Authorizes the input at `inputIndex` to spend an output, or says why not. -/
def verify (unlocking : Script) (tx : Transaction) (inputIndex : Nat) (locking : Script)
    (flags : Flags) : Except Error Unit := do
  if tx.inputs.length ≤ inputIndex then throw (.invalidInputIndex inputIndex)
  let context : SpendContext := { tx, inputIndex }
  if Limits.scriptSize < unlocking.length ∨ Limits.scriptSize < locking.length then
    throw (.evaluation .scriptSize)
  if flags.has .pushOnly && !unlocking.isPushOnly then
    throw (.evaluation .unlockingNotPushOnly)
  let unlocked ← unlocking.execute (some context) flags []
  let stack ← locking.execute (some context) flags unlocked
  requireTrue stack
  let final ←
    if flags.has .scriptHash && locking.isScriptHash then
      runRedeem context flags unlocking unlocked
    else pure stack
  if flags.has .scriptHash && flags.has .cleanStack && final.length != 1 then
    throw (.evaluation .stackNotClean)

/-- Authorizes an input with the unlocking script that it carries, for the locking script with the
given program. -/
def verifyInput (tx : Transaction) (inputIndex : Nat) (lockingProgram : Bytes) (flags : Flags) :
    Except Error Unit := do
  match tx.inputs[inputIndex]? with
  | none => throw (.invalidInputIndex inputIndex)
  | some input =>
    let unlocking ← Script.parse input.unlockingScript
    let locking ← Script.parse lockingProgram
    verify unlocking tx inputIndex locking flags

end Spend

end TokenLedger
