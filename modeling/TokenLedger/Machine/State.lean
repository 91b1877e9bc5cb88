import TokenLedger.Flags
import TokenLedger.Machine.Stack
import TokenLedger.Script.Basic
import TokenLedger.Transaction.Basic

/-!
# State of the machine

What a run works on, and what it may not exceed. Besides the stack there is a second one to put
elements aside, the open conditional parts, the number of operations so far, and the place in the
script after which signatures commit to it. The machine keeps a record of the signature checks it
has made, failed runs included.

Embeds `TxContext`, the fields of `Interpreter`, `pop`, `require` and `add_ops`
(`script::interpreter`), and the limits (`constants`). The record of checks has no counterpart
there: no action reads it, and results speak of the checks that were made through it.
-/

namespace TokenLedger

namespace Limits

/-- Bytes of a script that takes part in a spend. -/
def scriptSize : Nat := 10000

/-- Elements of both stacks together. -/
def stackSize : Nat := 1000

/-- Operations of one run, where each key of a check of many signatures counts. -/
def operations : Nat := 201

/-- Bytes of a pushed element. -/
def elementSize : Nat := 520

/-- Keys of a check of many signatures. -/
def keys : Nat := 20

end Limits

/-- The input of a transaction that a script is executed for. -/
structure SpendContext where
  tx : Transaction
  inputIndex : Nat

/-- What stays the same during a run. -/
structure Environment where
  context : Option SpendContext
  script : Script
  flags : Flags

/-- A signature that was checked against a key, and what came of it. -/
structure SignatureCheck where
  signature : Bytes
  key : Bytes
  verdict : Except Error Bool

structure State where
  stack : Stack
  altStack : Stack := []
  /-- For each open conditional part, the innermost first, whether it is executed. -/
  branches : List Bool := []
  operations : Nat := 0
  /-- The offset from which on signatures commit to the script. -/
  separator : Nat := 0
  /-- The newest comes first. -/
  checks : List SignatureCheck := []

/-- No open part is skipped. -/
def State.isActive (s : State) : Bool := s.branches.all id

/-- An action of the machine. When it fails, the state it was in is still there. -/
abbrev MachineM := EStateM Error State

namespace Machine

def fault {α : Type} (cause : ScriptError) : MachineM α := throw (.evaluation cause)

/-- Acts on the stack alone. -/
def onStack (f : Stack → Except Error Stack) : MachineM Unit := fun s =>
  match f s.stack with
  | .ok stack => .ok () { s with stack }
  | .error e => .error e s

def push (bytes : Bytes) : MachineM Unit := modify fun s => { s with stack := bytes :: s.stack }

def pop : MachineM Bytes := fun s =>
  match s.stack with
  | [] => .error StackOp.underflow s
  | top :: stack => .ok top { s with stack }

/-- Takes so many elements, the top first. One more has to be there. -/
def popBelowOne (count : Nat) : MachineM (List Bytes) := fun s =>
  if s.stack.length < count + 1 then .error StackOp.underflow s
  else .ok (s.stack.take count) { s with stack := s.stack.drop count }

def countOperations (count : Nat) : MachineM Unit := do
  modify fun s => { s with operations := s.operations + count }
  if Limits.operations < (← get).operations then fault .tooManyOperations

end Machine

end TokenLedger
