import TokenLedger.Machine.Instruction
import TokenLedger.Machine.LockTime
import TokenLedger.Machine.SignatureCheck

/-!
# Running scripts

The machine takes the chunks of a script one after the other. A push puts its data on the stack,
a code is an instruction. Inside a conditional part that is not executed only the conditional
instructions take effect, but limits and disabled codes still fail the run. At the end every
conditional part has to be closed.

Embeds `Interpreter::run`, `execute_opcode` and `execute_script` (`script::interpreter`).
-/

namespace TokenLedger

namespace Machine

/-- Conditional instructions take effect in skipped parts too: a part that opens inside a skipped
one is never executed before it turns. -/
def conditional : Conditional → MachineM Unit
  | .branch expected => fun s =>
    if !s.isActive then .ok () { s with branches := false :: s.branches }
    else
      match s.stack with
      | [] => .error (.evaluation .unbalancedConditional) s
      | top :: stack =>
        .ok () { s with stack, branches := (ScriptNumber.isTrue top == expected) :: s.branches }
  | .otherwise => fun s =>
    match s.branches with
    | [] => .error (.evaluation .unbalancedConditional) s
    | inner :: outer => .ok () { s with branches := (!inner) :: outer }
  | .close => fun s =>
    match s.branches with
    | [] => .error (.evaluation .unbalancedConditional) s
    | _ :: outer => .ok () { s with branches := outer }

/-- Puts a verdict on the stack, or fails unless it is good. -/
def conclude (verify accepted : Bool) (cause : ScriptError) : MachineM Unit :=
  if verify then
    if accepted then pure () else fault cause
  else push (ScriptNumber.ofBool accepted)

/-- Executes the instruction of the code at a chunk. -/
def execute (env : Environment) (code : UInt8) (offset : Nat) : Instruction → MachineM Unit
  | .stack op => onStack (op.apply env.flags.requiresMinimal)
  | .nop => pure ()
  | .conditional op => conditional op
  | .fail => fault .returnExecuted
  | .toAltStack => do
    let top ← pop
    modify fun s => { s with altStack := top :: s.altStack }
  | .fromAltStack => fun s =>
    match s.altStack with
    | [] => .error (.evaluation .invalidAltStackOperation) s
    | top :: altStack => .ok () { s with stack := top :: s.stack, altStack }
  | .codeSeparator => modify fun s => { s with separator := offset + 1 }
  | .checkSig verify => do
    conclude verify (← checkSig env) .checkSigVerifyFailed
  | .checkMultiSig verify => do
    conclude verify (← checkMultiSig env) .checkMultiSigVerifyFailed
  | .checkLockTime =>
    if env.flags.has .checkLockTime then
      onStack fun stack => (env.checkLockTime stack).map fun () => stack
    else if env.flags.has .discourageNops then fault (.discouragedNop code)
    else pure ()
  | .reservedNop =>
    if env.flags.has .discourageNops then fault (.discouragedNop code) else pure ()
  | .disabled => fault (.disabledOpcode code)
  | .forbidden | .unknown => fault (.badOpcode code)

/-- The instruction takes effect wherever it stands. -/
def takesEffectWhenSkipped : Instruction → Bool
  | .conditional _ | .disabled | .forbidden => true
  | _ => false

/-- A push, executed or skipped. -/
def stepPush (env : Environment) (chunk : Chunk) (data : Bytes) : MachineM Unit := do
  if Limits.elementSize < data.length then fault .pushSize
  if (← get).isActive then
    if env.flags.requiresMinimal && !chunk.isShortestPush then fault .minimalData
    push data

/-- A code, executed or skipped. Codes above the numbers count as operations. -/
def stepCode (env : Environment) (code : UInt8) (offset : Nat) : MachineM Unit := do
  if Opcode.sixteen < code then countOperations 1
  let instruction := Instruction.ofCode code
  if (← get).isActive || takesEffectWhenSkipped instruction then
    execute env code offset instruction

def checkStackSize : MachineM Unit := do
  let s ← get
  if Limits.stackSize < s.stack.length + s.altStack.length then fault .stackSize

def step (env : Environment) (c : PlacedChunk) : MachineM Unit := do
  match c.chunk with
  | .push _ data => stepPush env c.chunk data
  | .op code => stepCode env code c.offset
  checkStackSize

def steps (env : Environment) : List PlacedChunk → MachineM Unit
  | [] => pure ()
  | c :: chunks => do
    step env c
    steps env chunks

/-- Runs the script of an environment. -/
def run (env : Environment) : MachineM Unit := do
  steps env env.script.chunks
  if !(← get).branches.isEmpty then fault .unbalancedConditional

end Machine

namespace Script

/-- The stack that a script leaves, started on `stack`. -/
def execute (script : Script) (context : Option SpendContext) (flags : Flags) (stack : Stack) :
    Except Error Stack :=
  match Machine.run { context, script, flags } { stack } with
  | .ok () s => .ok s.stack
  | .error e _ => .error e

/-- Executes a program without an input to spend: whether it leaves a true value, and its stack. -/
def evaluate (program : Bytes) (flags : Flags) (stack : Stack) : Except Error (Bool × Stack) := do
  let stack ← (← parse program).execute none flags stack
  return (stack.isTrue, stack)

end Script

end TokenLedger
