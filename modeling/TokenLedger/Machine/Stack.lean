import TokenLedger.Hash.Ripemd160
import TokenLedger.Hash.Sha1
import TokenLedger.Number

/-!
# Stack operations

The operations that look at nothing but the stack: moving elements, tests, arithmetic and hashing.
A stack is a list with its top first. Numbers are taken from elements of at most four bytes, and
results of any size are put back.

Embeds the cases of `execute_opcode` that touch nothing but the stack, and `peek` and `pop_num`
(`script::interpreter`).
-/

namespace TokenLedger

/-- The top comes first. -/
abbrev Stack := List Bytes

/-- The top stands for a true value. -/
def Stack.isTrue (stack : Stack) : Bool :=
  match stack with
  | [] => false
  | top :: _ => ScriptNumber.isTrue top

/-- Operations that move, copy and drop elements at fixed places. -/
inductive Shuffle where
  | drop | drop2 | dup | dup2 | dup3 | nip | over1 | over2 | rot | rot2 | swap | swap2 | tuck
  deriving DecidableEq, Repr

/-- The stack afterwards; none if it is too short. -/
def Shuffle.apply? : Shuffle → Stack → Option Stack
  | drop, _ :: rest => some rest
  | drop2, _ :: _ :: rest => some rest
  | dup, a :: rest => some (a :: a :: rest)
  | dup2, a :: b :: rest => some (a :: b :: a :: b :: rest)
  | dup3, a :: b :: c :: rest => some (a :: b :: c :: a :: b :: c :: rest)
  | nip, a :: _ :: rest => some (a :: rest)
  | over1, a :: b :: rest => some (b :: a :: b :: rest)
  | over2, a :: b :: c :: d :: rest => some (c :: d :: a :: b :: c :: d :: rest)
  | rot, a :: b :: c :: rest => some (c :: a :: b :: rest)
  | rot2, a :: b :: c :: d :: e :: f :: rest => some (e :: f :: a :: b :: c :: d :: rest)
  | swap, a :: b :: rest => some (b :: a :: rest)
  | swap2, a :: b :: c :: d :: rest => some (c :: d :: a :: b :: rest)
  | tuck, a :: b :: rest => some (a :: b :: a :: rest)
  | _, _ => none

inductive UnaryOp where
  | increment | decrement | negate | abs | not | isNonZero
  deriving DecidableEq, Repr

def UnaryOp.apply (op : UnaryOp) (n : Int) : Int :=
  match op with
  | increment => n + 1
  | decrement => n - 1
  | negate => -n
  | abs => n.natAbs
  | not => if n = 0 then 1 else 0
  | isNonZero => if n = 0 then 0 else 1

inductive BinaryOp where
  | add | sub | boolAnd | boolOr | equal | notEqual
  | lessThan | greaterThan | lessOrEqual | greaterOrEqual | min | max
  deriving DecidableEq, Repr

def BinaryOp.apply (op : BinaryOp) (a b : Int) : Int :=
  match op with
  | add => a + b
  | sub => a - b
  | boolAnd => if a ≠ 0 ∧ b ≠ 0 then 1 else 0
  | boolOr => if a ≠ 0 ∨ b ≠ 0 then 1 else 0
  | equal => if a = b then 1 else 0
  | notEqual => if a = b then 0 else 1
  | lessThan => if a < b then 1 else 0
  | greaterThan => if b < a then 1 else 0
  | lessOrEqual => if a ≤ b then 1 else 0
  | greaterOrEqual => if b ≤ a then 1 else 0
  | min => if a ≤ b then a else b
  | max => if a ≤ b then b else a

inductive HashOp where
  | ripemd160 | sha1 | sha256 | hash160 | hash256
  deriving DecidableEq, Repr

def HashOp.apply (op : HashOp) (bytes : Bytes) : Bytes :=
  match op with
  | ripemd160 => (Hash.ripemd160 bytes).val
  | sha1 => (Hash.sha1 bytes).val
  | sha256 => (Hash.sha256 bytes).val
  | hash160 => (Hash.hash160 bytes).val
  | hash256 => (Hash.sha256d bytes).val

/-- Operations that look at nothing but the stack. -/
inductive StackOp where
  | push (bytes : Bytes)
  | shuffle (op : Shuffle)
  | ifDup | depth | size | pick | roll
  | verify | equal | equalVerify
  | unary (op : UnaryOp) | binary (op : BinaryOp) | numEqualVerify | within
  | hash (op : HashOp)
  deriving DecidableEq, Repr

namespace StackOp

def underflow : Error := .evaluation .invalidStackOperation

/-- An operand of arithmetic. -/
def operand (minimal : Bool) (bytes : Bytes) : Except Error Int :=
  ScriptNumber.decode ScriptNumber.operandWidth minimal bytes

/-- The element so far below the top, which has the depth zero. -/
def elementAt (stack : Stack) (depth : Int) : Except Error (Nat × Bytes) :=
  if depth < 0 then .error underflow
  else
    match stack[depth.toNat]? with
    | none => .error underflow
    | some element => .ok (depth.toNat, element)

/-- The stack afterwards. Operands have to be minimal if `minimal` says so; they are checked from
the top down, after the number of elements. -/
def apply (minimal : Bool) (op : StackOp) (stack : Stack) : Except Error Stack :=
  match op, stack with
  | push bytes, stack => .ok (bytes :: stack)
  | shuffle op, stack =>
    match op.apply? stack with
    | none => .error underflow
    | some stack => .ok stack
  | ifDup, a :: rest => .ok (if ScriptNumber.isTrue a then a :: a :: rest else a :: rest)
  | depth, stack => .ok (ScriptNumber.encode stack.length :: stack)
  | size, a :: rest => .ok (ScriptNumber.encode a.length :: a :: rest)
  | pick, n :: rest => do
    let (_, element) ← elementAt rest (← operand minimal n)
    return element :: rest
  | roll, n :: rest => do
    let (index, element) ← elementAt rest (← operand minimal n)
    return element :: rest.eraseIdx index
  | verify, a :: rest =>
    if ScriptNumber.isTrue a then .ok rest else .error (.evaluation .verifyFailed)
  | equal, a :: b :: rest => .ok (ScriptNumber.ofBool (a == b) :: rest)
  | equalVerify, a :: b :: rest =>
    if a = b then .ok rest else .error (.evaluation .equalVerifyFailed)
  | unary op, a :: rest => do
    let n ← operand minimal a
    return ScriptNumber.encode (op.apply n) :: rest
  | binary op, b :: a :: rest => do
    let n ← operand minimal b
    let m ← operand minimal a
    return ScriptNumber.encode (op.apply m n) :: rest
  | numEqualVerify, b :: a :: rest => do
    let n ← operand minimal b
    let m ← operand minimal a
    if m = n then return rest else throw (.evaluation .numEqualVerifyFailed)
  | within, upper :: lower :: a :: rest => do
    let upper ← operand minimal upper
    let lower ← operand minimal lower
    let n ← operand minimal a
    return ScriptNumber.ofBool (lower ≤ n && n < upper) :: rest
  | hash op, a :: rest => .ok (op.apply a :: rest)
  | _, _ => .error underflow

end StackOp

end TokenLedger
