import TokenLedger.Machine.Stack
import TokenLedger.Opcode

/-!
# Instructions

What a single code makes the machine do.

Embeds the table of cases of `execute_opcode` (`script::interpreter`).
-/

namespace TokenLedger

/-- The instructions that open, turn and close conditional parts of a script. -/
inductive Conditional where
  /-- Opens a part that is executed if the top of the stack has the expected truth value. -/
  | branch (expected : Bool)
  | otherwise
  | close
  deriving DecidableEq, Repr

inductive Instruction where
  | stack (op : StackOp)
  | nop
  | conditional (op : Conditional)
  | fail
  | toAltStack | fromAltStack
  | codeSeparator
  | checkSig (verify : Bool) | checkMultiSig (verify : Bool)
  | checkLockTime
  /-- A no-op that may get a meaning. -/
  | reservedNop
  /-- Fails even in a part that is not executed. -/
  | disabled | forbidden
  /-- Fails if it is executed. -/
  | unknown
  deriving DecidableEq, Repr

namespace Instruction

def number (n : Int) : Instruction := stack (.push (ScriptNumber.encode n))

/-- The instructions of the codes from `minusOne` on. -/
def table : List Instruction :=
  -- 0x4f: small numbers
  [number (-1), unknown, number 1, number 2, number 3, number 4, number 5, number 6, number 7,
   number 8, number 9, number 10, number 11, number 12, number 13, number 14, number 15, number 16,
   -- 0x61: control
   nop, unknown, conditional (.branch true), conditional (.branch false), forbidden, forbidden,
   conditional .otherwise, conditional .close, stack .verify, fail,
   -- 0x6b: stack
   toAltStack, fromAltStack, stack (.shuffle .drop2), stack (.shuffle .dup2),
   stack (.shuffle .dup3), stack (.shuffle .over2), stack (.shuffle .rot2),
   stack (.shuffle .swap2), stack .ifDup, stack .depth, stack (.shuffle .drop),
   stack (.shuffle .dup), stack (.shuffle .nip), stack (.shuffle .over1), stack .pick, stack .roll,
   stack (.shuffle .rot), stack (.shuffle .swap), stack (.shuffle .tuck),
   -- 0x7e: splicing and bits
   disabled, disabled, disabled, disabled, stack .size, disabled, disabled, disabled, disabled,
   stack .equal, stack .equalVerify, unknown, unknown,
   -- 0x8b: arithmetic
   stack (.unary .increment), stack (.unary .decrement), disabled, disabled, stack (.unary .negate),
   stack (.unary .abs), stack (.unary .not), stack (.unary .isNonZero), stack (.binary .add),
   stack (.binary .sub), disabled, disabled, disabled, disabled, disabled, stack (.binary .boolAnd),
   stack (.binary .boolOr), stack (.binary .equal), stack .numEqualVerify,
   stack (.binary .notEqual), stack (.binary .lessThan), stack (.binary .greaterThan),
   stack (.binary .lessOrEqual), stack (.binary .greaterOrEqual), stack (.binary .min),
   stack (.binary .max), stack .within,
   -- 0xa6: hashes and signatures
   stack (.hash .ripemd160), stack (.hash .sha1), stack (.hash .sha256), stack (.hash .hash160),
   stack (.hash .hash256), codeSeparator, checkSig false, checkSig true, checkMultiSig false,
   checkMultiSig true,
   -- 0xb0: reserved
   reservedNop, checkLockTime, reservedNop, reservedNop, reservedNop, reservedNop, reservedNop,
   reservedNop, reservedNop, reservedNop]

/-- The codes that announce data are no instructions by themselves. -/
def ofCode (code : UInt8) : Instruction :=
  if code < Opcode.minusOne then unknown
  else (table[code.toNat - Opcode.minusOne.toNat]?).getD unknown

/-- The instructions that fail everywhere are those of the disabled codes. -/
theorem ofCode_eq_disabled_iff (code : UInt8) :
    ofCode code = disabled ↔ Opcode.isDisabled code = true := by
  have every : ∀ n : Fin 256, ofCode (UInt8.ofNat n.val) = disabled ↔
      Opcode.isDisabled (UInt8.ofNat n.val) = true := by decide +kernel
  simpa using every ⟨code.toNat, code.toNat_lt⟩

end Instruction

end TokenLedger
