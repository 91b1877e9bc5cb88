import TokenLedger.Number
import TokenLedger.Script.Basic

/-!
# Building scripts

A script is built from steps: opcodes, data and numbers. Data and numbers become short pushes, the
smallest of them single codes.

Embeds `ScriptBuilder` with `op`, `data`, `number` and `build` (`script::builder`).
-/

namespace TokenLedger

/-- One step of building a script. -/
inductive BuildStep where
  | op (code : UInt8)
  | data (bytes : Bytes)
  | number (n : Int64)
  deriving DecidableEq, Repr

namespace BuildStep

/-- A single byte from 1 to 16 becomes the code of that number. -/
def dataChunk (bytes : Bytes) : Chunk :=
  match bytes with
  | [b] => if 1 ≤ b ∧ b ≤ 16 then .op (Opcode.one + b - 1) else .ofData bytes
  | _ => .ofData bytes

/-- The code zero is the empty push. -/
def opChunk (code : UInt8) : Chunk :=
  if code = Opcode.empty then dataChunk [] else .op code

/-- Numbers from -1 to 16 have codes of their own. -/
def numberChunk (n : Int) : Chunk :=
  match Opcode.ofNumber? n with
  | some code => opChunk code
  | none => dataChunk (ScriptNumber.encode n)

def chunk : BuildStep → Chunk
  | op code => opChunk code
  | data bytes => dataChunk bytes
  | number n => numberChunk n.toInt

end BuildStep

def Script.build (steps : List BuildStep) : Script := .assemble (steps.map BuildStep.chunk)

end TokenLedger
