import TokenLedger.Script.Chunk

/-!
# Scripts

A script is its program bytes together with the chunks they consist of, each at its offset. A
parsed script keeps the bytes it came from; a script assembled from chunks has their encodings for
its program.

Embeds `Script` with `parse`, `from_chunks`, `is_push_only` and `sig_op_count` (`script`).
-/

namespace TokenLedger

/-- A chunk and the offset of its code in the program. -/
structure PlacedChunk where
  chunk : Chunk
  offset : Nat
  deriving DecidableEq, Repr

def PlacedChunk.code (c : PlacedChunk) : UInt8 := c.chunk.code

structure Script where
  chunks : List PlacedChunk
  program : Bytes
  deriving DecidableEq, Repr

namespace Script

/-- The chunks of program bytes that stand at `offset`. -/
def parseFrom (offset : Nat) (bytes : Bytes) : Except Error (List PlacedChunk) :=
  match bytes with
  | [] => .ok []
  | code :: rest =>
    match h : Chunk.parse code rest with
    | .error fault => .error (.scriptParse offset fault)
    | .ok (chunk, after) =>
      have := Chunk.length_le_of_parse h
      (parseFrom (offset + chunk.encodedLength) after).map (⟨chunk, offset⟩ :: ·)
termination_by bytes.length
decreasing_by simp; omega

def parse (program : Bytes) : Except Error Script := do
  return ⟨← parseFrom 0 program, program⟩

/-- Chunks one behind the other, the first at `offset`. -/
def place (offset : Nat) : List Chunk → List PlacedChunk
  | [] => []
  | chunk :: chunks => ⟨chunk, offset⟩ :: place (offset + chunk.encodedLength) chunks

def assemble (chunks : List Chunk) : Script := ⟨place 0 chunks, chunks.flatMap Chunk.encode⟩

def length (s : Script) : Nat := s.program.length

/-- The script has no chunks. Its program may still have bytes. -/
def isEmpty (s : Script) : Bool := s.chunks.isEmpty

/-- Every chunk only puts a value on the stack. -/
def isPushOnly (s : Script) : Bool := s.chunks.all (·.chunk.isPush)

/-- Scripts are the same if their programs are. -/
def sameAs (s t : Script) : Bool := s.program == t.program

def toText (s : Script) : String := " ".intercalate (s.chunks.map (·.chunk.toText))

/-! ### Signature operations -/

/-- The signature checks of a chunk that follows one with the code `before`. A check of many
signatures counts the number of keys before it if `accurate`, and twenty if no number is there. -/
def chunkSigOps (accurate : Bool) (before code : UInt8) : Nat :=
  if code = Opcode.checkSig ∨ code = Opcode.checkSigVerify then 1
  else if code = Opcode.checkMultiSig ∨ code = Opcode.checkMultiSigVerify then
    if accurate ∧ Opcode.one ≤ before ∧ before ≤ Opcode.sixteen then
      ((Opcode.number? before).getD 0).toNat
    else 20
  else 0

def sigOpsFrom (accurate : Bool) (before : UInt8) : List PlacedChunk → Nat
  | [] => 0
  | c :: chunks => chunkSigOps accurate before c.code + sigOpsFrom accurate c.code chunks

def sigOpCount (s : Script) (accurate : Bool) : Nat :=
  sigOpsFrom accurate Opcode.invalid s.chunks

end Script

end TokenLedger
