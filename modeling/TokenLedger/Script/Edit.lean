import TokenLedger.Script.Basic

/-!
# Editing scripts

What a signature commits to is a script cut at a separator and stripped of the signature itself.
Both edits work on whole chunks.

Embeds `sub_script`, `remove_all_instances_of` and `remove_all_instances_of_op` (`script`).
-/

namespace TokenLedger.Script

/-- The part of a script from byte `start` on. -/
def dropTo (s : Script) (start : Nat) : Script :=
  let start := min start s.program.length
  { chunks := (s.chunks.filter (start ≤ ·.offset)).map fun c => ⟨c.chunk, c.offset - start⟩
    program := s.program.drop start }

/-- The chunks of a program, each with the bytes from its code to the next chunk. -/
def segments (program : Bytes) : List PlacedChunk → List (PlacedChunk × Bytes)
  | [] => []
  | [c] => [(c, program.drop c.offset)]
  | c :: next :: chunks =>
    (c, (program.drop c.offset).take (next.offset - c.offset)) :: segments program (next :: chunks)

/-- Segments one behind the other, the first at `offset`. -/
def placeSegments (offset : Nat) : List (PlacedChunk × Bytes) → List PlacedChunk
  | [] => []
  | (c, bytes) :: rest => ⟨c.chunk, offset⟩ :: placeSegments (offset + bytes.length) rest

/-- Removes every chunk at which the program goes on with the pattern. A pattern that occurs
inside the data of a push is left alone, and the empty pattern occurs nowhere. -/
def remove (s : Script) (pattern : Bytes) : Script :=
  let occursAt (c : PlacedChunk) : Bool :=
    !pattern.isEmpty && pattern.isPrefixOf (s.program.drop c.offset)
  let kept := (segments s.program s.chunks).filter fun (c, _) => !occursAt c
  { chunks := placeSegments 0 kept
    program := kept.flatMap Prod.snd }

def removeCode (s : Script) (code : UInt8) : Script := s.remove [code]

end TokenLedger.Script
