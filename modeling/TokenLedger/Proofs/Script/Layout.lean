import Mathlib.Data.List.Flatten
import TokenLedger.Proofs.Script.Grammar
import TokenLedger.Script.Edit

/-!
# Where the chunks of a script stand

A parsed script is the assembly of its chunks: their encodings, one behind the other, are the
program, and each chunk stands where its encoding begins. Removing a pattern that begins chunks as
a whole or not at all is filtering the chunks.
-/

namespace TokenLedger.Script

theorem flatMap_encode_place (offset : Nat) (chunks : List Chunk) :
    (place offset chunks).flatMap (·.chunk.encode) = chunks.flatMap Chunk.encode := by
  have mapped := List.flatMap_map (·.chunk) Chunk.encode (l := place offset chunks)
  rw [map_chunk_place] at mapped
  exact mapped.symm

theorem mem_of_mem_place {offset : Nat} {chunks : List Chunk} {c : PlacedChunk}
    (mem : c ∈ place offset chunks) : c.chunk ∈ chunks := by
  rw [← map_chunk_place offset chunks]
  exact List.mem_map_of_mem mem

/-- Parsing finds the chunks that the program is assembled from. -/
theorem eq_assemble_of_parse {program : Bytes} {s : Script} (parsed : parse program = .ok s) :
    s.program = program ∧ ∃ chunks, s = assemble chunks := by
  obtain ⟨chunks, -, rfl, rfl⟩ := parse_eq_ok_iff.mp parsed
  exact ⟨rfl, chunks, rfl⟩

/-- Behind a chunk the program goes on with the next one. -/
theorem drop_add_encodedLength {program : Bytes} {offset : Nat} {chunk : Chunk} {rest : Bytes}
    (stands : program.drop offset = chunk.encode ++ rest) :
    program.drop (offset + chunk.encodedLength) = rest := by
  rw [← List.drop_drop, stands, ← Chunk.length_encode]
  exact List.drop_left

/-- At the offset of a chunk the program goes on with its encoding. -/
theorem segments_place {program : Bytes} {offset : Nat} {chunks : List Chunk}
    (stands : program.drop offset = chunks.flatMap Chunk.encode) :
    segments program (place offset chunks) =
      (place offset chunks).map fun c => (c, c.chunk.encode) := by
  induction chunks generalizing offset with
  | nil => rfl
  | cons chunk chunks ih =>
    have rest := ih (drop_add_encodedLength stands)
    cases chunks with
    | nil => simp [segments, place, stands]
    | cons next chunks =>
      have here : (program.drop offset).take chunk.encodedLength = chunk.encode := by
        rw [stands, List.flatMap_cons, ← Chunk.length_encode, List.take_left]
      simp only [place, segments, List.map_cons] at rest ⊢
      rw [rest, Nat.add_sub_cancel_left, here]

theorem drop_offset_of_mem_place {program : Bytes} {offset : Nat} {chunks : List Chunk}
    (stands : program.drop offset = chunks.flatMap Chunk.encode) {c : PlacedChunk}
    (mem : c ∈ place offset chunks) : ∃ rest, program.drop c.offset = c.chunk.encode ++ rest := by
  induction chunks generalizing offset with
  | nil => cases mem
  | cons chunk chunks ih =>
    rcases List.mem_cons.mp mem with rfl | later
    · exact ⟨_, stands⟩
    · exact ih (drop_add_encodedLength stands) later

/-! ### Removing -/

theorem placeSegments_map (offset : Nat) (placed : List PlacedChunk) :
    placeSegments offset (placed.map fun c => (c, c.chunk.encode)) =
      place offset (placed.map (·.chunk)) := by
  induction placed generalizing offset with
  | nil => rfl
  | cons c placed ih => simp only [List.map_cons, placeSegments, place, Chunk.length_encode, ih]

/-- A removal keeps some of the chunks as they are: those at which the program does not go on with
the pattern. -/
theorem remove_assemble_eq (chunks : List Chunk) (pattern : Bytes) :
    (assemble chunks).remove pattern =
      assemble (((place 0 chunks).filter fun c => !(!pattern.isEmpty &&
        pattern.isPrefixOf ((assemble chunks).program.drop c.offset))).map (·.chunk)) := by
  have stands : (assemble chunks).program.drop 0 = chunks.flatMap Chunk.encode := rfl
  have kept : (segments (assemble chunks).program (assemble chunks).chunks).filter
        (fun part => !(!pattern.isEmpty &&
          pattern.isPrefixOf ((assemble chunks).program.drop part.1.offset))) =
      ((place 0 chunks).filter fun c => !(!pattern.isEmpty &&
        pattern.isPrefixOf ((assemble chunks).program.drop c.offset))).map
          fun c => (c, c.chunk.encode) := by
    rw [show (assemble chunks).chunks = place 0 chunks from rfl, segments_place stands,
      List.filter_map]
    rfl
  rw [remove, kept, placeSegments_map, List.flatMap_map]
  simp only [assemble, List.flatMap_map]

/-- A pattern that begins some chunks, whatever stands behind them, and none of the others, is
removed by filtering the chunks. -/
theorem remove_assemble {chunks : List Chunk} {pattern : Bytes} {occurs : Chunk → Bool}
    (nonempty : pattern ≠ [])
    (begins : ∀ chunk ∈ chunks, ∀ rest, pattern.isPrefixOf (chunk.encode ++ rest) = occurs chunk) :
    (assemble chunks).remove pattern = assemble (chunks.filter (!occurs ·)) := by
  have stands : (assemble chunks).program.drop 0 = chunks.flatMap Chunk.encode := rfl
  have kept : (place 0 chunks).filter (fun c => !(!pattern.isEmpty &&
        pattern.isPrefixOf ((assemble chunks).program.drop c.offset))) =
      (place 0 chunks).filter (!occurs ·.chunk) := by
    refine List.filter_congr fun c mem => ?_
    obtain ⟨rest, here⟩ := drop_offset_of_mem_place stands mem
    simp [here, begins _ (mem_of_mem_place mem), nonempty]
  have filtered : ((place 0 chunks).filter (!occurs ·.chunk)).map (·.chunk) =
      chunks.filter (!occurs ·) := by
    have mapped := List.filter_map (f := (·.chunk)) (p := (!occurs ·)) (l := place 0 chunks)
    rw [map_chunk_place] at mapped
    exact mapped.symm
  rw [remove_assemble_eq, kept, filtered]

/-- A single code is removed together with the data that belongs to it. -/
theorem removeCode_assemble (chunks : List Chunk) (code : UInt8) :
    (assemble chunks).removeCode code = assemble (chunks.filter (·.code != code)) := by
  refine remove_assemble (by simp) fun chunk _ rest => ?_
  obtain ⟨others, starts⟩ := chunk.encode_eq_code_cons
  rw [starts, List.cons_append, List.isPrefixOf_cons_cons, List.isPrefixOf_nil_left,
    Bool.and_true, BEq.comm]

/-- Removing a code leaves the encodings of all other chunks. -/
theorem program_removeCode {program : Bytes} {s : Script} (parsed : parse program = .ok s)
    (code : UInt8) :
    (s.removeCode code).program =
      (s.chunks.filter (·.code != code)).flatMap (·.chunk.encode) := by
  obtain ⟨-, chunks, rfl⟩ := eq_assemble_of_parse parsed
  have mapped := List.filter_map (f := (·.chunk)) (p := (·.code != code)) (l := place 0 chunks)
  rw [map_chunk_place] at mapped
  rw [removeCode_assemble, assemble, mapped, List.flatMap_map]
  rfl

theorem length_program_removeCode_le {program : Bytes} {s : Script}
    (parsed : parse program = .ok s) (code : UInt8) :
    (s.removeCode code).program.length ≤ program.length := by
  rw [program_removeCode parsed]
  obtain ⟨rfl, chunks, rfl⟩ := eq_assemble_of_parse parsed
  rw [show (assemble chunks).program = chunks.flatMap Chunk.encode from rfl,
    ← flatMap_encode_place 0 chunks]
  exact (List.filter_sublist.flatMap _).length_le

end TokenLedger.Script
