import TokenLedger.Proofs.Script.Building
import TokenLedger.Proofs.Script.Layout

/-!
# What signatures commit to

A signature commits to the part of a script behind a place, without the pushes of signatures. On the
chunks of a script this is dropping the first ones and filtering the others.
-/

namespace TokenLedger.Script

/-- The pushes of some data are exactly the chunks that are built from it. -/
theorem remove_encodeData {chunks : List Chunk} {data : Bytes}
    (good : ∀ chunk ∈ chunks, chunk.WellFormed) (fits : data.length < 2 ^ 32) :
    (assemble chunks).remove (Chunk.encodeData data) =
      assemble (chunks.filter (· != Chunk.ofData data)) := by
  have goodPush := Chunk.wellFormed_ofData fits
  refine remove_assemble (Chunk.encode_ne_nil _) fun chunk mem rest => ?_
  rw [Bool.eq_iff_iff, List.isPrefixOf_iff_prefix, beq_iff_eq]
  constructor
  · rintro ⟨behind, same⟩
    exact (Chunk.encode_selfDelimiting goodPush (good chunk mem) same).1.symm
  · rintro rfl
    exact List.prefix_append _ _

/-- Several signatures are removed one after the other, in whatever order. -/
theorem foldl_remove_encodeData {chunks : List Chunk} {signatures : List Bytes}
    (good : ∀ chunk ∈ chunks, chunk.WellFormed)
    (fit : ∀ signature ∈ signatures, signature.length < 2 ^ 32) :
    signatures.foldl (fun script signature => script.remove (Chunk.encodeData signature))
        (assemble chunks) =
      assemble (chunks.filter (· ∉ signatures.map Chunk.ofData)) := by
  induction signatures generalizing chunks with
  | nil =>
    have all : chunks.filter (· ∉ ([] : List Bytes).map Chunk.ofData) = chunks :=
      List.filter_eq_self.mpr (by simp)
    rw [all, List.foldl_nil]
  | cons signature signatures ih =>
    obtain ⟨fits, others⟩ := List.forall_mem_cons.mp fit
    have goodLeft : ∀ chunk ∈ chunks.filter (· != Chunk.ofData signature), chunk.WellFormed :=
      fun chunk mem => good chunk (List.mem_filter.mp mem).1
    rw [List.foldl_cons, remove_encodeData good fits, ih goodLeft others, List.filter_filter]
    congr 1
    refine List.filter_congr fun chunk _ => ?_
    rw [Bool.eq_iff_iff]
    simp [and_comm]

/-! ### Behind a place -/

theorem place_append (offset : Nat) (front back : List Chunk) :
    place offset (front ++ back) =
      place offset front ++ place (offset + (front.map Chunk.encodedLength).sum) back := by
  induction front generalizing offset with
  | nil => rfl
  | cons chunk front ih =>
    rw [List.cons_append, place, ih, place, List.cons_append, List.map_cons, List.sum_cons,
      Nat.add_assoc]

theorem offset_lt_of_mem_place {offset : Nat} {chunks : List Chunk} {c : PlacedChunk}
    (mem : c ∈ place offset chunks) :
    offset ≤ c.offset ∧ c.offset < offset + (chunks.map Chunk.encodedLength).sum := by
  induction chunks generalizing offset with
  | nil => cases mem
  | cons chunk chunks ih =>
    have size := chunk.encodedLength_pos
    rw [List.map_cons, List.sum_cons]
    rcases List.mem_cons.mp mem with rfl | later
    · exact ⟨Nat.le_refl _, Nat.lt_add_of_pos_right (by omega)⟩
    · have bounds := ih later
      omega

/-- A chunk stands behind the first ones and in front of the others. -/
theorem exists_append_of_mem_place {offset : Nat} {chunks : List Chunk} {c : PlacedChunk}
    (mem : c ∈ place offset chunks) :
    ∃ front back, chunks = front ++ c.chunk :: back ∧
      c.offset = offset + (front.map Chunk.encodedLength).sum := by
  induction chunks generalizing offset with
  | nil => cases mem
  | cons chunk chunks ih =>
    rcases List.mem_cons.mp mem with rfl | later
    · exact ⟨[], chunks, rfl, rfl⟩
    · obtain ⟨front, back, rfl, same⟩ := ih later
      refine ⟨chunk :: front, back, rfl, ?_⟩
      rw [same, List.map_cons, List.sum_cons, Nat.add_assoc]

theorem map_sub_place (offset start : Nat) (chunks : List Chunk) :
    (place (offset + start) chunks).map (fun c => ⟨c.chunk, c.offset - start⟩) =
      place offset chunks := by
  induction chunks generalizing offset with
  | nil => rfl
  | cons chunk chunks ih =>
    have next := ih (offset + chunk.encodedLength)
    rw [Nat.add_right_comm] at next
    rw [place, List.map_cons, next, place, Nat.add_sub_cancel]

/-- Behind its first chunks a script is the script of the others. -/
theorem dropTo_assemble (front back : List Chunk) :
    (assemble (front ++ back)).dropTo (front.map Chunk.encodedLength).sum = assemble back := by
  have size : (assemble (front ++ back)).program.length =
      (front.map Chunk.encodedLength).sum + (back.map Chunk.encodedLength).sum := by
    have whole := length_assemble (front ++ back)
    rwa [List.map_append, List.sum_append] at whole
  have start : min (front.map Chunk.encodedLength).sum (assemble (front ++ back)).program.length =
      (front.map Chunk.encodedLength).sum := by omega
  have before : (place 0 front).filter
      (fun c => decide ((front.map Chunk.encodedLength).sum ≤ c.offset)) = [] := by
    refine List.filter_eq_nil_iff.mpr fun c mem => ?_
    have bounds := offset_lt_of_mem_place mem
    simp only [decide_eq_true_eq]
    omega
  have behind : (place (0 + (front.map Chunk.encodedLength).sum) back).filter
      (fun c => decide ((front.map Chunk.encodedLength).sum ≤ c.offset)) =
        place (0 + (front.map Chunk.encodedLength).sum) back := by
    refine List.filter_eq_self.mpr fun c mem => ?_
    have bounds := offset_lt_of_mem_place mem
    simp only [decide_eq_true_eq]
    omega
  have program : (assemble (front ++ back)).program.drop (front.map Chunk.encodedLength).sum =
      back.flatMap Chunk.encode := by
    rw [show (assemble (front ++ back)).program = (front ++ back).flatMap Chunk.encode from rfl,
      List.flatMap_append]
    exact List.drop_left' (length_assemble front)
  have chunks : (assemble (front ++ back)).chunks = place 0 (front ++ back) := rfl
  unfold dropTo
  dsimp only
  rw [start, program, chunks, place_append, List.filter_append, before, behind, List.nil_append,
    map_sub_place]
  rfl

end TokenLedger.Script
