import Mathlib
import TokenLedger.Machine.SignatureCheck
import TokenLedger.Proofs.Script.Recognition
import TokenLedger.Proofs.Script.Stripping

/-!
# What a removal leaves

Removing the push of a signature filters the chunks of a script: exactly the chunks with that
encoding go, whatever stands behind them. A pattern that is longer than a chunk is compared with
the chunks behind it as well, so a removal may take a chunk away that does not begin with the
pattern. Removing what begins with the pattern is therefore something else, except where no
occurrence reaches beyond its chunk.
-/

namespace TokenLedger

namespace Script

/-! ### Pushes of data -/

/-- Removes the pushes of signatures, one signature after the other. -/
def strip (s : Script) (signatures : List Bytes) : Script :=
  signatures.foldl (fun script signature => script.remove (Chunk.encodeData signature)) s

/-- Data is pushed by one chunk. -/
theorem parse_encodeData {data : Bytes} (fits : data.length < 2 ^ 32) :
    parse (Chunk.encodeData data) = .ok (assemble [.ofData data]) := by
  have good : ∀ chunk ∈ [Chunk.ofData data], chunk.WellFormed := by
    simpa using Chunk.wellFormed_ofData fits
  have single : (assemble [.ofData data]).program = Chunk.encodeData data := by
    simp [assemble, Chunk.encodeData]
  rw [← single]
  exact parse_assemble good

/-- The shortest push of data is the only chunk with its encoding. -/
theorem encode_eq_encodeData_iff {chunk : Chunk} {data : Bytes} (good : chunk.WellFormed)
    (fits : data.length < 2 ^ 32) :
    chunk.encode = Chunk.encodeData data ↔ chunk = .ofData data := by
  constructor
  · exact Chunk.encode_selfDelimiting.injective good (Chunk.wellFormed_ofData fits)
  · rintro rfl
    rfl

section

variable {chunks : List Chunk} {data : Bytes}

/-- A script loses exactly the chunks with the encoding of the push. -/
theorem remove_encodeData_eq (good : ∀ chunk ∈ chunks, chunk.WellFormed)
    (fits : data.length < 2 ^ 32) :
    (assemble chunks).remove (Chunk.encodeData data) =
      assemble (chunks.filter (·.encode ≠ Chunk.encodeData data)) := by
  rw [remove_encodeData good fits]
  congr 1
  refine List.filter_congr fun chunk mem => ?_
  rw [Bool.eq_iff_iff, bne_iff_ne, decide_eq_true_eq, Ne, Ne,
    encode_eq_encodeData_iff (good chunk mem) fits]

/-- A removed push is gone for good. -/
theorem remove_remove_encodeData (good : ∀ chunk ∈ chunks, chunk.WellFormed)
    (fits : data.length < 2 ^ 32) :
    ((assemble chunks).remove (Chunk.encodeData data)).remove (Chunk.encodeData data) =
      (assemble chunks).remove (Chunk.encodeData data) := by
  have left : ∀ chunk ∈ chunks.filter (· != Chunk.ofData data), chunk.WellFormed :=
    fun chunk mem => good chunk (List.mem_filter.mp mem).1
  rw [remove_encodeData good fits, remove_encodeData left fits, List.filter_filter]
  simp only [Bool.and_self]

/-- The chunks that do not push the data are all left. -/
theorem filter_remove_encodeData (good : ∀ chunk ∈ chunks, chunk.WellFormed)
    (fits : data.length < 2 ^ 32) :
    (((assemble chunks).remove (Chunk.encodeData data)).chunks.map (·.chunk)).filter
      (·.data? ≠ some data) = chunks.filter (·.data? ≠ some data) := by
  rw [remove_encodeData good fits, map_chunk_assemble, List.filter_filter]
  refine List.filter_congr fun chunk _ => ?_
  by_cases pushes : chunk.data? = some data
  · simp [pushes]
  · have kept : chunk ≠ .ofData data := by
      rintro rfl
      exact pushes rfl
    simp [pushes, kept]

/-- Pushes and codes can be removed in either order. -/
theorem removeCode_remove_encodeData (good : ∀ chunk ∈ chunks, chunk.WellFormed)
    (fits : data.length < 2 ^ 32) (code : UInt8) :
    ((assemble chunks).remove (Chunk.encodeData data)).removeCode code =
      ((assemble chunks).removeCode code).remove (Chunk.encodeData data) := by
  have left : ∀ chunk ∈ chunks.filter (·.code != code), chunk.WellFormed :=
    fun chunk mem => good chunk (List.mem_filter.mp mem).1
  rw [remove_encodeData good fits, removeCode_assemble, removeCode_assemble,
    remove_encodeData left fits, List.filter_comm]

end

/-- Several removals are one filter, so only which signatures there are matters. -/
theorem strip_congr {program : Bytes} {s : Script} (parsed : parse program = .ok s)
    {signatures others : List Bytes} (fit : ∀ signature ∈ signatures, signature.length < 2 ^ 32)
    (same : ∀ signature, signature ∈ signatures ↔ signature ∈ others) :
    s.strip signatures = s.strip others := by
  obtain ⟨chunks, good, -, rfl⟩ := parse_eq_ok_iff.mp parsed
  have fitOthers : ∀ signature ∈ others, signature.length < 2 ^ 32 :=
    fun signature mem => fit signature ((same signature).mpr mem)
  rw [strip, strip, foldl_remove_encodeData good fit, foldl_remove_encodeData good fitOthers]
  simp only [List.mem_map, same]

/-- The push of a signature is one chunk, and removing it leaves the chunks of the script that are
encoded otherwise, in their order. So it need not be removed twice, a check of many signatures may
remove them in any order, pushes of other data stay as they are, and the chunks of a code may be
removed before or after. -/
theorem stripping_is_exact_filter {program : Bytes} {s : Script} (parsed : parse program = .ok s)
    {signature : Bytes} (fits : signature.length < 2 ^ 32) :
    let pattern := Chunk.encodeData signature
    let stripped := s.remove pattern
    parse pattern = .ok (assemble [.push (Chunk.pushCode signature.length) signature]) ∧
    stripped = assemble ((s.chunks.map (·.chunk)).filter (·.encode ≠ pattern)) ∧
    stripped.remove pattern = stripped ∧
    (∀ signatures others : List Bytes, (∀ bytes ∈ signatures, bytes.length < 2 ^ 32) →
      signatures.Perm others → s.strip signatures = s.strip others ∧
        ∀ env separator, env.script.dropTo separator = s →
          Machine.connectedScript env separator signatures = s.strip others) ∧
    (stripped.chunks.map (·.chunk)).filter (·.data? ≠ some signature) =
      (s.chunks.map (·.chunk)).filter (·.data? ≠ some signature) ∧
    ∀ code, stripped.removeCode code = (s.removeCode code).remove pattern := by
  intro pattern stripped
  have reordered (signatures others : List Bytes)
      (fit : ∀ bytes ∈ signatures, bytes.length < 2 ^ 32) (perm : signatures.Perm others) :
      s.strip signatures = s.strip others := strip_congr parsed fit fun bytes => perm.mem_iff
  obtain ⟨chunks, good, -, rfl⟩ := parse_eq_ok_iff.mp parsed
  rw [map_chunk_assemble]
  refine ⟨parse_encodeData fits, remove_encodeData_eq good fits,
    remove_remove_encodeData good fits, ?_, filter_remove_encodeData good fits,
    removeCode_remove_encodeData good fits⟩
  intro signatures others fit perm
  have same := reordered signatures others fit perm
  refine ⟨same, ?_⟩
  intro env separator behind
  rw [Machine.connectedScript, behind]
  exact same

/-- A signature is pushed as it is, inside of other data, and with a length field it does not
need. -/
theorem stripping_is_exact_filter_two_bytes :
    let others : List Chunk :=
      [.push 3 [2, 0xaa, 0xbb], .op Opcode.codeSeparator, .push Opcode.pushData1 [0xaa, 0xbb]]
    let s := assemble (.push 2 [0xaa, 0xbb] :: others)
    parse [2, 0xaa, 0xbb, 3, 2, 0xaa, 0xbb, 0xab, 0x4c, 2, 0xaa, 0xbb] = .ok s ∧
      [(0xaa : UInt8), 0xbb].length < 2 ^ 32 ∧
      parse [2, 0xaa, 0xbb] = .ok (assemble [.push 2 [0xaa, 0xbb]]) ∧
      s.remove [2, 0xaa, 0xbb] = assemble others ∧
      s.strip [[0xaa, 0xbb], [2, 0xaa, 0xbb]] = s.strip [[2, 0xaa, 0xbb], [0xaa, 0xbb]] ∧
      (assemble others).removeCode 0xab = (s.removeCode 0xab).remove [2, 0xaa, 0xbb] := by
  intro others s
  have parsed :
      parse [2, 0xaa, 0xbb, 3, 2, 0xaa, 0xbb, 0xab, 0x4c, 2, 0xaa, 0xbb] = .ok s := by cbv
  have fits : [(0xaa : UInt8), 0xbb].length < 2 ^ 32 := by decide
  obtain ⟨single, filtered, -, reordered, -, commutes⟩ := stripping_is_exact_filter parsed fits
  have left : (s.chunks.map (·.chunk)).filter (·.encode ≠ Chunk.encodeData [0xaa, 0xbb]) =
      others := by decide
  rw [left] at filtered
  have swapped := (reordered [[0xaa, 0xbb], [2, 0xaa, 0xbb]] [[2, 0xaa, 0xbb], [0xaa, 0xbb]]
    (by decide) (List.Perm.swap _ _ _)).1
  have after := commutes 0xab
  rw [filtered] at after
  exact ⟨parsed, fits, single, filtered, swapped, after⟩

/-! ### Patterns of any length -/

section

variable {program pattern : Bytes} {s : Script} {c : PlacedChunk}

/-- At its offset the program goes on with a chunk. -/
theorem exists_drop_offset (parsed : parse program = .ok s) (mem : c ∈ s.chunks) :
    ∃ rest, s.program.drop c.offset = c.chunk.encode ++ rest := by
  obtain ⟨chunks, -, -, rfl⟩ := parse_eq_ok_iff.mp parsed
  have start : (assemble chunks).program.drop 0 = chunks.flatMap Chunk.encode := rfl
  exact drop_offset_of_mem_place start mem

/-- A pattern occurs where a chunk begins with it. -/
theorem prefix_drop_offset (parsed : parse program = .ok s) (mem : c ∈ s.chunks)
    (begins : pattern <+: c.chunk.encode) : pattern <+: s.program.drop c.offset := by
  obtain ⟨rest, stands⟩ := exists_drop_offset parsed mem
  rw [stands]
  exact begins.trans (List.prefix_append _ _)

/-- The beginning of a chunk occurs nowhere but at the beginning of chunks: what goes on with it is
not a shorter chunk. -/
theorem prefix_encode_of_occurs (parsed : parse program = .ok s) (mem : c ∈ s.chunks)
    {chunk : Chunk} (good : chunk.WellFormed) (within : pattern <+: chunk.encode)
    (occurs : pattern <+: s.program.drop c.offset) : pattern <+: c.chunk.encode := by
  obtain ⟨rest, stands⟩ := exists_drop_offset parsed mem
  have goodHere : c.chunk.WellFormed := by
    obtain ⟨chunks, goods, -, rfl⟩ := parse_eq_ok_iff.mp parsed
    exact goods _ (mem_of_mem_place mem)
  rw [stands] at occurs
  rcases List.prefix_or_prefix_of_prefix occurs (List.prefix_append _ rest) with own | shorter
  · exact own
  · obtain ⟨behind, whole⟩ := shorter.trans within
    have streams : c.chunk.encode ++ behind = chunk.encode ++ [] := by
      rw [whole, List.append_nil]
    rw [(Chunk.encode_selfDelimiting goodHere good streams).1]
    exact within

/-- A removal leaves the chunks at which the program does not go on with the pattern. -/
theorem remove_eq (parsed : parse program = .ok s) (nonempty : pattern ≠ []) :
    s.remove pattern = assemble ((s.chunks.filter fun c =>
      ¬ pattern <+: s.program.drop c.offset).map (·.chunk)) := by
  obtain ⟨chunks, -, -, rfl⟩ := parse_eq_ok_iff.mp parsed
  rw [remove_assemble_eq]
  congr 2
  refine List.filter_congr fun c _ => ?_
  rw [Bool.eq_iff_iff]
  simp [nonempty, ← List.isPrefixOf_iff_prefix]

/-- A filter that keeps as many items as a weaker one keeps the same. -/
theorem keeps_of_length_filter_eq {α : Type} {items : List α} {p q : α → Bool}
    (weaker : ∀ a ∈ items, p a = true → q a = true)
    (same : (items.filter p).length = (items.filter q).length) {a : α} (mem : a ∈ items)
    (kept : q a = true) : p a = true := by
  have both : items.filter p = (items.filter q).filter p := by
    rw [List.filter_filter]
    refine List.filter_congr fun a mem => ?_
    rw [eq_comm, Bool.and_eq_left_iff_imp]
    exact weaker a mem
  have sub : (items.filter p).Sublist (items.filter q) := by
    rw [both]
    exact List.filter_sublist
  have among : a ∈ items.filter p := by
    rw [sub.eq_of_length same]
    exact List.mem_filter.mpr ⟨mem, kept⟩
  exact (List.mem_filter.mp among).2

/-- A removal takes the chunks that begin with the pattern, and no others, exactly if no occurrence
reaches beyond its chunk. -/
theorem remove_eq_filter_encode_iff (parsed : parse program = .ok s) (nonempty : pattern ≠ []) :
    s.remove pattern =
        assemble ((s.chunks.map (·.chunk)).filter fun chunk => ¬ pattern <+: chunk.encode) ↔
      ∀ c ∈ s.chunks, pattern <+: s.program.drop c.offset → pattern <+: c.chunk.encode := by
  rw [remove_eq parsed nonempty, List.filter_map]
  constructor
  · intro same c mem occurs
    have lengths := congrArg (fun s : Script => (s.chunks.map (·.chunk)).length) same
    simp only [map_chunk_assemble, List.length_map] at lengths
    by_contra other
    have spared := keeps_of_length_filter_eq (fun c mem absent => ?_) lengths mem
      (by simpa using other)
    · exact absurd occurs (by simpa using spared)
    · simp only [Function.comp, decide_eq_true_eq] at absent ⊢
      exact fun begins => absent (prefix_drop_offset parsed mem begins)
  · intro within
    congr 2
    refine List.filter_congr fun c mem => ?_
    simp only [Function.comp, decide_eq_decide]
    exact not_congr ⟨within c mem, prefix_drop_offset parsed mem⟩

/-- A removal takes the chunks at which the program goes on with the pattern. These are the chunks
that begin with it exactly if none of the occurrences reaches beyond its chunk, as it is with every
pattern from one chunk. -/
theorem removal_takes_beginnings_iff (parsed : parse program = .ok s) (nonempty : pattern ≠ []) :
    let beginnings :=
      assemble ((s.chunks.map (·.chunk)).filter fun chunk => ¬ pattern <+: chunk.encode)
    s.remove pattern = assemble ((s.chunks.filter fun c =>
      ¬ pattern <+: s.program.drop c.offset).map (·.chunk)) ∧
    (s.remove pattern = beginnings ↔
      ∀ c ∈ s.chunks, pattern <+: s.program.drop c.offset → pattern <+: c.chunk.encode) ∧
    ∀ chunk : Chunk, chunk.WellFormed → pattern <+: chunk.encode →
      s.remove pattern = beginnings := by
  refine ⟨remove_eq parsed nonempty, remove_eq_filter_encode_iff parsed nonempty, ?_⟩
  intro chunk good within
  rw [remove_eq_filter_encode_iff parsed nonempty]
  exact fun c mem => prefix_encode_of_occurs parsed mem good within

end

/-- A pattern with which two pushes begin. -/
theorem removal_takes_beginnings_iff_two_pushes :
    let s := assemble [.push 2 [0xaa, 0xbb], .op Opcode.one, .push 2 [0xaa, 0xcc]]
    parse [2, 0xaa, 0xbb, 0x51, 2, 0xaa, 0xcc] = .ok s ∧ [(2 : UInt8), 0xaa] ≠ [] ∧
      s.remove [2, 0xaa] = assemble [.op Opcode.one] := by
  intro s
  have parsed : parse [2, 0xaa, 0xbb, 0x51, 2, 0xaa, 0xcc] = .ok s := by cbv
  have nonempty : [(2 : UInt8), 0xaa] ≠ [] := by decide
  obtain ⟨-, -, single⟩ := removal_takes_beginnings_iff parsed nonempty
  have good : (Chunk.push 2 [0xaa, 0xbb]).WellFormed := .direct (by decide) rfl
  have removed := single _ good (by decide)
  have left : (s.chunks.map (·.chunk)).filter (fun chunk => ¬ [2, 0xaa] <+: chunk.encode) =
      [.op Opcode.one] := by decide
  rw [left] at removed
  exact ⟨parsed, nonempty, removed⟩

/-- The first of two codes is removed with a pattern of both, with which it does not begin. -/
theorem removal_takes_unlike_chunk :
    let s := assemble [.op Opcode.one, .op 0x52]
    parse [0x51, 0x52] = .ok s ∧
      s.remove [0x51, 0x52] = assemble [.op 0x52] ∧
      assemble ((s.chunks.map (·.chunk)).filter fun chunk => ¬ [0x51, 0x52] <+: chunk.encode) =
        s ∧
      s.remove [0x51, 0x52] ≠ s := by
  intro s
  have parsed : parse [0x51, 0x52] = .ok s := by cbv
  exact ⟨parsed, by decide, by decide, by decide⟩

end Script

end TokenLedger
