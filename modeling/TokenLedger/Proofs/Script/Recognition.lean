import TokenLedger.Proofs.Script.Building
import TokenLedger.Script.Pattern

/-!
# What recognisers find

A recogniser looks at codes and at data at certain places. Of a script that was parsed this leaves
only the encodings of its pushes open: a code beyond those that announce data is an operation, and
what carries data is a push.
-/

namespace TokenLedger

namespace Chunk

variable {chunk : Chunk}

theorem WellFormed.eq_op_of_code {code : UInt8} (good : chunk.WellFormed) (same : chunk.code = code)
    (beyond : Opcode.pushData4 < code) : chunk = .op code := by
  subst same
  exact good.eq_op beyond

theorem eq_push_of_data? {data : Bytes} (carries : chunk.data? = some data) :
    chunk = .push chunk.code data := by
  cases chunk with
  | op code => cases carries
  | push code data =>
    cases carries
    rfl

/-- What is no operation carries data. -/
theorem WellFormed.exists_data (good : chunk.WellFormed) (plain : chunk.isOpcode = false) :
    ∃ data, chunk = .push chunk.code data := by
  cases good with
  | op beyond => simp [isOpcode, code, beyond] at plain
  | direct | pushData1 | pushData2 | pushData4 => exact ⟨_, rfl⟩

theorem keyCount?_eq_some {n : Nat} (good : chunk.WellFormed) (counts : chunk.keyCount? = some n) :
    1 ≤ n ∧ n ≤ 16 ∧ chunk = .op (Opcode.one + UInt8.ofNat n - 1) := by
  unfold keyCount? at counts
  split at counts
  next number =>
    obtain ⟨value, pos, few, code, stands⟩ := Opcode.IsNumber.exists_number number
    simp only [number?, stands, Option.map_some, Int.toNat_natCast, Option.some.injEq] at counts
    subst counts
    exact ⟨pos, few, good.eq_op_of_code code (number_code pos few).1⟩
  next => cases counts

/-- Pushes of data, each with a code. -/
def pushes (parts : List (UInt8 × Bytes)) : List Chunk := parts.map fun (code, data) => push code data

theorem mapM_data?_pushes (parts : List (UInt8 × Bytes)) :
    (pushes parts).mapM data? = some (parts.map (·.2)) := by
  induction parts with
  | nil => rfl
  | cons part parts ih =>
    have rest : (parts.map fun (code, data) => push code data).mapM data? =
        some (parts.map (·.2)) := ih
    simp [pushes, data?, rest]

theorem exists_eq_pushes {chunks : List Chunk} (good : ∀ chunk ∈ chunks, chunk.WellFormed)
    (plain : ∀ chunk ∈ chunks, chunk.isOpcode = false) : ∃ parts, chunks = pushes parts := by
  induction chunks with
  | nil => exact ⟨[], rfl⟩
  | cons chunk chunks ih =>
    rw [List.forall_mem_cons] at good plain
    obtain ⟨data, eq⟩ := good.1.exists_data plain.1
    obtain ⟨parts, rfl⟩ := ih good.2 plain.2
    exact ⟨(chunk.code, data) :: parts, by rw [eq]; rfl⟩

end Chunk

namespace Script

variable {chunks : List Chunk}

theorem map_chunk_assemble (chunks : List Chunk) :
    (assemble chunks).chunks.map (·.chunk) = chunks := map_chunk_place 0 chunks

/-- A script that pays to a key hash, however the hash is pushed. -/
theorem eq_of_keyHash? {hash : Bytes} (good : ∀ chunk ∈ chunks, chunk.WellFormed)
    (found : (assemble chunks).keyHash? = some hash) :
    hash.length = 20 ∧ ∃ code, chunks = [.op Opcode.dup, .op Opcode.hash160, .push code hash,
      .op Opcode.equalVerify, .op Opcode.checkSig] := by
  unfold keyHash? at found
  rw [map_chunk_assemble] at found
  split at found
  next dup hashing data verify check =>
    split at found
    next codes =>
      obtain ⟨ofDup, ofHash, ofVerify, ofCheck⟩ := codes
      obtain ⟨carries, length⟩ := Option.filter_eq_some_iff.mp found
      simp only [List.forall_mem_cons] at good
      obtain ⟨goodDup, goodHash, -, goodVerify, goodCheck, -⟩ := good
      refine ⟨by simpa using length, data.code, ?_⟩
      rw [goodDup.eq_op_of_code ofDup (by decide), goodHash.eq_op_of_code ofHash (by decide),
        goodVerify.eq_op_of_code ofVerify (by decide), goodCheck.eq_op_of_code ofCheck (by decide),
        ← Chunk.eq_push_of_data? carries]
    next => cases found
  next => cases found

/-- A script that pays to a key, however the key is pushed. -/
theorem eq_of_key? {key : Bytes} (good : ∀ chunk ∈ chunks, chunk.WellFormed)
    (found : (assemble chunks).key? = some key) :
    ∃ code, chunks = [.push code key, .op Opcode.checkSig] := by
  unfold key? at found
  rw [map_chunk_assemble] at found
  split at found
  next pushed check =>
    split at found
    next codes =>
      obtain ⟨carries, -⟩ := Option.filter_eq_some_iff.mp found
      simp only [List.forall_mem_cons] at good
      refine ⟨pushed.code, ?_⟩
      rw [good.2.1.eq_op_of_code codes.1 (by decide), ← Chunk.eq_push_of_data? carries]
    next => cases found
  next => cases found

/-- A script that pays to many keys, however the keys are pushed. -/
theorem eq_of_multisig? {required : Nat} {keys : List Chunk}
    (good : ∀ chunk ∈ chunks, chunk.WellFormed)
    (found : (assemble chunks).multisig? = some (required, keys)) :
    1 ≤ required ∧ required ≤ keys.length ∧ 1 ≤ keys.length ∧ keys.length ≤ 16 ∧
      (∃ pushes, keys = Chunk.pushes pushes) ∧
      ∃ check, (check = Opcode.checkMultiSig ∨ check = Opcode.checkMultiSigVerify) ∧
        chunks = .op (Opcode.one + UInt8.ofNat required - 1) :: keys ++
          [.op (Opcode.one + UInt8.ofNat keys.length - 1), .op check] := by
  unfold multisig? at found
  rw [map_chunk_assemble] at found
  cases chunks with
  | nil => cases found
  | cons threshold rest =>
    dsimp only at found
    split at found
    next check count keysBackwards backwards =>
      have forwards : rest = keysBackwards.reverse ++ [count, check] := by
        rw [← List.reverse_reverse rest, backwards]
        simp
      split at found
      next checks =>
        simp only [Option.bind_eq_bind, Option.bind_eq_some_iff] at found
        obtain ⟨_, ofThreshold, keyCount, ofCount, _, guarded, same⟩ := found
        cases same
        unfold guard at guarded
        split at guarded
        next fits =>
          obtain ⟨rfl, few, plain⟩ := fits
          rw [forwards, List.forall_mem_cons, List.forall_mem_append] at good
          obtain ⟨goodThreshold, goodKeys, goodBehind⟩ := good
          simp only [List.forall_mem_cons] at goodBehind
          obtain ⟨pos, -, isThreshold⟩ := Chunk.keyCount?_eq_some goodThreshold ofThreshold
          obtain ⟨atLeast, atMost, isCount⟩ := Chunk.keyCount?_eq_some goodBehind.1 ofCount
          have pushed := Chunk.exists_eq_pushes goodKeys (by simpa using plain)
          have isCheck : check = .op check.code := by
            apply goodBehind.2.1.eq_op
            rcases checks with code | code <;> rw [code] <;> decide
          rw [List.length_reverse]
          refine ⟨pos, few, atLeast, atMost, pushed, check.code, checks, ?_⟩
          rw [forwards, ← isThreshold, ← isCount, ← isCheck]
          rfl
        next => cases guarded
      next => cases found
    next => cases found

end Script

end TokenLedger
