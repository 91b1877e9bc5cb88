import Mathlib.Data.List.Basic
import TokenLedger.Block.Codec
import TokenLedger.Proofs.Wire.FixedLayout

/-!
# Headers

A header is eleven fields of fixed width, signed ones among them. Any 160 bytes are one header and
no other, and of fewer bytes the reader says which field is the first that is not all there.
-/

namespace TokenLedger.Header

/-- The fields of a header in the order of the wire. -/
def layout : Layout :=
  [("block.header.version", 4), ("block.header.prev_block_hash", 32),
    ("block.header.prev_branch_block_hash", 32), ("block.header.merkle_root", 32),
    ("block.header.time", 8), ("block.header.difficulty_target", 8),
    ("block.header.last_mining_reward_block", 8), ("block.header.nonce", 4),
    ("block.header.miner_address", 20), ("block.header.block_type", 4),
    ("block.header.height", 8)]

theorem width_layout : layout.width = 160 := rfl

theorem read_hasLayout : read.HasLayout layout :=
  (readNumber_hasLayout _).cons fun version =>
  (readFixed_hasLayout _ 32).cons fun previousBlock =>
  (readFixed_hasLayout _ 32).cons fun previousBranchBlock =>
  (readFixed_hasLayout _ 32).cons fun merkleRoot =>
  (readNumber_hasLayout _).cons fun time =>
  (readNumber_hasLayout _).cons fun difficultyTarget =>
  (readNumber_hasLayout _).cons fun lastRewardBlock =>
  (readNumber_hasLayout _).cons fun nonce =>
  (readFixed_hasLayout _ 20).cons fun minerAddress =>
  (readNumber_hasLayout _).cons fun blockType =>
  (readNumber_hasLayout _).cons fun height =>
  .pure (Header.mk version previousBlock previousBranchBlock merkleRoot time difficultyTarget
    lastRewardBlock nonce minerAddress blockType height)

theorem read_accepts : read.Accepts fun bytes header => header.encode = bytes := by
  refine ((readUInt32_accepts _).bind fun version =>
    (readFixed_accepts _ 32).bind fun previousBlock =>
    (readFixed_accepts _ 32).bind fun previousBranchBlock =>
    (readFixed_accepts _ 32).bind fun merkleRoot =>
    (readInt64_accepts _).bind fun time =>
    (readInt64_accepts _).bind fun difficultyTarget =>
    (readInt64_accepts _).bind fun lastRewardBlock =>
    (readUInt32_accepts _).bind fun nonce =>
    (readFixed_accepts _ 20).bind fun minerAddress =>
    (readUInt32_accepts _).bind fun blockType =>
    (readInt64_accepts _).bind fun height =>
    .pure (Header.mk version previousBlock previousBranchBlock merkleRoot time difficultyTarget
      lastRewardBlock nonce minerAddress blockType height)).congr ?_
  intro bytes header
  constructor
  · intro taken
    obtain ⟨_, version, _, rfl, fromPrevious, rfl⟩ := taken
    obtain ⟨_, previousBlock, _, rfl, fromBranch, rfl⟩ := fromPrevious
    obtain ⟨_, previousBranchBlock, _, rfl, fromRoot, rfl⟩ := fromBranch
    obtain ⟨_, merkleRoot, _, rfl, fromTime, rfl⟩ := fromRoot
    obtain ⟨_, time, _, rfl, fromTarget, rfl⟩ := fromTime
    obtain ⟨_, difficultyTarget, _, rfl, fromReward, rfl⟩ := fromTarget
    obtain ⟨_, lastRewardBlock, _, rfl, fromNonce, rfl⟩ := fromReward
    obtain ⟨_, nonce, _, rfl, fromMiner, rfl⟩ := fromNonce
    obtain ⟨_, minerAddress, _, rfl, fromType, rfl⟩ := fromMiner
    obtain ⟨_, blockType, _, rfl, fromHeight, rfl⟩ := fromType
    obtain ⟨_, height, _, rfl, ⟨rfl, rfl⟩, rfl⟩ := fromHeight
    simp only [encode, List.append_assoc, List.append_nil]
  · rintro rfl
    refine ⟨_, header.version, _, rfl, ⟨_, header.previousBlock, _, rfl,
      ⟨_, header.previousBranchBlock, _, rfl, ⟨_, header.merkleRoot, _, rfl,
      ⟨_, header.time, _, rfl, ⟨_, header.difficultyTarget, _, rfl,
      ⟨_, header.lastMiningRewardBlock, _, rfl, ⟨_, header.nonce, _, rfl,
      ⟨_, header.minerAddress, _, rfl, ⟨_, header.blockType, _, rfl,
      ⟨_, header.height, [], rfl, ⟨rfl, rfl⟩, rfl⟩, rfl⟩, rfl⟩, rfl⟩, rfl⟩, rfl⟩, rfl⟩, rfl⟩, rfl⟩,
      rfl⟩, ?_⟩
    simp only [encode, List.append_assoc, List.append_nil]

/-- Where 160 bytes are, they are read. -/
theorem exists_read {c : Cursor} (inside : c.beyond = 0) (enough : 160 ≤ c.remaining) :
    ∃ header, read c = .ok header (c.advance 160) :=
  read_hasLayout.reads c inside (Layout.missing_eq_none_iff.mpr enough)

theorem exists_unique_encode {bytes : Bytes} (length : bytes.length = 160) :
    ∃! header : Header, header.encode = bytes := by
  obtain ⟨header, ran⟩ := @exists_read ⟨0, bytes, 0⟩ rfl (Nat.le_of_eq length.symm)
  obtain ⟨_, rfl, rest, position⟩ := (read_accepts _ _ _ rfl).mp ran
  have nothing_left : (Cursor.advance ⟨0, bytes, 0⟩ 160).rest = [] := by
    rw [Cursor.advance, ← length, List.drop_length]
  rw [nothing_left, List.append_nil] at rest
  refine ⟨header, rest.symm, ?_⟩
  intro other same
  have selfDelimiting := (read_accepts.congr fun _ _ => (and_iff_right trivial).symm).selfDelimiting
  exact selfDelimiting.injective trivial trivial (same.trans rest)

@[simp]
theorem length_encode (header : Header) : header.encode.length = 160 := by
  obtain ⟨version, previousBlock, previousBranchBlock, merkleRoot, time, difficultyTarget,
    lastRewardBlock, nonce, minerAddress, blockType, height⟩ := header
  simp only [encode, encodeUInt32, encodeInt64, encodeUInt64, List.length_append,
    Bytes.littleEndian_length, previousBlock.property, previousBranchBlock.property,
    merkleRoot.property, minerAddress.property]

/-- Fewer bytes end within a field or at the start of one. -/
theorem exists_field_of_short {c : Cursor} (inside : c.beyond = 0) (few : c.remaining < 160) :
    ∃ front field n back stop, layout = front ++ (field, n) :: back ∧
      Layout.width front ≤ c.remaining ∧ c.remaining < Layout.width front + n ∧
      read c = .error (.truncated field (c.position + Layout.width front) n
        (c.remaining - Layout.width front)) stop := by
  cases reported : layout.missing c.position c.remaining with
  | none =>
    have enough := Layout.missing_eq_none_iff.mp reported
    rw [width_layout] at enough
    omega
  | some e =>
    obtain ⟨stop, failed⟩ := read_hasLayout.stops c e inside reported
    obtain ⟨front, field, n, back, split, begins, ends, rfl⟩ := Layout.exists_of_missing reported
    exact ⟨front, field, n, back, stop, split, begins, ends, failed⟩

/-- The names of the fields say that they belong to the header. -/
theorem exists_name_of_mem_layout :
    ∀ entry ∈ layout, ∃ name, entry.1 = "block.header." ++ name := by
  simp only [layout, List.forall_mem_cons]
  exact ⟨⟨"version", rfl⟩, ⟨"prev_block_hash", rfl⟩, ⟨"prev_branch_block_hash", rfl⟩,
    ⟨"merkle_root", rfl⟩, ⟨"time", rfl⟩, ⟨"difficulty_target", rfl⟩,
    ⟨"last_mining_reward_block", rfl⟩, ⟨"nonce", rfl⟩, ⟨"miner_address", rfl⟩,
    ⟨"block_type", rfl⟩, ⟨"height", rfl⟩, by simp⟩

end TokenLedger.Header
