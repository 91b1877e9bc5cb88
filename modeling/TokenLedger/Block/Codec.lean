import TokenLedger.Block.Basic
import TokenLedger.Transaction.Codec

/-!
# Wire form of blocks

A header of 160 bytes, the number of transactions, and the transactions back to back. They have to
account for every byte behind the header.

Embeds `write_block_header`, `read_block_header`, `serialize_block` and `deserialize_block_with`
(`serialization::block`), and `BlockHeader::hash` (`block`).
-/

namespace TokenLedger

namespace Header

def encode (header : Header) : Bytes :=
  encodeUInt32 header.version ++ header.previousBlock.val ++ header.previousBranchBlock.val
    ++ header.merkleRoot.val ++ encodeInt64 header.time ++ encodeInt64 header.difficultyTarget
    ++ encodeInt64 header.lastMiningRewardBlock ++ encodeUInt32 header.nonce
    ++ header.minerAddress.val ++ encodeUInt32 header.blockType ++ encodeInt64 header.height

def read : ReadM Header := do
  let version ← readUInt32 "block.header.version"
  let previousBlock ← readFixed "block.header.prev_block_hash" 32
  let previousBranchBlock ← readFixed "block.header.prev_branch_block_hash" 32
  let merkleRoot ← readFixed "block.header.merkle_root" 32
  let time ← readInt64 "block.header.time"
  let difficultyTarget ← readInt64 "block.header.difficulty_target"
  let lastMiningRewardBlock ← readInt64 "block.header.last_mining_reward_block"
  let nonce ← readUInt32 "block.header.nonce"
  let minerAddress ← readFixed "block.header.miner_address" 20
  let blockType ← readUInt32 "block.header.block_type"
  let height ← readInt64 "block.header.height"
  return { version, previousBlock, previousBranchBlock, merkleRoot, time, difficultyTarget,
           lastMiningRewardBlock, nonce, minerAddress, blockType, height }

/-- The hash of a block is that of its header. -/
def hash (header : Header) : Hash256 := Hash.sha256d header.encode

end Header

namespace Block

def encode (block : Block) : Bytes :=
  block.header.encode ++ encodeCount block.transactions.length
    ++ block.transactions.flatMap Transaction.encode

/-- Reads the transactions from the one at `index` on, `left` of them, and then nothing more. -/
def decodeTransactions (policy : CodecPolicy) (index left : Nat) (c : Cursor) :
    Except Error (List Transaction) :=
  match left with
  | 0 =>
    if c.atEnd then .ok []
    else .error (.malformedBlock c.position (.trailingBytes c.remaining index))
  | left + 1 =>
    match Transaction.read policy c with
    | .ok tx c => (decodeTransactions policy (index + 1) left c).map (tx :: ·)
    | .error cause _ =>
      .error (.malformedBlock c.position (.undecodable index (index + (left + 1)) cause))

/-- The block that a buffer consists of. -/
def decode (policy : CodecPolicy) (buffer : Bytes) : Except Error Block :=
  let opening : ReadM (Header × Nat) := do
    let header ← Header.read
    let count ← readCount policy.strictness policy.maximumCount "block.tx_count"
    return (header, count)
  match opening (Cursor.ofBuffer buffer 0) with
  | .error cause _ => .error (.decode cause)
  | .ok (header, count) c => do
    let transactions ← decodeTransactions policy 0 count c
    return { header, transactions }

end Block

end TokenLedger
