import TokenLedger.Block.Codec

/-!
# Merkle commitment

A header commits to its transactions by the root of a tree of hashes over their identifiers. Each
level hashes its elements in pairs; an odd last element is paired with itself.

Embeds `calculate_merkle_root` and `check_merkle_root` (`block`).
-/

namespace TokenLedger

namespace Merkle

def combine (left right : Hash256) : Hash256 := Hash.sha256d (left.val ++ right.val)

/-- The level above: one hash for each pair. -/
def pairs : List Hash256 → List Hash256
  | [] => []
  | [last] => [combine last last]
  | left :: right :: rest => combine left right :: pairs rest

theorem pairs_length (level : List Hash256) : (pairs level).length = (level.length + 1) / 2 := by
  fun_induction pairs level <;> simp_all
  omega

/-- The root of the tree over a level. Without leaves it is zero. -/
def root (level : List Hash256) : Hash256 :=
  match level with
  | [] => FixedBytes.zero 32
  | [top] => top
  | left :: right :: rest => root (pairs (left :: right :: rest))
termination_by level.length
decreasing_by simp [pairs_length]; omega

end Merkle

namespace Block

def merkleRoot (transactions : List Transaction) : Hash256 :=
  Merkle.root (transactions.map Transaction.id)

/-- The header commits to exactly these transactions. -/
def hasMerkleRoot (block : Block) : Bool :=
  merkleRoot block.transactions == block.header.merkleRoot

end Block

end TokenLedger
