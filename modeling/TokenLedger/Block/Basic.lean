import TokenLedger.Transaction.Basic

/-!
# Blocks

A block is a header of fixed width and a list of transactions to which the header commits.

Embeds `BlockType`, `BlockHeader` and `Block` (`types`).
-/

namespace TokenLedger

/-- The kinds of block that have a name. -/
inductive BlockKind where
  | initial | transfer | reward | tokenCreation | userData | contractEvent
  | governance | file | contractExecute | orderOpen | orderCancel | orderExecute
  deriving DecidableEq, Repr

/-- The kind with an ordinal. Ordinals beyond the last are kinds without a name. -/
def BlockKind.ofOrdinal? (ordinal : UInt32) : Option BlockKind :=
  [initial, transfer, reward, tokenCreation, userData, contractEvent,
    governance, file, contractExecute, orderOpen, orderCancel, orderExecute][ordinal.toNat]?

structure Header where
  version : UInt32
  previousBlock : Hash256
  previousBranchBlock : Hash256
  merkleRoot : Hash256
  time : Int64
  difficultyTarget : Int64
  lastMiningRewardBlock : Int64
  nonce : UInt32
  minerAddress : FixedBytes 20
  /-- The ordinal of the block's kind. -/
  blockType : UInt32
  height : Int64
  deriving DecidableEq

def Header.kind? (header : Header) : Option BlockKind := BlockKind.ofOrdinal? header.blockType

structure Block where
  header : Header
  transactions : List Transaction
  deriving DecidableEq

end TokenLedger
