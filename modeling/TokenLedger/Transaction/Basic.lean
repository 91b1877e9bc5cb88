import TokenLedger.Output

/-!
# Transactions

A transaction spends outputs of earlier transactions and makes new ones. Behind its lock time it
may carry a memo, the name of a class of data, the data, and a signature of it; what is absent is
not the same as what is empty.

Embeds `OutPoint`, `TransactionInput` and `Transaction` (`types`).
-/

namespace TokenLedger

/-- An output of an earlier transaction. -/
structure OutPoint where
  transaction : Hash256
  index : UInt32
  deriving DecidableEq

structure Input where
  prevout : OutPoint
  unlockingScript : Bytes
  sequence : UInt32
  deriving DecidableEq

namespace Input

/-- The sequence number that switches the lock time off. -/
def finalSequence : UInt32 := 0xffffffff

def isFinal (input : Input) : Bool := input.sequence == finalSequence

end Input

structure Transaction where
  version : UInt32
  inputs : List Input
  outputs : List Output
  lockTime : UInt32
  memo : Option String
  dataClassName : Option String
  data : Option Bytes
  dataSignature : Option Bytes
  deriving DecidableEq

end TokenLedger
