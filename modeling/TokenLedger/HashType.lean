import TokenLedger.Bytes

/-!
# Signature hash types

The last byte of a signature says which part of the transaction it signs.

Embeds `SigHash` and `SighashType` (`types`).
-/

namespace TokenLedger

/-- Which outputs a signature commits to. -/
inductive HashMode where
  | all | none | single
  deriving DecidableEq, Repr

/-- The byte at the end of a signature. Every byte is one, defined or not. -/
structure HashType where
  byte : UInt8
  deriving DecidableEq, Repr

namespace HashType

def ofMode (mode : HashMode) (anyoneCanPay : Bool) : HashType :=
  let base : UInt8 :=
    match mode with
    | .all => 0x01
    | .none => 0x02
    | .single => 0x03
  ⟨if anyoneCanPay then base ||| 0x80 else base⟩

/-- Undefined modes sign like `all`. -/
def mode (t : HashType) : HashMode :=
  match t.byte &&& 0x1f with
  | 0x02 => .none
  | 0x03 => .single
  | _ => .all

/-- The signature leaves the other inputs open. -/
def anyoneCanPay (t : HashType) : Bool := t.byte &&& 0x80 != 0

/-- One of the three modes, with or without the other inputs left open. -/
def isDefined (t : HashType) : Bool :=
  let base := t.byte &&& 0x7f
  0x01 ≤ base && base ≤ 0x03

end HashType

end TokenLedger
