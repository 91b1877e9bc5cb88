/-!
# Verification flags

Rules that a verifier may or may not enforce, as a set of bits. Bits without a rule are kept.

Embeds `VerifyFlags` with `requires_canonical` and `requires_minimal` (`types`).
-/

namespace TokenLedger

/-- The rules that can be switched on. -/
inductive Flag where
  /-- Redeem scripts behind a script hash are executed. -/
  | scriptHash
  /-- Signatures and public keys are encoded strictly. -/
  | strictEncoding
  /-- Signatures are laid out strictly. -/
  | strictDer
  /-- The second number of a signature is at most half the order of the group. -/
  | lowS
  /-- The extra element that CHECKMULTISIG takes is empty. -/
  | nullDummy
  /-- Unlocking scripts only push data. -/
  | pushOnly
  /-- Pushes and numbers take their shortest form. -/
  | minimalData
  /-- The reserved no-ops are not used. -/
  | discourageNops
  /-- One element is left at the end. Means nothing without `scriptHash`. -/
  | cleanStack
  /-- CHECKLOCKTIMEVERIFY is enforced. -/
  | checkLockTime
  deriving DecidableEq, Repr

namespace Flag

/-- All rules, in the order of their bits. -/
def all : List Flag :=
  [scriptHash, strictEncoding, strictDer, lowS, nullDummy, pushOnly, minimalData, discourageNops,
    cleanStack, checkLockTime]

def mask : Flag → UInt32
  | scriptHash => 0x001
  | strictEncoding => 0x002
  | strictDer => 0x004
  | lowS => 0x008
  | nullDummy => 0x010
  | pushOnly => 0x020
  | minimalData => 0x040
  | discourageNops => 0x080
  | cleanStack => 0x100
  | checkLockTime => 0x200

def name : Flag → String
  | scriptHash => "P2SH"
  | strictEncoding => "STRICTENC"
  | strictDer => "DERSIG"
  | lowS => "LOW_S"
  | nullDummy => "NULLDUMMY"
  | pushOnly => "SIGPUSHONLY"
  | minimalData => "MINIMALDATA"
  | discourageNops => "DISCOURAGE_UPGRADABLE_NOPS"
  | cleanStack => "CLEANSTACK"
  | checkLockTime => "CHECKLOCKTIMEVERIFY"

def ofName? (name : String) : Option Flag := all.find? (·.name == name)

end Flag

/-- A set of rules. -/
structure Flags where
  bits : UInt32
  deriving DecidableEq, Repr

namespace Flags

def none : Flags := ⟨0⟩

def has (flags : Flags) (flag : Flag) : Bool := flags.bits &&& flag.mask != 0

def union (a b : Flags) : Flags := ⟨a.bits ||| b.bits⟩

def ofList (flags : List Flag) : Flags :=
  flags.foldl (fun acc flag => acc.union ⟨flag.mask⟩) none

/-- What is enforced unless the caller says otherwise. -/
def standard : Flags := ofList [.scriptHash, .nullDummy, .checkLockTime]

/-- Signatures have to be canonical under either of two rules. -/
def requiresCanonical (flags : Flags) : Bool := flags.has .strictEncoding || flags.has .strictDer

def requiresMinimal (flags : Flags) : Bool := flags.has .minimalData

end Flags

end TokenLedger
