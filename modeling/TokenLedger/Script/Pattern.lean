import TokenLedger.Number
import TokenLedger.Script.Basic

/-!
# Recognising standard scripts

Each recogniser yields the parts of a script that is of its kind. A script is of a kind only if
every chunk stands where the kind has it; paying to a script hash is a matter of the bytes of the
program, not of its chunks.

Embeds `script_type`, the recognisers it tries, and the accessors of what they find
(`script::classify`).
-/

namespace TokenLedger

/-- The kinds of locking script. -/
inductive ScriptKind where
  | keyHash | key | scriptHash | multisig | paymentChannel | dataCarrier | nonStandard
  deriving DecidableEq, Repr

/-- A number of keys or signatures: 1 to 16. -/
def Chunk.keyCount? (chunk : Chunk) : Option Nat :=
  if Opcode.one ≤ chunk.code ∧ chunk.code ≤ Opcode.sixteen then
    chunk.number?.map Int.toNat
  else none

namespace Script

/-- The hash that a script for a key hash pays to. -/
def keyHash? (s : Script) : Option Bytes :=
  match s.chunks.map (·.chunk) with
  | [dup, hash, data, verify, check] =>
    if dup.code = Opcode.dup ∧ hash.code = Opcode.hash160 ∧ verify.code = Opcode.equalVerify
        ∧ check.code = Opcode.checkSig then
      data.data?.filter (·.length = 20)
    else none
  | _ => none

/-- The key that a script for a key pays to, which is longer than one byte. -/
def key? (s : Script) : Option Bytes :=
  match s.chunks.map (·.chunk) with
  | [key, check] =>
    if check.code = Opcode.checkSig ∧ ¬ key.isOpcode then key.data?.filter (1 < ·.length)
    else none
  | _ => none

/-- The hash that a script for a script hash pays to. -/
def scriptHash? (s : Script) : Option Bytes :=
  match s.program with
  | opening :: length :: rest =>
    if opening = Opcode.hash160 ∧ length = 20 ∧ rest.drop 20 = [Opcode.equal] then
      some (rest.take 20)
    else none
  | _ => none

/-- The number of signatures a multisig script asks for, and the chunks of its keys. -/
def multisig? (s : Script) : Option (Nat × List Chunk) :=
  match s.chunks.map (·.chunk) with
  | [] => none
  | threshold :: rest =>
    match rest.reverse with
    | check :: count :: keys =>
      if check.code = Opcode.checkMultiSig ∨ check.code = Opcode.checkMultiSigVerify then do
        let required ← threshold.keyCount?
        let keyCount ← count.keyCount?
        guard (keys.length = keyCount ∧ required ≤ keyCount ∧ ¬ keys.any Chunk.isOpcode)
        return (required, keys.reverse)
      else none
    | _ => none

/-- The chunks of a payment channel that its parties choose. -/
structure Channel where
  recipient : Chunk
  expiry : Chunk
  sender : Chunk
  deriving DecidableEq

def paymentChannel? (s : Script) : Option Channel :=
  match s.chunks.map (·.chunk) with
  | [branch, recipient, both, otherwise, expiry, lock, drop, close, sender, check] =>
    if branch.code = Opcode.ifTrue ∧ ¬ recipient.isOpcode ∧ both.code = Opcode.checkSigVerify
        ∧ otherwise.code = Opcode.otherwise ∧ expiry.isPush
        ∧ lock.code = Opcode.checkLockTimeVerify ∧ drop.code = Opcode.drop
        ∧ close.code = Opcode.endIf ∧ ¬ sender.isOpcode ∧ check.code = Opcode.checkSig then
      some { recipient, expiry, sender }
    else none
  | _ => none

/-! ### Predicates -/

def isKeyHash (s : Script) : Bool := s.keyHash?.isSome
def isKey (s : Script) : Bool := s.key?.isSome
def isScriptHash (s : Script) : Bool := s.scriptHash?.isSome
def isMultisig (s : Script) : Bool := s.multisig?.isSome
def isPaymentChannel (s : Script) : Bool := s.paymentChannel?.isSome

/-- The script starts by failing. -/
def isDataCarrier (s : Script) : Bool :=
  match s.chunks with
  | [] => false
  | c :: _ => c.code == Opcode.fail

def kind (s : Script) : ScriptKind :=
  if s.isKeyHash then .keyHash
  else if s.isScriptHash then .scriptHash
  else if s.isKey then .key
  else if s.isMultisig then .multisig
  else if s.isPaymentChannel then .paymentChannel
  else if s.isDataCarrier then .dataCarrier
  else .nonStandard

/-! ### Parts -/

/-- The hash of a key or of a script that the script pays to. -/
def payeeHash? (s : Script) : Option Bytes := s.keyHash? <|> s.scriptHash?

/-- The keys of a multisig script in their order; none if a chunk of a key carries no data. -/
def multisigKeys? (s : Script) : Option (List Bytes) := do
  let (_, keys) ← s.multisig?
  keys.mapM Chunk.data?

/-- How many signatures are needed, if the script itself says so. -/
def requiredSignatures? (s : Script) : Option Nat :=
  match s.multisig? with
  | some (required, _) => some required
  | none => if s.isKeyHash || s.isKey then some 1 else none

def channelSender? (s : Script) : Option Bytes := do
  (← s.paymentChannel?).sender.data?

def channelRecipient? (s : Script) : Option Bytes := do
  (← s.paymentChannel?).recipient.data?

/-- The lock time after which the sender can close a channel alone. -/
def channelExpiry? (s : Script) : Option Int := do
  let expiry := (← s.paymentChannel?).expiry
  match expiry.data? with
  | some bytes => (ScriptNumber.decode ScriptNumber.lockTimeWidth false bytes).toOption
  | none => expiry.number?

end Script

end TokenLedger
