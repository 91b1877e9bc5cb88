import TokenLedger.Machine.State
import TokenLedger.Signature.Basic
import TokenLedger.SignatureHash

/-!
# Checking signatures

One signature against one key, and many against many. Under the rules on encodings a signature or
key that breaks them fails the run; everything else that is no valid signature is simply not
accepted.

Embeds `connected_script`, `check_signature`, `op_check_sig` and `op_check_multisig`
(`script::interpreter`).
-/

namespace TokenLedger

namespace Environment

/-- The rules on encodings, applied to a signature and a key. -/
def checkEncodings (env : Environment) (signature key : Bytes) : Except Error Unit := do
  if env.flags.requiresCanonical && !signature.isEmpty then
    if !TransactionSignature.hasStrictLayout signature then throw (.evaluation .signatureEncoding)
    if env.flags.has .strictEncoding && !TransactionSignature.hasDefinedHashType signature then
      throw (.evaluation .undefinedHashType)
  if env.flags.has .strictEncoding && !PublicKey.isPlainEncoding key then
    throw (.evaluation .pubkeyEncoding)

/-- The signature is one of the input being spent, which has to satisfy `connected`. Without an
input none is. Whatever the rules, the bytes are read leniently. -/
def checkSignature (env : Environment) (connected : Script) (signature key : Bytes) :
    Except Error Bool := do
  env.checkEncodings signature key
  match env.context with
  | none => return false
  | some context =>
    match TransactionSignature.decode false (env.flags.has .lowS) signature,
        PublicKey.decode? key with
    | .ok signature, some key =>
      let digest ← SignatureHash.digest context.tx context.inputIndex connected signature.hashType
      return Ecdsa.verify key digest signature.ecdsa
    | _, _ => return false

end Environment

namespace Machine

/-- Checks a signature and keeps a record of it. -/
def checkRecorded (env : Environment) (connected : Script) (signature key : Bytes) :
    MachineM Bool := fun s =>
  let verdict := env.checkSignature connected signature key
  let s := { s with checks := ⟨signature, key, verdict⟩ :: s.checks }
  match verdict with
  | .ok accepted => .ok accepted s
  | .error e => .error e s

/-- The element at a position. A position beyond the end is a fault, and reported. -/
def entryAt (entries : List Bytes) (position : Nat) : MachineM Bytes :=
  match entries[position]? with
  | some entry => return entry
  | none => throw (.outOfRange position entries.length)

/-- Whether every signature from position `i` on is accepted for a key of its own from position `j`
on, in the order of the keys. A key that does not accept the signature at hand is passed over for
good, and when fewer keys than signatures are left there is nothing more to try. -/
def matchFrom (accepts : Bytes → Bytes → MachineM Bool) (signatures keys : List Bytes)
    (i j : Nat) : MachineM Bool :=
  if signatures.length ≤ i then return true
  -- The number of keys that are left is a difference, which cannot be negative.
  else if keys.length < j then throw (.outOfRange j keys.length)
  else if keys.length - j < signatures.length - i then return false
  else do
    let signature ← entryAt signatures i
    let key ← entryAt keys j
    let accepted ← accepts signature key
    matchFrom accepts signatures keys (if accepted then i + 1 else i) (j + 1)
termination_by keys.length + 1 - j

/-- What signatures commit to: the script behind the last separator that was executed, without the
signatures themselves. -/
def connectedScript (env : Environment) (separator : Nat) (signatures : List Bytes) : Script :=
  signatures.foldl (fun script signature => script.remove (Chunk.encodeData signature))
    (env.script.dropTo separator)

/-- Takes a key and a signature. -/
def checkSig (env : Environment) : MachineM Bool := fun s =>
  match s.stack with
  | key :: signature :: stack =>
    checkRecorded env (connectedScript env s.separator [signature]) signature key { s with stack }
  | _ => .error StackOp.underflow s

/-- Takes a number from 0 to `maximum`. -/
def popCount (env : Environment) (maximum : Nat) (cause : ScriptError) : MachineM Nat := do
  let bytes ← pop
  match StackOp.operand env.flags.requiresMinimal bytes with
  | .error e => throw e
  | .ok n => if 0 ≤ n ∧ n ≤ maximum then return n.toNat else fault cause

/-- Matches signatures and keys that were taken from the stack, on the script behind a separator.
Then the element below them is taken too. -/
def matchOperands (env : Environment) (signatures keys : List Bytes) (separator : Nat) :
    MachineM Bool := do
  let connected := connectedScript env separator signatures
  let accepted ← matchFrom (checkRecorded env connected) signatures keys 0 0
  let dummy ← pop
  if env.flags.has .nullDummy && !dummy.isEmpty then fault .dummyNotNull
  return accepted

/-- Takes the number of keys and the keys, the number of signatures and the signatures, and one
element more. Both are matched from the last on. -/
def checkMultiSig (env : Environment) : MachineM Bool := do
  let keyCount ← popCount env Limits.keys .pubkeyCount
  countOperations keyCount
  let keys ← popBelowOne keyCount
  let signatureCount ← popCount env keyCount .signatureCount
  let signatures ← popBelowOne signatureCount
  matchOperands env signatures keys (← get).separator

end Machine

end TokenLedger
