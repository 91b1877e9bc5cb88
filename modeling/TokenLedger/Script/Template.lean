import TokenLedger.Hash.Ripemd160
import TokenLedger.Script.Builder

/-!
# Standard scripts

The scripts that wallets lock outputs with, and the scripts that unlock them.

Embeds `create_p2pkh`, `create_p2pk`, `create_p2sh_for`, `create_multisig`, `create_op_return`,
`create_cltv_payment_channel`, `create_p2pkh_input` and `create_p2sh_multisig_input`
(`script::builder`).
-/

namespace TokenLedger.Script

/-- Pays to the key with a hash: DUP HASH160 hash EQUALVERIFY CHECKSIG. -/
def payToKeyHash (keyHash : Hash160) : Script :=
  build [.op Opcode.dup, .op Opcode.hash160, .data keyHash.val, .op Opcode.equalVerify,
    .op Opcode.checkSig]

/-- Pays to a key: key CHECKSIG. -/
def payToKey (key : Bytes) : Script := build [.data key, .op Opcode.checkSig]

/-- Pays to the script with a hash: HASH160 hash EQUAL. -/
def payToScriptHash (scriptHash : Hash160) : Script :=
  build [.op Opcode.hash160, .data scriptHash.val, .op Opcode.equal]

/-- Pays to a redeem script. -/
def payToScript (redeem : Script) : Script := payToScriptHash (Hash.hash160 redeem.program)

/-- Pays to so many of the keys: threshold keys… count CHECKMULTISIG. -/
def multisig (threshold : Nat) (keys : List Bytes) : Script :=
  build (.number (Int64.ofNat threshold) :: keys.map .data
    ++ [.number (Int64.ofNat keys.length), .op Opcode.checkMultiSig])

/-- Pays to nobody, and carries data: RETURN data. -/
def dataCarrier (bytes : Bytes) : Script := build [.op Opcode.fail, .data bytes]

/-- A payment channel that can be closed by both parties at any time, and by the sender alone once
the expiry has passed: IF recipient CHECKSIGVERIFY ELSE expiry CHECKLOCKTIMEVERIFY DROP ENDIF
sender CHECKSIG. -/
def paymentChannel (sender recipient : Bytes) (expiry : Int64) : Script :=
  build [.op Opcode.ifTrue, .data recipient, .op Opcode.checkSigVerify, .op Opcode.otherwise,
    .data (ScriptNumber.encode expiry.toInt), .op Opcode.checkLockTimeVerify, .op Opcode.drop,
    .op Opcode.endIf, .data sender, .op Opcode.checkSig]

/-! ### Unlocking -/

/-- Unlocks a script that pays to a key hash. -/
def keyHashInput (signature key : Bytes) : Script := build [.data signature, .data key]

/-- Unlocks a script that pays to a redeem script of many keys. -/
def multisigInput (signatures : List Bytes) (redeem : Script) : Script :=
  build (.data [] :: signatures.map .data ++ [.data redeem.program])

end TokenLedger.Script
