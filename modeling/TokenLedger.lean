import TokenLedger.Block.Basic
import TokenLedger.Block.Codec
import TokenLedger.Block.Merkle
import TokenLedger.Bytes
import TokenLedger.Ecdsa
import TokenLedger.Error
import TokenLedger.Flags
import TokenLedger.Flags.Text
import TokenLedger.Hash.Sha256
import TokenLedger.Hash.Ripemd160
import TokenLedger.Hash.Sha1
import TokenLedger.HashType
import TokenLedger.Json.Basic
import TokenLedger.Json.Literal
import TokenLedger.Json.Parser
import TokenLedger.Json.Record
import TokenLedger.Json.Token
import TokenLedger.Machine.Instruction
import TokenLedger.Machine.LockTime
import TokenLedger.Machine.Run
import TokenLedger.Machine.SignatureCheck
import TokenLedger.Machine.Stack
import TokenLedger.Machine.State
import TokenLedger.Number
import TokenLedger.Opcode
import TokenLedger.Output
import TokenLedger.Policy
import TokenLedger.Proofs.Block.Commitment
import TokenLedger.Proofs.Block.Exactness
import TokenLedger.Proofs.Block.Tightening
import TokenLedger.Proofs.Machine.CheckCount
import TokenLedger.Proofs.Machine.SignedBytes
import TokenLedger.Proofs.Machine.Structured
import TokenLedger.Proofs.SignatureHash.Commitment
import TokenLedger.Proofs.Spend.KeyHash
import TokenLedger.Proofs.Spend.PaymentChannel
import TokenLedger.Proofs.Spend.RequiredSignatures
import TokenLedger.Proofs.Spend.StoredScripts
import TokenLedger.Proofs.Transaction.Locality
import TokenLedger.PublicKey
import TokenLedger.ReadSession
import TokenLedger.Wire
import TokenLedger.Script.Basic
import TokenLedger.Script.Builder
import TokenLedger.Script.Chunk
import TokenLedger.Script.Edit
import TokenLedger.Script.Pattern
import TokenLedger.Script.Template
import TokenLedger.Secp256k1
import TokenLedger.Signature.Basic
import TokenLedger.Signature.Der
import TokenLedger.SignatureHash
import TokenLedger.Spend
import TokenLedger.Text.Characters
import TokenLedger.Text.Utf8
import TokenLedger.Transaction.Basic
import TokenLedger.Transaction.Codec
import TokenLedger.VarInt
import TokenLedger.Proofs.Script.Removal
import TokenLedger.Proofs.Script.ShortestPush
import TokenLedger.Proofs.ScriptNumber
import TokenLedger.Proofs.Signature.StrictLayout
import TokenLedger.Proofs.Signature.Decoding
import TokenLedger.Proofs.Signature.RoundTrip
import TokenLedger.Proofs.Machine.Minimality
import TokenLedger.Proofs.Machine.BuiltPushes
import TokenLedger.Proofs.Script.Templates
import TokenLedger.Proofs.Machine.Frame
import TokenLedger.Proofs.Machine.StackBase
import TokenLedger.Proofs.Machine.Concatenation
import TokenLedger.Proofs.Block.MerkleTree
import TokenLedger.Proofs.Machine.DerivedForms
import TokenLedger.Proofs.Spend.Failures
import TokenLedger.Proofs.ReadSession
import TokenLedger.Proofs.Wire.VarIntOutcomes
import TokenLedger.Proofs.Block.DeclaredCounts
import TokenLedger.Proofs.Policy.Text
