import TokenLedger.Text.Utf8

/-!
# Failures

Failures are named for their causes. What they say to a reader is fixed by the `message` functions
and nowhere else.

Embeds `ConsensusError` and `ScriptError` (`error`).
-/

namespace TokenLedger

/-- What is wrong with bytes that are all there. -/
inductive Malformation where
  /-- A compact integer took `width` bytes where fewer would do. -/
  | wideVarInt (value : UInt64) (width : Nat)
  | presenceFlag (flag : UInt8)
  | notText (fault : Utf8.Fault)
  | negativeValue
  | countAboveMaximum (count maximum : UInt64)
  | trailingBytes (count : Nat)
  deriving DecidableEq, Repr

def Malformation.message : Malformation → String
  | .wideVarInt value width => s!"non-canonical encoding: {value} encoded in {width} bytes"
  | .presenceFlag flag => s!"invalid presence flag {flag}"
  | .notText fault => "invalid UTF-8: " ++ fault.message
  | .negativeValue => "negative output value"
  | .countAboveMaximum count maximum => s!"declared count {count} exceeds maximum {maximum}"
  | .trailingBytes count => s!"{count} trailing bytes"

/-- Why a field could not be read at an offset. -/
inductive DecodeError where
  | malformed (field : String) (offset : Nat) (reason : Malformation)
  | truncated (field : String) (offset needed available : Nat)
  /-- A slice of a buffer of that length was taken behind its end. There is no way on from here. -/
  | outOfRange (offset length : Nat)
  deriving DecidableEq, Repr

def DecodeError.message : DecodeError → String
  | .malformed field offset reason =>
    s!"Malformed encoding of {field} at offset {offset}: " ++ reason.message
  | .truncated field offset needed available =>
    s!"Truncated input reading {field} at offset {offset}: " ++
      s!"need {needed} bytes, {available} available"
  | .outOfRange offset length =>
    s!"range end index {offset} out of range for slice of length {length}"

/-- Why the bytes after a block header are not its transactions. -/
inductive BlockFault where
  | undecodable (index count : Nat) (cause : DecodeError)
  | trailingBytes (remaining count : Nat)
  deriving DecidableEq, Repr

def BlockFault.message : BlockFault → String
  | .undecodable index count cause =>
    s!"transaction {index} of {count} could not be decoded: " ++ cause.message
  | .trailingBytes remaining count => s!"{remaining} bytes remain after {count} transactions"

/-- Why program bytes are not a sequence of chunks. -/
inductive ParseFault where
  /-- The program ends inside the length of a push. -/
  | lengthCutShort
  /-- A push announces more bytes than there are. -/
  | dataCutShort
  deriving DecidableEq, Repr

def ParseFault.message : ParseFault → String
  | .lengthCutShort => "unexpected end of script"
  | .dataCutShort => "push exceeds remaining data"

/-- Why the execution of a script stops. -/
inductive ScriptError where
  | invalidStackOperation | invalidAltStackOperation
  | disabledOpcode (code : UInt8) | badOpcode (code : UInt8) | discouragedNop (code : UInt8)
  | returnExecuted | verifyFailed | equalVerifyFailed | numEqualVerifyFailed
  | checkSigVerifyFailed | checkMultiSigVerifyFailed
  | tooManyOperations | stackSize | scriptSize | pushSize | unbalancedConditional
  | negativeLockTime | unsatisfiedLockTime
  | pubkeyCount | signatureCount | dummyNotNull
  | signatureEncoding | undefinedHashType | pubkeyEncoding
  | numberOverflow | minimalData | unlockingNotPushOnly | stackNotClean | evaluatedToFalse
  deriving DecidableEq, Repr

def ScriptError.message : ScriptError → String
  | .invalidStackOperation => "invalid stack operation"
  | .invalidAltStackOperation => "invalid altstack operation"
  | .disabledOpcode code => s!"disabled opcode 0x{Bytes.toHex [code]}"
  | .badOpcode code => s!"reserved or unknown opcode 0x{Bytes.toHex [code]}"
  | .discouragedNop code => s!"upgradable NOP 0x{Bytes.toHex [code]} is discouraged"
  | .returnExecuted => "OP_RETURN encountered"
  | .verifyFailed => "OP_VERIFY failed"
  | .equalVerifyFailed => "OP_EQUALVERIFY failed"
  | .numEqualVerifyFailed => "OP_NUMEQUALVERIFY failed"
  | .checkSigVerifyFailed => "OP_CHECKSIGVERIFY failed"
  | .checkMultiSigVerifyFailed => "OP_CHECKMULTISIGVERIFY failed"
  | .tooManyOperations => "operation limit exceeded"
  | .stackSize => "stack size limit exceeded"
  | .scriptSize => "script larger than 10,000 bytes"
  | .pushSize => "push larger than 520 bytes"
  | .unbalancedConditional => "unbalanced conditional"
  | .negativeLockTime => "negative locktime"
  | .unsatisfiedLockTime => "locktime requirement not satisfied"
  | .pubkeyCount => "public key count out of range"
  | .signatureCount => "signature count out of range"
  | .dummyNotNull => "CHECKMULTISIG dummy argument not null"
  | .signatureEncoding => "non-canonical DER signature"
  | .undefinedHashType => "undefined signature hash type"
  | .pubkeyEncoding => "public key encoding invalid"
  | .numberOverflow => "script number overflow"
  | .minimalData => "non-minimal data encoding"
  | .unlockingNotPushOnly => "only push operations allowed"
  | .stackNotClean => "stack not clean after evaluation"
  | .evaluatedToFalse => "script evaluated to false"

/-- Why bytes are not a signature. -/
inductive SignatureFault where
  | empty | notCanonical | malformed | highS
  deriving DecidableEq, Repr

def SignatureFault.message : SignatureFault → String
  | .empty => "empty signature"
  | .notCanonical => "signature encoding is not canonical"
  | .malformed => "malformed signature"
  | .highS => "S-value is not canonical"

/-- Any failure of the library. -/
inductive Error where
  | decode (cause : DecodeError)
  | malformedBlock (offset : Nat) (reason : BlockFault)
  | scriptParse (offset : Nat) (reason : ParseFault)
  | evaluation (cause : ScriptError)
  | signatureDecode (reason : SignatureFault)
  | invalidInputIndex (index : Nat)
  /-- A position beyond the end of a list of that length was used. There is no way on from here. -/
  | outOfRange (position length : Nat)
  /-- A policy text that is no policy. -/
  | policy
  deriving DecidableEq, Repr

namespace Error

def message : Error → String
  | decode cause => cause.message
  | malformedBlock offset reason => s!"Malformed block at offset {offset}: " ++ reason.message
  | scriptParse offset reason => s!"Script parse error at offset {offset}: " ++ reason.message
  | evaluation cause => "Script evaluation failed: " ++ cause.message
  | signatureDecode reason => "Signature decode error: " ++ reason.message
  | invalidInputIndex index => s!"Invalid input index: {index}"
  | outOfRange position length =>
    s!"index out of bounds: the len is {length} but the index is {position}"
  | policy => "Configuration error"

/-- A failure to decode wire bytes. -/
def isDecodeError : Error → Bool
  | decode _ | malformedBlock .. => true
  | _ => false

end Error

end TokenLedger
