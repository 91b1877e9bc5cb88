import TokenLedger.Bytes

/-!
# Opcodes

The byte that starts each chunk of a script, its name, and the small numbers that single bytes
push.

Embeds `is_disabled`, `name`, `from_name`, `decode_from_op_n` and `encode_to_op_n` (`opcodes`).
-/

namespace TokenLedger.Opcode

def empty : UInt8 := 0x00
def pushData1 : UInt8 := 0x4c
def pushData2 : UInt8 := 0x4d
def pushData4 : UInt8 := 0x4e
def minusOne : UInt8 := 0x4f
def one : UInt8 := 0x51
def sixteen : UInt8 := 0x60
def ifTrue : UInt8 := 0x63
def verIf : UInt8 := 0x65
def verNotIf : UInt8 := 0x66
def otherwise : UInt8 := 0x67
def endIf : UInt8 := 0x68
def fail : UInt8 := 0x6a
def depth : UInt8 := 0x74
def drop : UInt8 := 0x75
def dup : UInt8 := 0x76
def equal : UInt8 := 0x87
def equalVerify : UInt8 := 0x88
def hash160 : UInt8 := 0xa9
def codeSeparator : UInt8 := 0xab
def checkSig : UInt8 := 0xac
def checkSigVerify : UInt8 := 0xad
def checkMultiSig : UInt8 := 0xae
def checkMultiSigVerify : UInt8 := 0xaf
def nop2 : UInt8 := 0xb1
/-- The second reserved no-op, put to use. -/
def checkLockTimeVerify : UInt8 := nop2
def invalid : UInt8 := 0xff

/-- The names of the codes from `pushData1` on, in order. -/
def names : List String :=
  ["PUSHDATA1", "PUSHDATA2", "PUSHDATA4", "1NEGATE", "RESERVED",
   "1", "2", "3", "4", "5", "6", "7", "8", "9", "10", "11", "12", "13", "14", "15", "16",
   "NOP", "VER", "IF", "NOTIF", "VERIF", "VERNOTIF", "ELSE", "ENDIF", "VERIFY", "RETURN",
   "TOALTSTACK", "FROMALTSTACK", "2DROP", "2DUP", "3DUP", "2OVER", "2ROT", "2SWAP", "IFDUP",
   "DEPTH", "DROP", "DUP", "NIP", "OVER", "PICK", "ROLL", "ROT", "SWAP", "TUCK",
   "CAT", "SUBSTR", "LEFT", "RIGHT", "SIZE",
   "INVERT", "AND", "OR", "XOR", "EQUAL", "EQUALVERIFY", "RESERVED1", "RESERVED2",
   "1ADD", "1SUB", "2MUL", "2DIV", "NEGATE", "ABS", "NOT", "0NOTEQUAL",
   "ADD", "SUB", "MUL", "DIV", "MOD", "LSHIFT", "RSHIFT", "BOOLAND", "BOOLOR",
   "NUMEQUAL", "NUMEQUALVERIFY", "NUMNOTEQUAL", "LESSTHAN", "GREATERTHAN",
   "LESSTHANOREQUAL", "GREATERTHANOREQUAL", "MIN", "MAX", "WITHIN",
   "RIPEMD160", "SHA1", "SHA256", "HASH160", "HASH256", "CODESEPARATOR",
   "CHECKSIG", "CHECKSIGVERIFY", "CHECKMULTISIG", "CHECKMULTISIGVERIFY",
   "NOP1", "CHECKLOCKTIMEVERIFY", "NOP3", "NOP4", "NOP5", "NOP6", "NOP7", "NOP8", "NOP9", "NOP10"]

/-- The name of a code, if it has one. -/
def name? (code : UInt8) : Option String :=
  if code = empty then some "0"
  else if code = invalid then some "INVALIDOPCODE"
  else if code < pushData1 then none
  else names[code.toNat - pushData1.toNat]?

/-- The name without the mark that all opcodes may bear. -/
def bareName (name : String) : String :=
  match name.toList with
  | 'O' :: 'P' :: '_' :: bare => String.ofList bare
  | _ => name

/-- The code of a name, which may be one of the second names too. -/
def ofName? (name : String) : Option UInt8 :=
  match bareName name with
  | "FALSE" => some empty
  | "TRUE" => some one
  | "NOP2" => some nop2
  | bare => ((List.range 256).map UInt8.ofNat).find? fun code => name? code == some bare

/-- A script that holds one of these fails, wherever it stands. -/
def isDisabled (code : UInt8) : Bool :=
  -- CAT to RIGHT, INVERT to XOR, 2MUL and 2DIV, MUL to RSHIFT
  (0x7e ≤ code && code ≤ 0x81) || (0x83 ≤ code && code ≤ 0x86)
    || code == 0x8d || code == 0x8e || (0x95 ≤ code && code ≤ 0x99)

/-- The number that a code stands for, from -1 to 16. -/
def number? (code : UInt8) : Option Int :=
  if code = empty then some 0
  else if code = minusOne then some (-1)
  else if one ≤ code ∧ code ≤ sixteen then some ((code - one).toNat + 1)
  else none

/-- The code that stands for a number from -1 to 16. -/
def ofNumber? (n : Int) : Option UInt8 :=
  if n = 0 then some empty
  else if n = -1 then some minusOne
  else if 1 ≤ n ∧ n ≤ 16 then some (one + UInt8.ofNat (n.toNat - 1))
  else none

end TokenLedger.Opcode
