import TokenLedger.Flags
import TokenLedger.Text.Characters

/-!
# Flags in words

A set of flags is written as the names of its rules in the order of their bits, with bars between
them; the bits without a rule come last, as one hexadecimal number. Blanks around the parts mean
nothing, and neither does their order. No flags are the empty text.

Stands for the text form that the package `bitflags`, which is not part of the modelled sources,
gives to `VerifyFlags`. Results on policies rest on one fact about it, `ofText?_toText`.
-/

namespace TokenLedger.Flags

/-- The bits that belong to no rule. -/
def unnamed (flags : Flags) : UInt32 := flags.bits &&& ~~~(ofList Flag.all).bits

/-- The parts of the text of a set. -/
def parts (flags : Flags) : List (List Char) :=
  let names := (Flag.all.filter flags.has).map (·.name.toList)
  if flags.unnamed = 0 then names
  else names ++ ['0' :: 'x' :: Text.hexDigits flags.unnamed.toNat]

def toText (flags : Flags) : List Char := [' ', '|', ' '].intercalate flags.parts

/-- The bits of a hexadecimal number, which may bear a plus sign. -/
def ofHex? (text : List Char) : Option Flags := do
  let digits :=
    match text with
    | '+' :: digits => digits
    | digits => digits
  let bits ← Text.ofHex? digits
  if bits < UInt32.size then some ⟨UInt32.ofNat bits⟩ else Option.none

/-- The flags that one part of a text stands for. -/
def ofPart? (part : List Char) : Option Flags :=
  match part with
  | '0' :: 'x' :: digits => ofHex? digits
  | _ => (Flag.ofName? (String.ofList part)).map fun flag => ⟨flag.mask⟩

def ofText? (text : List Char) : Option Flags :=
  if text.all Text.isBlank then some none
  else do
    let parts ← (text.splitOn '|').mapM fun part => ofPart? (Text.trim part)
    return parts.foldl union none

end TokenLedger.Flags
