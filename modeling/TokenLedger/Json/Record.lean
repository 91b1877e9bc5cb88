import TokenLedger.Json.Basic

/-!
# Records in JSON

A record is an object whose members are its fields; members with other keys mean nothing. It may
also be an array of its fields in their order, of which the last ones may be left out.

Stands for the readers of records and choices that the packages `serde` and `serde_json` derive,
which are not part of the modelled sources. Results on policies rest on one fact about them,
`LacksOnly.record?`.
-/

namespace TokenLedger.Json

/-- The fields of a record that are given. -/
abbrev Record := List (List Char × Json)

/-- Reads a record with the given field names. No field is given twice. -/
def record? (names : List (List Char)) : Json → Option Record
  | array values => if values.length ≤ names.length then some (names.zip values) else none
  | object members => do
    let members ← members.mapM fun (key, value) => (unescape? key).map fun key => (key, value)
    let fields := members.filter fun (key, _) => names.contains key
    guard (fields.map Prod.fst).Nodup
    return fields
  | _ => none

/-- Reads a field of a record, which has its default if it is not given. -/
def Record.field? {α : Type} (record : Record) (name : List Char) (default : α)
    (read? : Json → Option α) : Option α :=
  match record.lookup name with
  | none => some default
  | some value => read? value

def text? : Json → Option (List Char)
  | string literal => unescape? literal
  | _ => none

/-- A number without sign, fraction and exponent that fits 64 bits. -/
def uint64? : Json → Option UInt64
  | number literal => do
    let n ← Text.ofDecimal? literal
    if n < UInt64.size then some (UInt64.ofNat n) else none
  | _ => none

/-- The name of a choice, alone or as the key of a null. -/
def choice? : Json → Option (List Char)
  | object [(key, null)] => unescape? key
  | value => value.text?

end TokenLedger.Json
