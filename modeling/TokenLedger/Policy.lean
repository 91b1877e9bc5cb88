import TokenLedger.Flags.Text
import TokenLedger.Json.Parser
import TokenLedger.Json.Record
import TokenLedger.Spend

/-!
# Policies

What a node chooses for itself: how strictly it reads the wire, and which rules it enforces on
spends when the caller does not say. Limits of execution are no matter of choice. A policy is
written in JSON, as an object of two records, one for the codec and one for scripts. A field that
is left out has its default.

Embeds `CodecConfig`, `ScriptConfig` and `ConsensusConfig` with `from_json` and `to_json`
(`config`), and `TangleConsensus::verify_spend`.
-/

namespace TokenLedger

structure Policy where
  codec : CodecPolicy := {}
  flags : Flags := .standard
  deriving DecidableEq, Repr

namespace Policy

/-- Authorizes an input to spend an output under the rules of the policy. -/
def verifyInput (policy : Policy) (tx : Transaction) (inputIndex : Nat) (lockingProgram : Bytes) :
    Except Error Unit :=
  Spend.verifyInput tx inputIndex lockingProgram policy.flags

/-! ### Field names -/

def codecField : List Char := "codec".toList
def scriptField : List Char := "script".toList
def strictnessField : List Char := "varint_strictness".toList
def maximumCountField : List Char := "max_declared_count".toList
def flagsField : List Char := "verify_flags".toList

def strictnessName : Strictness → List Char
  | .lenient => "lenient".toList
  | .strict => "strict".toList

/-! ### Writing -/

def codecJson (codec : CodecPolicy) : Json :=
  .object [(strictnessField, .string (strictnessName codec.strictness)),
    (maximumCountField, .number (Text.decimalDigits codec.maximumCount.toNat))]

def scriptJson (flags : Flags) : Json := .object [(flagsField, .string flags.toText)]

def toJson (policy : Policy) : Json :=
  .object [(codecField, codecJson policy.codec), (scriptField, scriptJson policy.flags)]

def toText (policy : Policy) : String := String.ofList (policy.toJson.render 0)

/-! ### Reading -/

def strictness? (json : Json) : Option Strictness := do
  let name ← json.choice?
  [Strictness.lenient, .strict].find? fun strictness => strictnessName strictness == name

def codec? (json : Json) : Option CodecPolicy := do
  let default : CodecPolicy := {}
  let record ← json.record? [strictnessField, maximumCountField]
  return {
    strictness := ← record.field? strictnessField default.strictness strictness?
    maximumCount := ← record.field? maximumCountField default.maximumCount Json.uint64? }

def flags? (json : Json) : Option Flags := do
  let record ← json.record? [flagsField]
  record.field? flagsField .standard fun value => value.text?.bind Flags.ofText?

def ofJson? (json : Json) : Option Policy := do
  let default : Policy := {}
  let record ← json.record? [codecField, scriptField]
  return {
    codec := ← record.field? codecField default.codec codec?
    flags := ← record.field? scriptField default.flags flags? }

def ofText (text : String) : Except Error Policy :=
  match (Json.parse? text.toList).bind ofJson? with
  | some policy => .ok policy
  | none => .error .policy

end Policy

end TokenLedger
