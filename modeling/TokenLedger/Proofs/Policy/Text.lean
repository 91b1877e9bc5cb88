import Mathlib
import TokenLedger.Policy
import TokenLedger.Proofs.Flags.Text
import TokenLedger.Proofs.Json.Record

/-!
# Policies are read back from JSON

A policy is read back from its text. From a text that lacks some of its fields or sections, however
it is laid out and in whatever order its fields stand, the same policy is read with those fields at
their defaults.
-/

namespace TokenLedger

open Json

namespace Policy

/-- The policy with the fields of some names at their defaults, and with a section also the fields
in it. -/
def withDefaults (policy : Policy) (omitted : List Literal) : Policy where
  codec := {
    strictness :=
      if codecField ∈ omitted ∨ strictnessField ∈ omitted then .lenient
      else policy.codec.strictness
    maximumCount :=
      if codecField ∈ omitted ∨ maximumCountField ∈ omitted then 1000000
      else policy.codec.maximumCount }
  flags := if scriptField ∈ omitted ∨ flagsField ∈ omitted then .standard else policy.flags

/-- The value is a policy, of which the fields and sections of some names are left out. -/
def IsWrittenWithout (policy : Policy) (omitted : List Literal) (json : Json) : Prop :=
  ∃ codec script,
    codec.LacksOnly omitted (codecJson policy.codec) ∧
    script.LacksOnly omitted (scriptJson policy.flags) ∧
    json.LacksOnly omitted (.object [(codecField, codec), (scriptField, script)])

theorem isWrittenWithout_nil (policy : Policy) : policy.IsWrittenWithout [] policy.toJson :=
  ⟨_, _, lacksOnly_nil _, lacksOnly_nil _, lacksOnly_nil _⟩

theorem withDefaults_nil (policy : Policy) : policy.withDefaults [] = policy := by
  simp [withDefaults]

/-! ### The text of a policy -/

theorem isPlain_strictnessName (strictness : Strictness) :
    (strictnessName strictness).all isPlain = true := by
  cases strictness <;> decide

theorem isPlain_flags_toText (flags : Flags) : flags.toText.all isPlain = true := by
  rw [List.all_eq_true]
  intro c mem
  rcases Flags.char_of_mem_toText mem with rfl | rfl | word
  · decide
  · decide
  · have code := Text.code_of_isWordChar word
    rw [isPlain_iff]
    refine ⟨?_, ?_, ?_⟩
    · rintro rfl
      revert code
      decide
    · rintro rfl
      revert code
      decide
    · intro control
      have below : c.toNat < 32 := control
      omega

theorem isWritten_codecJson (codec : CodecPolicy) : IsWritten (codecJson codec) := by
  have strictness := isText_of_all_isPlain (isPlain_strictnessName codec.strictness)
  have count := isNumber_decimalDigits codec.maximumCount.toNat
  exact .object_cons (by decide) (.string strictness)
    (.object_cons (by decide) (.number count) .object_nil)

theorem isWritten_scriptJson (flags : Flags) : IsWritten (scriptJson flags) :=
  .object_cons (by decide) (.string (isText_of_all_isPlain (isPlain_flags_toText flags)))
    .object_nil

theorem IsWrittenWithout.isWritten {policy : Policy} {omitted : List Literal} {json : Json}
    (without : policy.IsWrittenWithout omitted json) : IsWritten json := by
  obtain ⟨codec, script, codec_lacks, script_lacks, lacks⟩ := without
  have codec_written := codec_lacks.isWritten (isWritten_codecJson _)
  have script_written := script_lacks.isWritten (isWritten_scriptJson _)
  exact lacks.isWritten
    (.object_cons (by decide) codec_written (.object_cons (by decide) script_written .object_nil))

/-! ### Reading its fields -/

theorem strictness?_string (strictness : Strictness) :
    strictness? (.string (strictnessName strictness)) = some strictness := by
  have name := unescape?_of_all_isPlain (isPlain_strictnessName strictness)
  rw [strictness?, choice?, text?, name]
  · cases strictness <;> rfl
  · rintro _ ⟨⟩

theorem uint64?_number (n : UInt64) :
    uint64? (.number (Text.decimalDigits n.toNat)) = some n := by
  simp [uint64?, Text.ofDecimal?_decimalDigits, UInt64.toNat_lt_size]

theorem ofText?_string (flags : Flags) :
    (text? (.string flags.toText)).bind Flags.ofText? = some flags := by
  rw [text?, unescape?_of_all_isPlain (isPlain_flags_toText flags), Option.bind_some,
    flags.ofText?_toText]

/-! ### Reading its sections -/

theorem codec?_of_lacksOnly {codec : CodecPolicy} {omitted : List Literal} {json : Json}
    (lacks : json.LacksOnly omitted (codecJson codec)) :
    codec? json = some {
      strictness := if strictnessField ∈ omitted then .lenient else codec.strictness
      maximumCount := if maximumCountField ∈ omitted then 1000000 else codec.maximumCount } := by
  obtain ⟨record, read, field⟩ :=
    lacks.record? [strictnessField, maximumCountField] rfl (by decide) (by decide)
  have strictness := field strictnessField .lenient (by simp) (strictness?_string codec.strictness)
  have maximumCount := field maximumCountField 1000000 (by simp) (uint64?_number codec.maximumCount)
  rw [codec?, read]
  simp [strictness, maximumCount]

theorem flags?_of_lacksOnly {flags : Flags} {omitted : List Literal} {json : Json}
    (lacks : json.LacksOnly omitted (scriptJson flags)) :
    flags? json = some (if flagsField ∈ omitted then .standard else flags) := by
  obtain ⟨record, read, field⟩ := lacks.record? [flagsField] rfl (by decide) (by decide)
  rw [flags?, read]
  exact field flagsField Flags.standard List.mem_cons_self (ofText?_string flags)

theorem IsWrittenWithout.ofJson? {policy : Policy} {omitted : List Literal} {json : Json}
    (without : policy.IsWrittenWithout omitted json) :
    ofJson? json = some (policy.withDefaults omitted) := by
  obtain ⟨codec, script, codec_lacks, script_lacks, lacks⟩ := without
  obtain ⟨record, read, field⟩ :=
    lacks.record? [codecField, scriptField] rfl (by decide) (by decide)
  have codec_read := field codecField {} (by simp) (codec?_of_lacksOnly codec_lacks)
  have script_read := field scriptField .standard (by simp) (flags?_of_lacksOnly script_lacks)
  rw [Policy.ofJson?, read]
  simp only [Option.bind_eq_bind, Option.bind_some, codec_read, script_read]
  by_cases codec_out : codecField ∈ omitted <;> by_cases script_out : scriptField ∈ omitted <;>
    simp [withDefaults, codec_out, script_out]

/-- Whatever text a policy is written as, it is read with what is left out at its defaults. -/
theorem IsWrittenWithout.ofText {policy : Policy} {omitted : List Literal} {json : Json}
    (without : policy.IsWrittenWithout omitted json) {text : String}
    (parsed : parse? text.toList = some json) :
    ofText text = .ok (policy.withDefaults omitted) := by
  rw [Policy.ofText, parsed, Option.bind_some, without.ofJson?]

/-- A policy is read back from its text. Where fields or sections of it are left out, from its text
and from every other text of the same object, it is read with those at their defaults. -/
theorem fields_read_back_or_default (policy : Policy) :
    Policy.ofText policy.toText = .ok policy ∧
    ∀ (omitted : List Literal) (json : Json), policy.IsWrittenWithout omitted json →
      Policy.ofText (String.ofList (json.render 0)) = .ok (policy.withDefaults omitted) ∧
      ∀ text : String, parse? text.toList = some json →
        Policy.ofText text = .ok (policy.withDefaults omitted) := by
  have rendered {omitted : List Literal} {json : Json}
      (without : policy.IsWrittenWithout omitted json) :
      Policy.ofText (String.ofList (json.render 0)) = .ok (policy.withDefaults omitted) := by
    apply without.ofText
    rw [String.toList_ofList]
    exact without.isWritten.parse?_render 0
  refine ⟨?_, fun omitted json without => ⟨rendered without, fun text => without.ofText⟩⟩
  rw [toText, rendered policy.isWrittenWithout_nil, withDefaults_nil]

/-- The sections are in the other order, and each lacks a field. -/
theorem fields_read_back_or_default_reordered :
    let policy : Policy := { codec := { strictness := .strict, maximumCount := 2 }, flags := .none }
    let json : Json := .object [(scriptField, .object []),
      (codecField, .object [(maximumCountField, .number ['2'])])]
    let text := "\x7b\"script\":\x7b\x7d,\"codec\":\x7b\"max_declared_count\": 2\x7d\x7d"
    policy.IsWrittenWithout [strictnessField, flagsField] json ∧
      parse? text.toList = some json ∧
      Policy.ofText text = .ok {
        codec := { strictness := .lenient, maximumCount := 2 }
        flags := .ofList [.scriptHash, .nullDummy, .checkLockTime] } := by
  intro policy json text
  have digits : Text.decimalDigits 2 = ['2'] := by decide
  have codec : LacksOnly (.object [(maximumCountField, .number ['2'])])
      [strictnessField, flagsField] (codecJson policy.codec) := by
    rw [← digits]
    exact ⟨_, _, rfl, rfl, .refl _⟩
  have script : LacksOnly (.object []) [strictnessField, flagsField] (scriptJson policy.flags) :=
    ⟨_, _, rfl, rfl, .refl _⟩
  have without : policy.IsWrittenWithout [strictnessField, flagsField] json :=
    ⟨_, _, codec, script, _, _, rfl, rfl, .swap _ _ _⟩
  have parsed : parse? text.toList = some json := by cbv
  refine ⟨without, parsed, ?_⟩
  rw [((fields_read_back_or_default policy).2 _ json without).2 text parsed]
  rfl

end Policy

end TokenLedger
