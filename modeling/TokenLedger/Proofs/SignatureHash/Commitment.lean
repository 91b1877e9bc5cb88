import TokenLedger.Proofs.Script.Layout
import TokenLedger.Proofs.SignatureHash.View

/-!
# What a signature commits to

The bytes that are hashed for a signature are the same exactly when the hash types are and the
parts of the transactions that these cover. Unlocking scripts are never among them; a signature of
no outputs leaves the outputs open, and one that anyone may add to the other inputs.
-/

namespace TokenLedger.SignatureHash

/-- What a signature commits to beside its hash type. -/
structure Commitment where
  version : UInt32
  inputs : List Input
  outputs : List (Option Output)
  lockTime : UInt32
  memo : Option String
  dataClassName : Option String
  data : Option Bytes
  dataSignature : Option Bytes
  deriving DecidableEq

def Commitment.toView (c : Commitment) (hashType : HashType) : SignedView where
  version := c.version
  inputs := c.inputs
  outputs := c.outputs
  lockTime := c.lockTime
  memo := c.memo
  dataClassName := c.dataClassName
  data := c.data
  dataSignature := c.dataSignature
  hashType := hashType

/-- A signature of an input that is there, for a script that was parsed. A signature of a single
output has one to sign. -/
structure Signing where
  tx : Transaction
  index : Nat
  script : Script
  hashType : HashType
  inRange : index < tx.inputs.length
  hasOutput : hashType.mode = .single → index < tx.outputs.length
  parsed : Script.parse script.program = .ok script
  sized : tx.Sized
  programSized : script.program.length < 2 ^ 64
  tail : TailFits tx.memo tx.dataClassName tx.data tx.dataSignature

namespace Signing

/-- The encodings of all chunks but the separators. -/
def scriptWithoutSeparators (s : Signing) : Bytes :=
  (s.script.chunks.filter (·.code != Opcode.codeSeparator)).flatMap (·.chunk.encode)

def signedInput (s : Signing) : Input :=
  { s.tx.inputs.get ⟨s.index, s.inRange⟩ with unlockingScript := s.scriptWithoutSeparators }

/-- Only a signature of all outputs holds on to the sequence numbers of other inputs. -/
def otherInput (mode : HashMode) (input : Input) : Input :=
  { input with
    unlockingScript := []
    sequence := if mode = .all then input.sequence else 0 }

def commitment (s : Signing) : Commitment where
  version := s.tx.version
  inputs :=
    if s.hashType.anyoneCanPay then [s.signedInput]
    else (s.tx.inputs.map (otherInput s.hashType.mode)).set s.index s.signedInput
  outputs :=
    match s.hashType.mode with
    | .all => s.tx.outputs.map some
    | .none => []
    | .single => List.replicate s.index none ++ [s.tx.outputs[s.index]?]
  lockTime := s.tx.lockTime
  memo := s.tx.memo
  dataClassName := s.tx.dataClassName
  data := s.tx.data
  dataSignature := s.tx.dataSignature

end Signing

/-! ### The view is the commitment -/

theorem signedOutputs?_eq (s : Signing) :
    SignedView.signedOutputs? s.tx.outputs s.index s.hashType.mode =
      some s.commitment.outputs := by
  have there := s.hasOutput
  simp only [SignedView.signedOutputs?, Signing.commitment]
  cases mode : s.hashType.mode with
  | all => rfl
  | none => rfl
  | single => simp [there mode]

/-- An update at one index is a replacement in the list of all others. -/
theorem mapIdx_eq_set {α β : Type} (f g : α → β) {as : List α} {index : Nat}
    (inRange : index < as.length) :
    as.mapIdx (fun i a => if i = index then f a else g a) =
      (as.map g).set index (f (as.get ⟨index, inRange⟩)) := by
  refine List.ext_getElem? fun i => ?_
  rw [List.getElem?_mapIdx, List.getElem?_set, List.getElem?_map, List.length_map]
  by_cases here : index = i
  · subst here
    simp [inRange]
  · have elsewhere : ¬ i = index := fun same => here same.symm
    simp [here, elsewhere]

/-- The first element from an index on is the one at the index, if there is one. -/
theorem take_one_drop {α : Type} (as : List α) (index : Nat) :
    (as.drop index).take 1 = as[index]?.toList := by
  rw [List.take_one, List.head?_drop]

theorem signedInputs_eq (s : Signing) :
    SignedView.signedInputs s.tx.inputs s.index
      (s.script.removeCode Opcode.codeSeparator).program s.hashType = s.commitment.inputs := by
  simp only [SignedView.signedInputs, Signing.commitment, Script.program_removeCode s.parsed,
    mapIdx_eq_set _ _ s.inRange, take_one_drop]
  cases s.hashType.anyoneCanPay with
  | false => rfl
  | true => simp [s.inRange, Signing.signedInput, Signing.scriptWithoutSeparators]

theorem ofTransaction?_eq (s : Signing) :
    SignedView.ofTransaction? s.tx s.index s.script s.hashType =
      some (s.commitment.toView s.hashType) := by
  rw [SignedView.ofTransaction?, signedOutputs?_eq, signedInputs_eq]
  rfl

theorem sized_signedInput (s : Signing) : s.signedInput.Sized := by
  have shorter := Script.length_program_removeCode_le s.parsed Opcode.codeSeparator
  rw [Script.program_removeCode s.parsed] at shorter
  exact Nat.lt_of_le_of_lt shorter s.programSized

theorem sized_commitment (s : Signing) : (s.commitment.toView s.hashType).Sized where
  inputCount := by
    simp only [Commitment.toView, Signing.commitment]
    split
    next => simp
    next =>
      rw [List.length_set, List.length_map]
      exact s.sized.inputCount
  outputCount := by
    have bound := s.sized.outputCount
    have there := s.hasOutput
    simp only [Commitment.toView, Signing.commitment]
    cases mode : s.hashType.mode with
    | all => simpa using bound
    | none => simp
    | single =>
      have inRange := there mode
      simp only [List.length_append, List.length_replicate, List.length_singleton]
      omega
  inputs input mem := by
    simp only [Commitment.toView, Signing.commitment] at mem
    split at mem
    next =>
      obtain rfl := List.mem_singleton.mp mem
      exact sized_signedInput s
    next =>
      rcases List.mem_or_eq_of_mem_set mem with other | rfl
      · obtain ⟨i, _, rfl⟩ := List.mem_map.mp other
        simp [Signing.otherInput, Input.Sized]
      · exact sized_signedInput s
  outputs place mem output here := by
    obtain rfl := Option.mem_def.mp here
    simp only [Commitment.toView, Signing.commitment] at mem
    cases mode : s.hashType.mode with
    | all =>
      rw [mode] at mem
      obtain ⟨_, there, same⟩ := List.mem_map.mp mem
      cases same
      exact s.sized.outputs _ there
    | none =>
      rw [mode] at mem
      cases mem
    | single =>
      rw [mode] at mem
      rcases List.mem_append.mp mem with blank | signed
      · cases List.eq_of_mem_replicate blank
      · exact s.sized.outputs _ (List.mem_of_getElem? (List.mem_singleton.mp signed).symm)
  tail := s.tail

theorem toView_inj {c c' : Commitment} {t t' : HashType} :
    c.toView t = c'.toView t' ↔ t = t' ∧ c = c' := by
  cases c
  cases c'
  simp only [Commitment.toView, SignedView.mk.injEq, Commitment.mk.injEq]
  constructor
  · rintro ⟨version, inputs, outputs, lockTime, memo, className, data, signature, type⟩
    exact ⟨type, version, inputs, outputs, lockTime, memo, className, data, signature⟩
  · rintro ⟨type, version, inputs, outputs, lockTime, memo, className, data, signature⟩
    exact ⟨version, inputs, outputs, lockTime, memo, className, data, signature, type⟩

/-! ### What is left open -/

theorem digest_congr {tx tx' : Transaction} {index : Nat} {script : Script} {hashType : HashType}
    (range : tx.inputs.length ≤ index ↔ tx'.inputs.length ≤ index)
    (views : SignedView.ofTransaction? tx index script hashType =
      SignedView.ofTransaction? tx' index script hashType) :
    digest tx index script hashType = digest tx' index script hashType := by
  simp only [digest, range, views]

/-- A map that looks at nothing but a key of each element does not tell lists of the same keys
apart. -/
theorem mapIdx_eq_of_keys {α β κ : Type} {f : Nat → α → β} {key : α → κ} {as as' : List α}
    (same : as.map key = as'.map key)
    (only : ∀ i a a', key a = key a' → f i a = f i a') : as.mapIdx f = as'.mapIdx f := by
  refine List.ext_getElem? fun i => ?_
  have keys : (as.map key)[i]? = (as'.map key)[i]? := by rw [same]
  rw [List.getElem?_mapIdx, List.getElem?_mapIdx]
  rw [List.getElem?_map, List.getElem?_map] at keys
  cases there : as[i]? with
  | none =>
    rw [there] at keys
    rw [Option.map_eq_none_iff.mp keys.symm]
  | some a =>
    rw [there] at keys
    obtain ⟨a', there', keys⟩ := Option.map_eq_some_iff.mp keys.symm
    rw [there']
    exact congrArg some (only i a a' keys.symm)

/-- An input without its unlocking script. -/
def outline (input : Input) : OutPoint × UInt32 := (input.prevout, input.sequence)

theorem signedInputs_of_outlines {inputs inputs' : List Input}
    (same : inputs.map outline = inputs'.map outline) (index : Nat) (script : Bytes)
    (hashType : HashType) :
    SignedView.signedInputs inputs index script hashType =
      SignedView.signedInputs inputs' index script hashType := by
  simp only [SignedView.signedInputs]
  rw [mapIdx_eq_of_keys same]
  intro i input input' keys
  obtain ⟨prevout, sequence⟩ := Prod.mk.inj keys
  simp only [prevout, sequence]

theorem signedInputs_of_anyoneCanPay {hashType : HashType} (shared : hashType.anyoneCanPay = true)
    (inputs : List Input) (index : Nat) (script : Bytes) :
    SignedView.signedInputs inputs index script hashType =
      (inputs[index]?.map fun input => { input with unlockingScript := script }).toList := by
  simp only [SignedView.signedInputs, shared, if_true, take_one_drop, List.getElem?_mapIdx]

/-- No digest depends on an unlocking script. -/
theorem digest_of_outlines {tx : Transaction} {inputs : List Input}
    (same : inputs.map outline = tx.inputs.map outline) (index : Nat) (script : Script)
    (hashType : HashType) :
    digest { tx with inputs } index script hashType = digest tx index script hashType := by
  have lengths : inputs.length = tx.inputs.length := by
    simpa using congrArg List.length same
  refine digest_congr (by rw [lengths]) ?_
  simp only [SignedView.ofTransaction?, signedInputs_of_outlines same]

/-- The digest of a signature of no outputs does not depend on them. -/
theorem digest_of_noOutputs {hashType : HashType} (mode : hashType.mode = .none)
    (tx : Transaction) (outputs : List Output) (index : Nat) (script : Script) :
    digest { tx with outputs } index script hashType = digest tx index script hashType := by
  refine digest_congr Iff.rfl ?_
  simp only [SignedView.ofTransaction?, SignedView.signedOutputs?, mode]

/-- The digest of a signature that leaves the other inputs open depends on its own input only. -/
theorem digest_of_anyoneCanPay {hashType : HashType} (shared : hashType.anyoneCanPay = true)
    {tx : Transaction} {inputs : List Input} {index : Nat}
    (own : inputs[index]? = tx.inputs[index]?) (script : Script) :
    digest { tx with inputs } index script hashType = digest tx index script hashType := by
  refine digest_congr ?_ ?_
  · rw [← List.getElem?_eq_none_iff, ← List.getElem?_eq_none_iff, own]
  · simp only [SignedView.ofTransaction?, signedInputs_of_anyoneCanPay shared, own]

/-! ### What is committed to -/

/-- Two signatures hash the same bytes exactly when they have the same hash type and commit to the
same. Whatever the scripts and lengths are, the digest depends on no unlocking script, on no output
where none is signed, and on no other input where these are left open. -/
theorem digest_commits_to_view :
    (∀ s s' : Signing, ∃ bytes bytes',
      preimage? s.tx s.index s.script s.hashType = some bytes ∧
      preimage? s'.tx s'.index s'.script s'.hashType = some bytes' ∧
      digest s.tx s.index s.script s.hashType = .ok (Hash.sha256d bytes) ∧
      digest s'.tx s'.index s'.script s'.hashType = .ok (Hash.sha256d bytes') ∧
      (bytes = bytes' ↔ s.hashType = s'.hashType ∧ s.commitment = s'.commitment)) ∧
    ∀ (tx : Transaction) (index : Nat) (script : Script) (hashType : HashType),
      (∀ inputs : List Input,
        inputs.map (fun i => (i.prevout, i.sequence)) =
          tx.inputs.map (fun i => (i.prevout, i.sequence)) →
        digest { tx with inputs } index script hashType = digest tx index script hashType) ∧
      (hashType.mode = .none → ∀ outputs : List Output,
        digest { tx with outputs } index script hashType = digest tx index script hashType) ∧
      (hashType.anyoneCanPay = true → ∀ inputs : List Input, inputs[index]? = tx.inputs[index]? →
        digest { tx with inputs } index script hashType = digest tx index script hashType) := by
  constructor
  · intro s s'
    have hashed (s : Signing) : preimage? s.tx s.index s.script s.hashType =
        some (s.commitment.toView s.hashType).encode := by
      rw [preimage?, ofTransaction?_eq]
      rfl
    refine ⟨_, _, hashed s, hashed s', digest_of_preimage s.inRange (hashed s),
      digest_of_preimage s'.inRange (hashed s'), ?_⟩
    rw [← toView_inj]
    constructor
    · exact SignedView.encode_selfDelimiting.injective (sized_commitment s) (sized_commitment s')
    · intro views
      rw [views]
  · intro tx index script hashType
    exact ⟨fun _ same => digest_of_outlines same index script hashType,
      fun mode outputs => digest_of_noOutputs mode tx outputs index script,
      fun shared _ own => digest_of_anyoneCanPay shared own script⟩

/-- Two inputs and two outputs. -/
def pairPayment : Transaction where
  version := 2
  inputs := [⟨⟨FixedBytes.zero 32, 0⟩, [0x51], 5⟩, ⟨⟨FixedBytes.zero 32, 1⟩, [], 6⟩]
  outputs := [⟨1, [], []⟩, ⟨2, [], [0x51]⟩]
  lockTime := 0
  memo := none
  dataClassName := none
  data := none
  dataSignature := none

theorem sized_pairPayment : pairPayment.Sized := by
  refine ⟨by decide, by decide, ?_, ?_⟩
  · simp [pairPayment, Input.Sized]
  · have first : Amount.encode 1 = [1] := by cbv
    have second : Amount.encode 2 = [2] := by cbv
    intro output mem
    simp only [pairPayment, List.mem_cons, List.not_mem_nil, or_false] at mem
    rcases mem with rfl | rfl
    · exact ⟨by rw [first]; decide, by decide, by decide⟩
    · exact ⟨by rw [second]; decide, by decide, by decide⟩

/-- A signature of the second input of a pair. -/
def pairSigning (script : Script) (hashType : HashType)
    (parsed : Script.parse script.program = .ok script) (short : script.program.length < 2 ^ 64) :
    Signing where
  tx := pairPayment
  index := 1
  script := script
  hashType := hashType
  inRange := by decide
  hasOutput _ := by decide
  parsed := parsed
  sized := sized_pairPayment
  programSized := short
  tail := by constructor <;> simp [pairPayment, OptionalTextFits, OptionalBytesFit]

theorem digest_commits_to_view_pairPayment :
    let plain := Script.assemble [.op 0x51]
    let separated := Script.assemble [.op Opcode.codeSeparator, .op 0x51]
    let single : HashType := ⟨0x83⟩
    let noOutputs : HashType := ⟨0x82⟩
    noOutputs.mode = .none ∧ single.anyoneCanPay = true ∧
      preimage? pairPayment 1 plain single = preimage? pairPayment 1 separated single ∧
      preimage? pairPayment 1 plain single ≠ preimage? pairPayment 1 plain noOutputs ∧
      digest { pairPayment with outputs := [] } 1 plain noOutputs =
        digest pairPayment 1 plain noOutputs ∧
      digest { pairPayment with
          inputs := ⟨⟨FixedBytes.zero 32, 9⟩, [], 0⟩ :: pairPayment.inputs.drop 1 } 1 plain single =
        digest pairPayment 1 plain single := by
  intro plain separated single noOutputs
  have types : single ≠ noOutputs := by decide
  have mode : noOutputs.mode = .none := by decide
  have shared : single.anyoneCanPay = true := by decide
  have parsed : Script.parse plain.program = .ok plain := by cbv
  have parsed' : Script.parse separated.program = .ok separated := by cbv
  obtain ⟨commits, leavesOpen⟩ := digest_commits_to_view
  have same : preimage? pairPayment 1 plain single = preimage? pairPayment 1 separated single := by
    obtain ⟨_, _, hashed, hashed', -, -, equal⟩ :=
      commits (pairSigning plain single parsed (by decide))
        (pairSigning separated single parsed' (by decide))
    exact hashed.trans ((congrArg some (equal.mpr ⟨rfl, rfl⟩)).trans hashed'.symm)
  have different : preimage? pairPayment 1 plain single ≠
      preimage? pairPayment 1 plain noOutputs := by
    obtain ⟨_, _, hashed, hashed', -, -, equal⟩ :=
      commits (pairSigning plain single parsed (by decide))
        (pairSigning plain noOutputs parsed (by decide))
    intro hashes
    have bytes := hashed.symm.trans (hashes.trans hashed')
    exact types (equal.mp (Option.some.inj bytes)).1
  obtain ⟨-, outputs, -⟩ := leavesOpen pairPayment 1 plain noOutputs
  obtain ⟨-, -, inputs⟩ := leavesOpen pairPayment 1 plain single
  exact ⟨mode, shared, same, different, outputs mode [], inputs shared _ rfl⟩

end TokenLedger.SignatureHash
