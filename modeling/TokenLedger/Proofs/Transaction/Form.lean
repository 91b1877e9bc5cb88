import Mathlib.Data.List.Basic
import TokenLedger.Proofs.Amount
import TokenLedger.Proofs.Wire.Counted
import TokenLedger.Proofs.Wire.Optional
import TokenLedger.Transaction.Codec

/-!
# Wire forms of transactions

The wire leaves two things open: the width of every compact integer and the bytes of every amount.
A form is a transaction with these settled. Readers accept exactly the forms that their policy
allows, and the bytes of a form belong to no other.
-/

namespace TokenLedger

/-! ### Inputs -/

structure Input.Form where
  prevout : OutPoint
  unlockingScript : Counted UInt8
  sequence : UInt32

namespace Input.Form

def toInput (f : Form) : Input := ⟨f.prevout, f.unlockingScript.items, f.sequence⟩

def bytes (f : Form) : Bytes :=
  f.prevout.transaction.val ++ encodeUInt32 f.prevout.index ++ f.unlockingScript.string
    ++ encodeUInt32 f.sequence

def varInts (f : Form) : List VarInt := [f.unlockingScript.count]

theorem bytes_of_isMinimal {f : Form} (minimal : ∀ v ∈ f.varInts, v.isCanonical = true) :
    f.bytes = f.toInput.encode := by
  have script : f.unlockingScript.IsMinimal := minimal _ (by simp [varInts])
  rw [bytes, Counted.string_of_isMinimal script]
  rfl

theorem selfDelimiting : SelfDelimiting (fun _ => True) bytes := by
  rintro ⟨⟨hash, index⟩, script, sequence⟩ ⟨⟨hash', index'⟩, script', sequence'⟩ - - r s same
  simp only [bytes, List.append_assoc] at same
  obtain ⟨rfl, fromIndex⟩ := FixedBytes.selfDelimiting trivial trivial same
  obtain ⟨rfl, fromScript⟩ := encodeUInt32_selfDelimiting trivial trivial fromIndex
  obtain ⟨rfl, fromSequence⟩ := Counted.string_selfDelimiting trivial trivial fromScript
  obtain ⟨rfl, back⟩ := encodeUInt32_selfDelimiting trivial trivial fromSequence
  exact ⟨rfl, back⟩

end Input.Form

theorem Input.read_accepts (strictness : Strictness) :
    (Input.read strictness).Accepts fun bytes input =>
      ∃ f : Input.Form, (strictness = .strict → ∀ v ∈ f.varInts, v.isCanonical = true) ∧
        f.bytes = bytes ∧ f.toInput = input := by
  refine ((readFixed_accepts _ 32).bind fun transaction =>
    (readUInt32_accepts _).bind fun index =>
    (readVarBytes_accepts strictness _).bind fun unlockingScript =>
    (readUInt32_accepts _).bind fun sequence =>
    .pure (Input.mk ⟨transaction, index⟩ unlockingScript sequence)).congr ?_
  intro bytes input
  constructor
  · intro taken
    obtain ⟨_, transaction, _, rfl, fromIndex, rfl⟩ := taken
    obtain ⟨_, index, _, rfl, fromScript, rfl⟩ := fromIndex
    obtain ⟨_, _, _, ⟨script, minimal, rfl, rfl⟩, fromSequence, rfl⟩ := fromScript
    obtain ⟨_, sequence, _, rfl, ⟨rfl, rfl⟩, rfl⟩ := fromSequence
    refine ⟨⟨⟨transaction, index⟩, script, sequence⟩, ?_, ?_, rfl⟩
    · simpa [Input.Form.varInts, Counted.IsMinimal] using minimal
    · simp [Input.Form.bytes]
  · rintro ⟨⟨⟨transaction, index⟩, script, sequence⟩, minimal, rfl, rfl⟩
    refine ⟨_, transaction, _, rfl, ⟨_, index, _, rfl, ⟨_, _, _, ⟨script, ?_, rfl, rfl⟩,
      ⟨_, sequence, [], rfl, ⟨rfl, rfl⟩, rfl⟩, rfl⟩, rfl⟩, ?_⟩
    · simpa [Input.Form.varInts, Counted.IsMinimal] using minimal
    · simp [Input.Form.bytes]

/-! ### Outputs -/

structure Output.Form where
  amount : Counted UInt8
  tokenId : Counted UInt8
  lockingScript : Counted UInt8
  unsigned : Amount.IsUnsigned amount.items

namespace Output.Form

def toOutput (f : Form) : Output :=
  ⟨Bytes.ofBigEndian f.amount.items, f.tokenId.items, f.lockingScript.items⟩

def bytes (f : Form) : Bytes := f.amount.string ++ f.tokenId.string ++ f.lockingScript.string

def varInts (f : Form) : List VarInt :=
  [f.amount.count, f.tokenId.count, f.lockingScript.count]

/-- The bytes of the amount are the ones that are written. -/
def HasWrittenAmount (f : Form) : Prop := f.amount.items = Amount.encode f.toOutput.value

theorem bytes_of_isMinimal {f : Form} (minimal : ∀ v ∈ f.varInts, v.isCanonical = true)
    (written : f.HasWrittenAmount) : f.bytes = f.toOutput.encode := by
  have amount : f.amount.IsMinimal := minimal _ (by simp [varInts])
  have tokenId : f.tokenId.IsMinimal := minimal _ (by simp [varInts])
  have script : f.lockingScript.IsMinimal := minimal _ (by simp [varInts])
  rw [bytes, Counted.string_of_isMinimal amount, Counted.string_of_isMinimal tokenId,
    Counted.string_of_isMinimal script, written]
  rfl

theorem selfDelimiting : SelfDelimiting (fun _ => True) bytes := by
  rintro ⟨amount, tokenId, script, _⟩ ⟨amount', tokenId', script', _⟩ - - r s same
  simp only [bytes, List.append_assoc] at same
  obtain ⟨rfl, fromTokenId⟩ := Counted.string_selfDelimiting trivial trivial same
  obtain ⟨rfl, fromScript⟩ := Counted.string_selfDelimiting trivial trivial fromTokenId
  obtain ⟨rfl, back⟩ := Counted.string_selfDelimiting trivial trivial fromScript
  exact ⟨rfl, back⟩

end Output.Form

/-- A negative amount ends the reading, any other is handed on. -/
theorem Amount.decode_accepts {next : Nat → ReadM Output} {grammar : Nat → Grammar Output}
    (position : Nat) (valueBytes : Bytes)
    (accepts : ∀ value, (next value).Accepts (grammar value)) :
    ReadM.Accepts (match Amount.decode position valueBytes with
      | .ok value => pure value >>= next
      | .error e => throw e >>= next)
      fun bytes output => Amount.IsUnsigned valueBytes ∧
        grammar (Bytes.ofBigEndian valueBytes) bytes output := by
  split
  next value decoded =>
    obtain ⟨unsigned, rfl⟩ := Amount.decode_eq_ok_iff.mp decoded
    rw [pure_bind]
    exact (accepts _).congr fun bytes output => (and_iff_right unsigned).symm
  next e failed =>
    refine ((ReadM.Accepts.throw e).bind accepts).congr fun bytes output => ?_
    constructor
    · rintro ⟨_, _, _, impossible, _⟩
      exact impossible.elim
    · rintro ⟨unsigned, _⟩
      rw [Amount.decode_eq_ok_iff.mpr ⟨unsigned, rfl⟩] at failed
      cases failed

theorem Output.read_accepts (strictness : Strictness) :
    (Output.read strictness).Accepts fun bytes output =>
      ∃ f : Output.Form, (strictness = .strict → ∀ v ∈ f.varInts, v.isCanonical = true) ∧
        f.bytes = bytes ∧ f.toOutput = output := by
  refine ReadM.Accepts.bind_get fun start => ?_
  refine ((readVarBytes_accepts strictness _).bind fun valueBytes =>
    Amount.decode_accepts start.position valueBytes fun value =>
    (readVarBytes_accepts strictness _).bind fun tokenId =>
    (readVarBytes_accepts strictness _).bind fun lockingScript =>
    .pure (Output.mk value tokenId lockingScript)).congr ?_
  intro bytes output
  constructor
  · intro taken
    obtain ⟨_, _, _, ⟨value, minimal, rfl, rfl⟩, ⟨unsigned, fromTokenId⟩, rfl⟩ := taken
    obtain ⟨_, _, _, ⟨tokenId, minimal', rfl, rfl⟩, fromScript, rfl⟩ := fromTokenId
    obtain ⟨_, _, _, ⟨script, minimal'', rfl, rfl⟩, ⟨rfl, rfl⟩, rfl⟩ := fromScript
    refine ⟨⟨value, tokenId, script, unsigned⟩, fun strict => ?_, ?_, rfl⟩
    · simpa [Output.Form.varInts] using ⟨minimal strict, minimal' strict, minimal'' strict⟩
    · simp [Output.Form.bytes]
  · rintro ⟨⟨value, tokenId, script, unsigned⟩, minimal, rfl, rfl⟩
    have each : strictness = .strict →
        value.IsMinimal ∧ tokenId.IsMinimal ∧ script.IsMinimal := by
      simpa [Output.Form.varInts, Counted.IsMinimal] using minimal
    refine ⟨_, _, _, ⟨value, fun strict => (each strict).1, rfl, rfl⟩,
      ⟨unsigned, ⟨_, _, _, ⟨tokenId, fun strict => (each strict).2.1, rfl, rfl⟩,
        ⟨_, _, [], ⟨script, fun strict => (each strict).2.2, rfl, rfl⟩, ⟨rfl, rfl⟩, rfl⟩, rfl⟩⟩,
      ?_⟩
    simp [Output.Form.bytes]

theorem Output.read_needsByte (strictness : Strictness) : (Output.read strictness).NeedsByte :=
  .bind_get fun _ => ReadM.NeedsByte.bind (readVarInt_needsByte strictness _).bind

/-! ### Transactions -/

/-- The lengths of the optional fields fit 32 bits. -/
structure TailFits (memo dataClassName : Option String) (data dataSignature : Option Bytes) :
    Prop where
  memo : OptionalTextFits memo
  dataClassName : OptionalTextFits dataClassName
  data : OptionalBytesFit data
  dataSignature : OptionalBytesFit dataSignature

/-- The optional fields one behind the other, in the order of the wire. -/
theorem TailFits.delimits {memo memo' className className' : Option String}
    {data data' signature signature' : Option Bytes} (fits : TailFits memo className data signature)
    (fits' : TailFits memo' className' data' signature') {r s : Bytes}
    (same : encodeOptionalText memo ++ (encodeOptionalText className ++
        (encodeOptionalBytes data ++ (encodeOptionalBytes signature ++ r))) =
      encodeOptionalText memo' ++ (encodeOptionalText className' ++
        (encodeOptionalBytes data' ++ (encodeOptionalBytes signature' ++ s)))) :
    (memo = memo' ∧ className = className' ∧ data = data' ∧ signature = signature') ∧ r = s := by
  obtain ⟨sameMemo, fromClassName⟩ :=
    encodeOptionalText_selfDelimiting fits.memo fits'.memo same
  obtain ⟨sameClassName, fromData⟩ :=
    encodeOptionalText_selfDelimiting fits.dataClassName fits'.dataClassName fromClassName
  obtain ⟨sameData, fromSignature⟩ :=
    encodeOptionalBytes_selfDelimiting fits.data fits'.data fromData
  obtain ⟨sameSignature, back⟩ :=
    encodeOptionalBytes_selfDelimiting fits.dataSignature fits'.dataSignature fromSignature
  exact ⟨⟨sameMemo, sameClassName, sameData, sameSignature⟩, back⟩

structure Transaction.Form where
  version : UInt32
  inputs : Counted Input.Form
  outputs : Counted Output.Form
  lockTime : UInt32
  memo : Option String
  dataClassName : Option String
  data : Option Bytes
  dataSignature : Option Bytes
  fits : TailFits memo dataClassName data dataSignature

namespace Transaction.Form

def toTransaction (f : Form) : Transaction where
  version := f.version
  inputs := f.inputs.items.map Input.Form.toInput
  outputs := f.outputs.items.map Output.Form.toOutput
  lockTime := f.lockTime
  memo := f.memo
  dataClassName := f.dataClassName
  data := f.data
  dataSignature := f.dataSignature

def bytes (f : Form) : Bytes :=
  encodeUInt32 f.version ++ f.inputs.bytes Input.Form.bytes ++ f.outputs.bytes Output.Form.bytes
    ++ encodeUInt32 f.lockTime ++ f.toTransaction.encodeTail

/-- Every compact integer, in the order of the wire. -/
def varInts (f : Form) : List VarInt :=
  f.inputs.count :: f.inputs.items.flatMap Input.Form.varInts
    ++ f.outputs.count :: f.outputs.items.flatMap Output.Form.varInts

/-- What holds of every integer holds of both counts, and of the integers of every input and of
every output. -/
theorem forall_mem_varInts_iff {f : Form} {p : VarInt → Prop} :
    (∀ v ∈ f.varInts, p v) ↔
      (p f.inputs.count ∧ ∀ i ∈ f.inputs.items, ∀ v ∈ i.varInts, p v) ∧
        p f.outputs.count ∧ ∀ o ∈ f.outputs.items, ∀ v ∈ o.varInts, p v := by
  simp only [varInts, List.forall_mem_append, List.forall_mem_cons, List.mem_flatMap,
    forall_exists_index, and_imp]
  constructor
  · rintro ⟨⟨inputs, eachInput⟩, outputs, eachOutput⟩
    exact ⟨⟨inputs, fun i one v mem => eachInput v i one mem⟩, outputs,
      fun o one v mem => eachOutput v o one mem⟩
  · rintro ⟨⟨inputs, eachInput⟩, outputs, eachOutput⟩
    exact ⟨⟨inputs, fun v i one mem => eachInput i one v mem⟩, outputs,
      fun v o one mem => eachOutput o one v mem⟩

/-- What a policy lets pass. -/
structure Allowed (policy : CodecPolicy) (f : Form) : Prop where
  strict : policy.strictness = .strict → ∀ v ∈ f.varInts, v.isCanonical = true
  inputs : f.inputs.count.value ≤ policy.maximumCount
  outputs : f.outputs.count.value ≤ policy.maximumCount

theorem bytes_of_isMinimal {f : Form} (minimal : ∀ v ∈ f.varInts, v.isCanonical = true)
    (written : ∀ o ∈ f.outputs.items, o.HasWrittenAmount) : f.bytes = f.toTransaction.encode := by
  obtain ⟨⟨inputCount, eachInput⟩, outputCount, eachOutput⟩ := forall_mem_varInts_iff.mp minimal
  have inputs : f.inputs.items.flatMap Input.Form.bytes =
      f.toTransaction.inputs.flatMap Input.encode := by
    rw [toTransaction, List.flatMap_map]
    exact List.flatMap_congr fun i mem => Input.Form.bytes_of_isMinimal (eachInput i mem)
  have outputs : f.outputs.items.flatMap Output.Form.bytes =
      f.toTransaction.outputs.flatMap Output.encode := by
    rw [toTransaction, List.flatMap_map]
    exact List.flatMap_congr fun o mem =>
      Output.Form.bytes_of_isMinimal (eachOutput o mem) (written o mem)
  rw [bytes, Counted.bytes_of_isMinimal inputCount, Counted.bytes_of_isMinimal outputCount, inputs,
    outputs]
  simp [encode, toTransaction]

theorem selfDelimiting : SelfDelimiting (fun _ => True) bytes := by
  rintro ⟨version, inputs, outputs, lockTime, memo, className, data, signature, fits⟩
    ⟨version', inputs', outputs', lockTime', memo', className', data', signature', fits'⟩ - - r s
    same
  simp only [bytes, encodeTail, toTransaction, List.append_assoc] at same
  obtain ⟨rfl, fromInputs⟩ := encodeUInt32_selfDelimiting trivial trivial same
  obtain ⟨rfl, fromOutputs⟩ :=
    Counted.selfDelimiting Input.Form.selfDelimiting trivial trivial fromInputs
  obtain ⟨rfl, fromLockTime⟩ :=
    Counted.selfDelimiting Output.Form.selfDelimiting trivial trivial fromOutputs
  obtain ⟨rfl, fromTail⟩ := encodeUInt32_selfDelimiting trivial trivial fromLockTime
  obtain ⟨⟨rfl, rfl, rfl, rfl⟩, back⟩ := fits.delimits fits' fromTail
  exact ⟨rfl, back⟩

end Transaction.Form

/-- The four optional fields complete a transaction whose other fields were read before. -/
theorem Transaction.readTail_accepts (version : UInt32) (inputs : List Input)
    (outputs : List Output) (lockTime : UInt32) :
    ReadM.Accepts (do
      let memo ← readOptionalText "tx.memo"
      let dataClassName ← readOptionalText "tx.data_class_name"
      let data ← readOptionalBytes "tx.data"
      let dataSignature ← readOptionalBytes "tx.data_signature"
      return Transaction.mk version inputs outputs lockTime memo dataClassName data dataSignature)
      fun bytes tx => TailFits tx.memo tx.dataClassName tx.data tx.dataSignature ∧
        tx.encodeTail = bytes ∧ tx.version = version ∧ tx.inputs = inputs ∧
        tx.outputs = outputs ∧ tx.lockTime = lockTime := by
  refine ((readOptionalText_accepts _).bind fun memo =>
    (readOptionalText_accepts _).bind fun dataClassName =>
    (readOptionalBytes_accepts _).bind fun data =>
    (readOptionalBytes_accepts _).bind fun dataSignature => .pure _).congr ?_
  intro bytes tx
  constructor
  · intro taken
    obtain ⟨_, memo, _, ⟨memoFits, rfl⟩, fromClassName, rfl⟩ := taken
    obtain ⟨_, className, _, ⟨classNameFits, rfl⟩, fromData, rfl⟩ := fromClassName
    obtain ⟨_, data, _, ⟨dataFits, rfl⟩, fromSignature, rfl⟩ := fromData
    obtain ⟨_, signature, _, ⟨signatureFits, rfl⟩, ⟨rfl, rfl⟩, rfl⟩ := fromSignature
    have fits : TailFits memo className data signature :=
      ⟨memoFits, classNameFits, dataFits, signatureFits⟩
    exact ⟨fits, by simp [encodeTail], rfl, rfl, rfl, rfl⟩
  · rintro ⟨fits, rfl, rfl, rfl, rfl, rfl⟩
    exact ⟨_, _, _, ⟨fits.memo, rfl⟩, ⟨_, _, _, ⟨fits.dataClassName, rfl⟩,
      ⟨_, _, _, ⟨fits.data, rfl⟩, ⟨_, _, [], ⟨fits.dataSignature, rfl⟩, ⟨rfl, rfl⟩,
      rfl⟩, rfl⟩, rfl⟩, by simp [encodeTail]⟩

theorem Transaction.read_accepts (policy : CodecPolicy) :
    (Transaction.read policy).Accepts fun bytes tx =>
      ∃ f : Transaction.Form, f.Allowed policy ∧ f.bytes = bytes ∧ f.toTransaction = tx := by
  refine ((readUInt32_accepts _).bind fun version =>
    readCounted_accepts (Input.read_accepts _) fun inputs =>
    readCounted_accepts (Output.read_accepts _) fun outputs =>
    (readUInt32_accepts _).bind fun lockTime =>
    readTail_accepts version inputs outputs lockTime).congr ?_
  intro bytes tx
  constructor
  · intro taken
    obtain ⟨_, version, _, rfl, fromInputs, rfl⟩ := taken
    obtain ⟨inputs, _, inputMinimal, inputBound, inputsMinimal, fromOutputs, rfl⟩ := fromInputs
    obtain ⟨outputs, _, outputMinimal, outputBound, outputsMinimal, fromLockTime, rfl⟩ :=
      fromOutputs
    obtain ⟨_, lockTime, _, rfl, fromTail, rfl⟩ := fromLockTime
    obtain ⟨fits, rfl, rfl, sameInputs, sameOutputs, rfl⟩ := fromTail
    refine ⟨⟨tx.version, inputs, outputs, tx.lockTime, tx.memo, tx.dataClassName, tx.data,
      tx.dataSignature, fits⟩, ⟨fun strict => ?_, inputBound, outputBound⟩, ?_, ?_⟩
    · exact Transaction.Form.forall_mem_varInts_iff.mpr
        ⟨⟨inputMinimal strict, fun i one => inputsMinimal i one strict⟩, outputMinimal strict,
          fun o one => outputsMinimal o one strict⟩
    · simp [Transaction.Form.bytes, encodeTail, Transaction.Form.toTransaction]
    · simp [Transaction.Form.toTransaction, ← sameInputs, ← sameOutputs]
  · rintro ⟨f, ⟨minimal, inputBound, outputBound⟩, rfl, rfl⟩
    have parts := fun strict => Transaction.Form.forall_mem_varInts_iff.mp (minimal strict)
    refine ⟨_, f.version, _, rfl, ⟨f.inputs, _, fun strict => (parts strict).1.1, inputBound,
      fun i one strict => (parts strict).1.2 i one, ⟨f.outputs, _,
      fun strict => (parts strict).2.1, outputBound, fun o one strict => (parts strict).2.2 o one,
      ⟨_, f.lockTime, _, rfl, ⟨f.fits, rfl, rfl, rfl, rfl, rfl⟩, rfl⟩, rfl⟩, rfl⟩, ?_⟩
    simp [Transaction.Form.bytes]

theorem Transaction.read_needsByte (policy : CodecPolicy) : (Transaction.read policy).NeedsByte :=
  (readNumber_needsByte (by decide) _).bind

end TokenLedger
