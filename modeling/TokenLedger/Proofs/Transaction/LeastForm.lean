import TokenLedger.Proofs.Transaction.Form

/-!
# The form that is written

Of all forms of a transaction the encoder writes the one with the least compact integers and with
amounts that waste no byte. Every length has to be a 64-bit number for that, as it is for whatever
is in memory.
-/

namespace TokenLedger

/-- The length is a 64-bit number. -/
def Input.Sized (input : Input) : Prop := input.unlockingScript.length < 2 ^ 64

structure Output.Sized (output : Output) : Prop where
  value : (Amount.encode output.value).length < 2 ^ 64
  tokenId : output.tokenId.length < 2 ^ 64
  lockingScript : output.lockingScript.length < 2 ^ 64

/-- Every list and byte string behind a compact integer has a length for one. -/
structure Transaction.Sized (tx : Transaction) : Prop where
  inputCount : tx.inputs.length < 2 ^ 64
  outputCount : tx.outputs.length < 2 ^ 64
  inputs : ∀ input ∈ tx.inputs, input.Sized
  outputs : ∀ output ∈ tx.outputs, output.Sized

def Input.leastForm (input : Input) (sized : input.Sized) : Input.Form where
  prevout := input.prevout
  unlockingScript := .least input.unlockingScript sized
  sequence := input.sequence

def Output.leastForm (output : Output) (sized : output.Sized) : Output.Form where
  amount := .least (Amount.encode output.value) sized.value
  tokenId := .least output.tokenId sized.tokenId
  lockingScript := .least output.lockingScript sized.lockingScript
  unsigned := Amount.isUnsigned_encode output.value

theorem Output.toOutput_leastForm (output : Output) (sized : output.Sized) :
    (output.leastForm sized).toOutput = output := by
  simp only [leastForm, Form.toOutput, Counted.least, Amount.ofBigEndian_encode]

theorem Input.isCanonical_of_mem_leastForm {input : Input} {sized : input.Sized} {v : VarInt}
    (mem : v ∈ (input.leastForm sized).varInts) : v.isCanonical = true := by
  obtain rfl := List.mem_singleton.mp mem
  exact Counted.isMinimal_least sized

theorem Output.isCanonical_of_mem_leastForm {output : Output} {sized : output.Sized} {v : VarInt}
    (mem : v ∈ (output.leastForm sized).varInts) : v.isCanonical = true := by
  simp only [leastForm, Form.varInts, List.mem_cons, List.not_mem_nil, or_false] at mem
  rcases mem with rfl | rfl | rfl
  · exact Counted.isMinimal_least sized.value
  · exact Counted.isMinimal_least sized.tokenId
  · exact Counted.isMinimal_least sized.lockingScript

theorem Output.hasWrittenAmount_leastForm (output : Output) (sized : output.Sized) :
    (output.leastForm sized).HasWrittenAmount := by
  rw [Form.HasWrittenAmount, toOutput_leastForm]
  rfl

/-! ### Input and output encodings -/

theorem Input.encode_selfDelimiting : SelfDelimiting Input.Sized Input.encode :=
  Input.Form.selfDelimiting.of_forms Input.Form.toInput fun input sized =>
    ⟨input.leastForm sized, trivial,
      Input.Form.bytes_of_isMinimal fun _ => isCanonical_of_mem_leastForm, rfl⟩

namespace Transaction

variable {tx : Transaction}

def leastForm (tx : Transaction) (sized : tx.Sized)
    (fits : TailFits tx.memo tx.dataClassName tx.data tx.dataSignature) : Form where
  version := tx.version
  inputs := .least (tx.inputs.pmap Input.leastForm sized.inputs)
    (by rw [List.length_pmap]; exact sized.inputCount)
  outputs := .least (tx.outputs.pmap Output.leastForm sized.outputs)
    (by rw [List.length_pmap]; exact sized.outputCount)
  lockTime := tx.lockTime
  memo := tx.memo
  dataClassName := tx.dataClassName
  data := tx.data
  dataSignature := tx.dataSignature
  fits := fits

theorem toTransaction_leastForm (sized : tx.Sized)
    (fits : TailFits tx.memo tx.dataClassName tx.data tx.dataSignature) :
    (tx.leastForm sized fits).toTransaction = tx := by
  have inputs : (tx.inputs.pmap Input.leastForm sized.inputs).map Input.Form.toInput =
      tx.inputs := by
    rw [List.map_pmap]
    exact List.pmap_eq_self.mpr fun _ _ => rfl
  have outputs : (tx.outputs.pmap Output.leastForm sized.outputs).map Output.Form.toOutput =
      tx.outputs := by
    rw [List.map_pmap]
    exact List.pmap_eq_self.mpr fun _ _ => Output.toOutput_leastForm _ _
  simp only [Form.toTransaction, leastForm, Counted.least, inputs, outputs]

variable {sized : tx.Sized} {fits : TailFits tx.memo tx.dataClassName tx.data tx.dataSignature}

theorem isCanonical_of_mem_leastForm :
    ∀ v ∈ (tx.leastForm sized fits).varInts, v.isCanonical = true := by
  refine Form.forall_mem_varInts_iff.mpr ⟨⟨VarInt.isCanonical_ofValue _, fun f one v => ?_⟩,
    VarInt.isCanonical_ofValue _, fun f one v => ?_⟩
  · obtain ⟨input, _, rfl⟩ := List.mem_pmap.mp one
    exact Input.isCanonical_of_mem_leastForm
  · obtain ⟨output, _, rfl⟩ := List.mem_pmap.mp one
    exact Output.isCanonical_of_mem_leastForm

theorem hasWrittenAmount_of_mem_leastForm {o : Output.Form}
    (mem : o ∈ (tx.leastForm sized fits).outputs.items) : o.HasWrittenAmount := by
  obtain ⟨output, one, rfl⟩ := List.mem_pmap.mp mem
  exact Output.hasWrittenAmount_leastForm output _

/-- The encoder writes the least form. -/
theorem bytes_leastForm (sized : tx.Sized)
    (fits : TailFits tx.memo tx.dataClassName tx.data tx.dataSignature) :
    (tx.leastForm sized fits).bytes = tx.encode := by
  rw [Form.bytes_of_isMinimal isCanonical_of_mem_leastForm fun _ =>
    hasWrittenAmount_of_mem_leastForm, toTransaction_leastForm]

end Transaction

end TokenLedger
