import Mathlib
import TokenLedger.Proofs.Machine.Effect
import TokenLedger.Proofs.Machine.Operations
import TokenLedger.Proofs.Number

/-!
# Limits of a run

The size of an element is checked only where it is pushed, and the depth of the stacks only between
chunks. All the same both hold throughout: what an instruction leaves was there before or is a
number or a hash, and these are small. The operations of a run are the codes that it has passed and
the keys of the checks of many signatures.
-/

namespace TokenLedger

/-! ### New elements -/

/-- Numbers of up to five bytes are far below the limit. -/
theorem ScriptNumber.length_encode_le_elementSize {n : Int} (small : n.natAbs < 2 ^ 39) :
    (encode n).length ≤ Limits.elementSize := by
  have narrow : (encode n).length ≤ 5 := length_encode_le_iff.mpr (by omega)
  exact Nat.le_trans narrow (by decide)

theorem ScriptNumber.length_ofBool_le (b : Bool) : (ofBool b).length ≤ Limits.elementSize := by
  cases b <;> decide

theorem HashOp.length_apply_le (op : HashOp) (bytes : Bytes) :
    (op.apply bytes).length ≤ Limits.elementSize := by
  cases op with
  | ripemd160 => exact Nat.le_trans (Hash.ripemd160 bytes).property.le (by decide)
  | sha1 => exact Nat.le_trans (Hash.sha1 bytes).property.le (by decide)
  | sha256 => exact Nat.le_trans (Hash.sha256 bytes).property.le (by decide)
  | hash160 => exact Nat.le_trans (Hash.hash160 bytes).property.le (by decide)
  | hash256 => exact Nat.le_trans (Hash.sha256d bytes).property.le (by decide)

theorem UnaryOp.natAbs_apply_le (op : UnaryOp) (n : Int) :
    (op.apply n).natAbs ≤ n.natAbs + 1 := by
  cases op <;> simp only [apply] <;> try split
  all_goals omega

theorem BinaryOp.natAbs_apply_le (op : BinaryOp) (a b : Int) :
    (op.apply a b).natAbs ≤ a.natAbs + b.natAbs + 1 := by
  cases op <;> simp only [apply] <;> try split
  all_goals omega

/-- Codes push numbers up to 16 only. -/
theorem Instruction.exists_number_of_push {code : UInt8} {bytes : Bytes}
    (meaning : ofCode code = .stack (.push bytes)) :
    ∃ n : Int, n.natAbs ≤ 16 ∧ bytes = ScriptNumber.encode n := by
  have mem : Instruction.stack (.push bytes) ∈ table := by
    unfold ofCode at meaning
    split at meaning
    · cases meaning
    · cases found : table[code.toNat - Opcode.minusOne.toNat]? with
      | none =>
        rw [found] at meaning
        cases meaning
      | some instruction =>
        rw [found] at meaning
        cases meaning
        exact List.mem_of_getElem? found
  simp [table, number] at mem
  rcases mem with rfl | rfl | rfl | rfl | rfl | rfl | rfl | rfl | rfl | rfl | rfl | rfl | rfl |
    rfl | rfl | rfl | rfl
  all_goals exact ⟨_, by decide, rfl⟩

/-- Shuffling makes no new elements. -/
theorem Shuffle.mem_of_apply? {op : Shuffle} {stack result : Stack}
    (moved : op.apply? stack = some result) {element : Bytes} (mem : element ∈ result) :
    element ∈ stack := by
  unfold Shuffle.apply? at moved
  split at moved <;> cases moved <;> grind

namespace StackOp

variable {minimal : Bool} {stack result : Stack}

/-- What is found somewhere in a stack is in it. -/
theorem mem_of_elementAt {depth : Int} {index : Nat} {element : Bytes}
    (found : elementAt stack depth = .ok (index, element)) : element ∈ stack := by
  unfold elementAt at found
  split at found
  · cases found
  · split at found
    · cases found
    next there =>
      cases found
      exact List.mem_of_getElem? there

/-- Operands have four bytes at most. -/
theorem natAbs_lt_of_operand {bytes : Bytes} {n : Int} (reads : operand minimal bytes = .ok n) :
    n.natAbs < 2 ^ 31 := by
  have wide := ScriptNumber.natAbs_lt_of_decode reads
  have width : (256 : Nat) ^ ScriptNumber.operandWidth = 2 * 2 ^ 31 := rfl
  omega

/-- The elements that an operation leaves were there before, or are numbers or hashes. -/
theorem length_le_of_apply {op : StackOp} (short : stack.length ≤ Limits.stackSize)
    (small : ∀ element ∈ stack, element.length ≤ Limits.elementSize)
    (pushed : ∀ bytes, op = .push bytes → bytes.length ≤ Limits.elementSize)
    (applied : op.apply minimal stack = .ok result) :
    ∀ element ∈ result, element.length ≤ Limits.elementSize := by
  cases apply_eq_ok_iff.mp applied with
  | push => exact List.forall_mem_cons.mpr ⟨pushed _ rfl, small⟩
  | shuffle moved => exact fun element mem => small element (Shuffle.mem_of_apply? moved mem)
  | @ifDup a rest =>
    split
    · exact List.forall_mem_cons.mpr ⟨small a List.mem_cons_self, small⟩
    · exact small
  | depth =>
    unfold Limits.stackSize at short
    exact List.forall_mem_cons.mpr ⟨ScriptNumber.length_encode_le_elementSize (by omega), small⟩
  | @size a rest =>
    have length := small a List.mem_cons_self
    unfold Limits.elementSize at length
    exact List.forall_mem_cons.mpr ⟨ScriptNumber.length_encode_le_elementSize (by omega), small⟩
  | pick reads found =>
    simp only [List.forall_mem_cons] at small
    exact List.forall_mem_cons.mpr ⟨small.2 _ (mem_of_elementAt found), small.2⟩
  | roll reads found =>
    simp only [List.forall_mem_cons] at small
    exact List.forall_mem_cons.mpr ⟨small.2 _ (mem_of_elementAt found),
      fun other mem => small.2 other (List.mem_of_mem_eraseIdx mem)⟩
  | verify good =>
    simp only [List.forall_mem_cons] at small
    exact small.2
  | equal =>
    simp only [List.forall_mem_cons] at small
    exact List.forall_mem_cons.mpr ⟨ScriptNumber.length_ofBool_le _, small.2.2⟩
  | equalVerify | numEqualVerify =>
    simp only [List.forall_mem_cons] at small
    exact small.2.2
  | @unary op a rest n reads =>
    simp only [List.forall_mem_cons] at small
    have grown := op.natAbs_apply_le n
    have narrow := natAbs_lt_of_operand reads
    exact List.forall_mem_cons.mpr
      ⟨ScriptNumber.length_encode_le_elementSize (by omega), small.2⟩
  | @binary op a b rest m n readsSecond readsFirst =>
    simp only [List.forall_mem_cons] at small
    have grown := op.natAbs_apply_le m n
    have narrow := natAbs_lt_of_operand readsFirst
    have alsoNarrow := natAbs_lt_of_operand readsSecond
    exact List.forall_mem_cons.mpr
      ⟨ScriptNumber.length_encode_le_elementSize (by omega), small.2.2⟩
  | within readsUpper readsLower reads =>
    simp only [List.forall_mem_cons] at small
    exact List.forall_mem_cons.mpr ⟨ScriptNumber.length_ofBool_le _, small.2.2.2⟩
  | @hash op a rest =>
    simp only [List.forall_mem_cons] at small
    exact List.forall_mem_cons.mpr ⟨op.length_apply_le a, small.2⟩

end StackOp

/-! ### Chunks that count -/

namespace Chunk

/-- The chunk is an operation, be it executed or not. -/
def isOperation : Chunk → Bool
  | .op code => Opcode.sixteen < code
  | .push _ _ => false

/-- The chunk counts the keys too where it is executed. -/
def checksManySignatures : Chunk → Bool
  | .op code => code == Opcode.checkMultiSig || code == Opcode.checkMultiSigVerify
  | .push _ _ => false

end Chunk

theorem Instruction.checksManySignatures_iff (code : UInt8) :
    (Chunk.op code).checksManySignatures = true ↔
      ∃ verify, ofCode code = .checkMultiSig verify := by
  have every : ∀ code : UInt8, (Chunk.op code).checksManySignatures = true ↔
      ofCode code = .checkMultiSig false ∨ ofCode code = .checkMultiSig true :=
    forall_byte (by decide +kernel)
  rw [every, Bool.exists_bool]

namespace Machine

variable {env : Environment} {s s' : State}

/-! ### Depth and elements -/

/-- No element of the state is longer than elements may be. -/
structure SmallElements (s : State) : Prop where
  stack : ∀ element ∈ s.stack, element.length ≤ Limits.elementSize
  altStack : ∀ element ∈ s.altStack, element.length ≤ Limits.elementSize

/-- A verdict on top of small elements, if it is put there. -/
theorem small_conclude {verify accepted : Bool} {rest : Stack}
    (small : ∀ element ∈ rest, element.length ≤ Limits.elementSize) :
    ∀ element ∈ (if verify then rest else ScriptNumber.ofBool accepted :: rest),
      element.length ≤ Limits.elementSize := by
  cases verify with
  | true => exact small
  | false => exact List.forall_mem_cons.mpr ⟨ScriptNumber.length_ofBool_le accepted, small⟩

theorem smallElements_of_effect {code : UInt8} {offset : Nat} (small : SmallElements s)
    (short : s.stack.length ≤ Limits.stackSize)
    (effect : Effect env offset s (Instruction.ofCode code) s') : SmallElements s' := by
  obtain ⟨onStack, aside⟩ := small
  generalize meaning : Instruction.ofCode code = instruction at effect
  cases effect with
  | @stack op stack applied =>
    refine ⟨StackOp.length_le_of_apply short onStack (fun bytes same => ?_) applied, aside⟩
    rw [same] at meaning
    obtain ⟨n, few, rfl⟩ := Instruction.exists_number_of_push meaning
    exact ScriptNumber.length_encode_le_elementSize (by omega)
  | nop | reservedNop | checkLockTime | skippedBranch | otherwise | close | codeSeparator =>
    exact ⟨onStack, aside⟩
  | branch active taken =>
    rw [taken, List.forall_mem_cons] at onStack
    exact ⟨onStack.2, aside⟩
  | toAltStack taken =>
    rw [taken, List.forall_mem_cons] at onStack
    exact ⟨onStack.2, List.forall_mem_cons.mpr ⟨onStack.1, aside⟩⟩
  | fromAltStack taken =>
    rw [taken, List.forall_mem_cons] at aside
    exact ⟨List.forall_mem_cons.mpr ⟨aside.1, onStack⟩, aside.2⟩
  | checkSig taken checked passed =>
    simp only [taken, List.forall_mem_cons] at onStack
    exact ⟨small_conclude onStack.2.2, aside⟩
  | checkMultiSig ran passed =>
    rw [ran.stack] at onStack
    rw [ran.after]
    refine ⟨small_conclude fun element mem => onStack element ?_, aside⟩
    simp [mem]

/-! ### Operations -/

/-- The number that the top of the stack stands for. -/
def topNumber (s : State) : Nat :=
  match s.stack with
  | [] => 0
  | top :: _ => (Number.decodeBE top.reverse).toNat

/-- Only checks of many signatures count more than their code. -/
theorem operations_of_effect {code : UInt8} {offset : Nat}
    (effect : Effect env offset s (Instruction.ofCode code) s') :
    s'.operations =
        s.operations + (if (Chunk.op code).checksManySignatures then topNumber s else 0) ∧
      (s'.operations = s.operations ∨ s'.operations ≤ Limits.operations) := by
  have keys := Instruction.checksManySignatures_iff code
  generalize Instruction.ofCode code = instruction at effect keys
  cases effect with
  | @checkMultiSig verify _ operands rest made t ran passed =>
    have counts : (Chunk.op code).checksManySignatures = true := keys.mpr ⟨verify, rfl⟩
    have number : topNumber s = operands.keys.length := by
      have read := (ScriptNumber.decode_eq_ok_iff.mp ran.countsKeys).2.2
      simp only [topNumber, ran.stack, ← read, Int.toNat_natCast]
    have budget := ran.budget
    rw [ran.after, if_pos counts, number]
    exact ⟨rfl, .inr budget⟩
  | _ =>
    have free : ¬ (Chunk.op code).checksManySignatures = true := by simp [keys]
    rw [if_neg free]
    exact ⟨rfl, .inl rfl⟩

/-! ### Single chunks -/

/-- The state keeps all limits of a run. -/
structure WithinLimits (s : State) : Prop extends SmallElements s where
  depth : s.stack.length + s.altStack.length ≤ Limits.stackSize
  operations : s.operations ≤ Limits.operations

theorem withinLimits_of_step {c : PlacedChunk} (within : WithinLimits s)
    (stepped : step env c s = .ok () s') : WithinLimits s' := by
  obtain ⟨chunk, offset⟩ := c
  have short : s.stack.length ≤ Limits.stackSize :=
    Nat.le_trans (Nat.le_add_right _ _) within.depth
  cases chunk with
  | push code data =>
    obtain ⟨pushed, depth⟩ := step_push_eq_ok_iff.mp stepped
    obtain ⟨small, effect⟩ := stepPush_eq_ok_iff.mp pushed
    split at effect
    next =>
      obtain ⟨-, rfl⟩ := effect
      exact ⟨⟨List.forall_mem_cons.mpr ⟨small, within.stack⟩, within.altStack⟩, depth,
        within.operations⟩
    next =>
      rw [effect]
      exact within
  | op code =>
    obtain ⟨executed, depth⟩ := step_op_eq_ok_iff.mp stepped
    obtain ⟨budget, effect⟩ := stepCode_eq_ok_iff.mp executed
    have countedBudget : (counted code s).operations ≤ Limits.operations := by
      by_cases counts : Opcode.sixteen < code
      · simpa [counted, counts] using budget counts
      · simpa [counted, counts] using within.operations
    split at effect
    next =>
      have effect := effect_of_execute effect
      have small : SmallElements (counted code s) := ⟨within.stack, within.altStack⟩
      refine ⟨smallElements_of_effect small short effect, depth, ?_⟩
      rcases (operations_of_effect effect).2 with same | kept
      · rw [same]
        exact countedBudget
      · exact kept
    next =>
      rw [effect]
      exact ⟨⟨within.stack, within.altStack⟩, within.depth, countedBudget⟩

theorem operations_of_step {c : PlacedChunk} (stepped : step env c s = .ok () s') :
    s'.operations = s.operations + (if c.chunk.isOperation then 1 else 0) +
      if s.isActive = true ∧ c.chunk.checksManySignatures = true then topNumber s else 0 := by
  obtain ⟨chunk, offset⟩ := c
  cases chunk with
  | push code data =>
    obtain ⟨pushed, -⟩ := step_push_eq_ok_iff.mp stepped
    obtain ⟨-, effect⟩ := stepPush_eq_ok_iff.mp pushed
    have same : s'.operations = s.operations := by
      split at effect
      · rw [effect.2]
      · rw [effect]
    simp [same, Chunk.isOperation, Chunk.checksManySignatures]
  | op code =>
    obtain ⟨executed, -⟩ := step_op_eq_ok_iff.mp stepped
    obtain ⟨-, effect⟩ := stepCode_eq_ok_iff.mp executed
    have before : (counted code s).operations =
        s.operations + if (Chunk.op code).isOperation then 1 else 0 := by
      simp [counted, Chunk.isOperation]
    have sameTop : topNumber (counted code s) = topNumber s := rfl
    split at effect
    next takesEffect =>
      have many : (Chunk.op code).checksManySignatures = true → s.isActive = true := by
        intro checks
        obtain ⟨verify, meaning⟩ := (Instruction.checksManySignatures_iff code).mp checks
        rw [meaning] at takesEffect
        simpa [takesEffectWhenSkipped] using takesEffect
      rw [(operations_of_effect (effect_of_execute effect)).1, before, sameTop]
      congr 1
      exact if_congr ⟨fun checks => ⟨many checks, checks⟩, And.right⟩ rfl rfl
    next skipped =>
      have inactive : s.isActive = false := by
        simpa using (Bool.or_eq_false_iff.mp (Bool.not_eq_true _ ▸ skipped)).1
      have idle : ¬ (s.isActive = true ∧ (Chunk.op code).checksManySignatures = true) := by
        simp [inactive]
      rw [effect, before, if_neg idle, Nat.add_zero]

/-! ### Runs -/

theorem withinLimits_of_steps {chunks : List PlacedChunk} (within : WithinLimits s)
    (ran : steps env chunks s = .ok () s') : WithinLimits s' := by
  induction chunks generalizing s with
  | nil =>
    rw [steps_nil_eq_ok_iff.mp ran]
    exact within
  | cons c chunks ih =>
    obtain ⟨between, stepped, rest⟩ := steps_cons_eq_ok_iff.mp ran
    exact ih (withinLimits_of_step within stepped) rest

/-- The numbers of keys that the checks of many signatures take where a run over the chunks
executes them, check by check. -/
def executedKeyCounts (env : Environment) (s : State) : List PlacedChunk → List Nat
  | [] => []
  | c :: chunks =>
    let later :=
      match step env c s with
      | .ok () s' => executedKeyCounts env s' chunks
      | .error _ _ => []
    if s.isActive = true ∧ c.chunk.checksManySignatures = true then topNumber s :: later else later

theorem operations_of_steps {chunks : List PlacedChunk} (ran : steps env chunks s = .ok () s') :
    s'.operations = s.operations + chunks.countP (·.chunk.isOperation) +
      (executedKeyCounts env s chunks).sum := by
  induction chunks generalizing s with
  | nil =>
    rw [steps_nil_eq_ok_iff.mp ran]
    rfl
  | cons c chunks ih =>
    obtain ⟨between, stepped, rest⟩ := steps_cons_eq_ok_iff.mp ran
    have keys : (executedKeyCounts env s (c :: chunks)).sum =
        (if s.isActive = true ∧ c.chunk.checksManySignatures = true then topNumber s else 0) +
          (executedKeyCounts env between chunks).sum := by
      simp only [executedKeyCounts, stepped]
      split
      · rw [List.sum_cons]
      · rw [Nat.zero_add]
    rw [ih rest, operations_of_step stepped, keys, List.countP_cons]
    omega

/-- A separator that was moved stands behind one of the separators that were executed. -/
theorem lastSeparator_eq_or (env : Environment) (s : State) (chunks : List PlacedChunk) :
    lastSeparator env s chunks = s.separator ∨
      ∃ c ∈ executedSeparators env s chunks, lastSeparator env s chunks = c.offset + 1 := by
  unfold lastSeparator
  cases last : (executedSeparators env s chunks).getLast? with
  | none => exact .inl rfl
  | some c => exact .inr ⟨c, List.mem_of_getLast? last, rfl⟩

/-- The limits hold behind every chunk of a run on a stack that keeps them. -/
theorem limits_of_steps {stack : Stack} {chunks : List PlacedChunk}
    (short : stack.length ≤ Limits.stackSize)
    (small : ∀ element ∈ stack, element.length ≤ Limits.elementSize)
    (ran : steps env chunks { stack } = .ok () s) : WithinLimits s := by
  refine withinLimits_of_steps ⟨⟨small, ?_⟩, ?_, Nat.zero_le _⟩ ran
  · simp
  · simpa using short

end Machine

namespace Script

/-- What a script leaves on small elements keeps the limits. -/
theorem withinLimits_of_execute {script : Script} {context : Option SpendContext} {flags : Flags}
    {stack final : Stack} (short : stack.length ≤ Limits.stackSize)
    (small : ∀ element ∈ stack, element.length ≤ Limits.elementSize)
    (ran : script.execute context flags stack = .ok final) :
    final.length ≤ Limits.stackSize ∧ ∀ element ∈ final, element.length ≤ Limits.elementSize := by
  obtain ⟨s, steps, -, rfl⟩ := execute_eq_ok_iff.mp ran
  have within := Machine.limits_of_steps short small steps
  exact ⟨Nat.le_trans (Nat.le_add_right _ _) within.depth, within.stack⟩

/-- So does what it leaves when it starts on nothing. -/
theorem withinLimits_of_execute_nil {script : Script} {context : Option SpendContext}
    {flags : Flags} {final : Stack} (ran : script.execute context flags [] = .ok final) :
    final.length ≤ Limits.stackSize ∧ ∀ element ∈ final, element.length ≤ Limits.elementSize := by
  have short : ([] : Stack).length ≤ Limits.stackSize := Nat.zero_le _
  exact withinLimits_of_execute short (by simp) ran

end Script

namespace Machine

/-- Behind every chunk of a run that has not failed the limits hold, if they hold of the stack that
the run starts on. The operations are the codes passed and the keys of the checks executed, and the
separator stands where it was or behind one that was executed. A redeem script has been an element,
and is no longer than one. -/
theorem limits_hold_behind_every_chunk :
    (∀ (env : Environment) (stack : Stack), stack.length ≤ 1000 →
      (∀ element ∈ stack, element.length ≤ 520) →
      ∀ (before after : List PlacedChunk) (s : State), env.script.chunks = before ++ after →
        steps env before { stack } = .ok () s →
        s.stack.length + s.altStack.length ≤ 1000 ∧
        (∀ element ∈ s.stack ++ s.altStack, element.length ≤ 520) ∧
        s.operations ≤ 201 ∧
        s.operations = before.countP (·.chunk.isOperation) +
          (executedKeyCounts env { stack } before).sum ∧
        (s.separator = 0 ∨ ∃ c ∈ executedSeparators env { stack } before,
          c.chunk = .op Opcode.codeSeparator ∧ s.separator = c.offset + 1)) ∧
    ∀ (unlocking : Script) (context : SpendContext) (flags : Flags) (program : Bytes)
      (arguments : Stack),
      unlocking.execute (some context) flags [] = .ok (program :: arguments) →
        program.length ≤ 520 := by
  constructor
  · intro env stack short small before after s _ ran
    have within := limits_of_steps short small ran
    have operations := operations_of_steps ran
    refine ⟨within.depth, ?_, within.operations, ?_, ?_⟩
    · exact List.forall_mem_append.mpr ⟨within.stack, within.altStack⟩
    · simpa using operations
    · rw [separator_of_steps ran]
      rcases lastSeparator_eq_or env { stack } before with unmoved | ⟨c, executed, place⟩
      · exact .inl unmoved
      · exact .inr ⟨c, executed, (mem_executedSeparators executed).2, place⟩
  · intro unlocking context flags program arguments ran
    exact (Script.withinLimits_of_execute_nil ran).2 program List.mem_cons_self

/-- A check of no signatures against one key, then one that is skipped. -/
def countingScript : Script :=
  .assemble [.op Opcode.codeSeparator, .op 0x6b, .push Opcode.empty [], .push Opcode.empty [],
    .push 1 [9], .op Opcode.one, .op Opcode.checkMultiSig, .op 0x64, .op Opcode.checkMultiSig]

theorem limits_hold_behind_every_chunk_counting :
    let env : Environment := ⟨none, countingScript, .standard⟩
    let stack : Stack := [[7]]
    let context : SpendContext := ⟨⟨1, [], [], 0, none, none, none, none⟩, 0⟩
    let unlocking := Script.assemble [.push 1 [9], .op Opcode.one, .push 2 [0x6a, 8]]
    stack.length ≤ 1000 ∧ (∀ element ∈ stack, element.length ≤ 520) ∧
      ∃ s, steps env countingScript.chunks { stack } = .ok () s ∧
        s.altStack = [[7]] ∧ s.branches = [false] ∧
        executedKeyCounts env { stack } countingScript.chunks = [1] ∧
        countingScript.chunks.countP (·.chunk.isOperation) = 5 ∧ s.operations = 6 ∧
        s.operations ≤ 201 ∧ s.separator = 1 ∧
        unlocking.execute (some context) .standard [] = .ok [[0x6a, 8], [1], [9]] ∧
        [0x6a, 8].length ≤ 520 := by
  intro env stack context unlocking
  have short : stack.length ≤ 1000 := by decide
  have small : ∀ element ∈ stack, element.length ≤ 520 := by decide
  obtain ⟨s, ran, aside, branches, separator⟩ :
      ∃ s, steps env countingScript.chunks { stack } = .ok () s ∧ s.altStack = [[7]] ∧
        s.branches = [false] ∧ s.separator = 1 := by
    refine ⟨{ stack := [], altStack := [[7]], branches := [false], operations := 6
              separator := 1 }, ?_, rfl, rfl, rfl⟩
    cbv
  have keys : executedKeyCounts env { stack } countingScript.chunks = [1] := by cbv
  have codes : countingScript.chunks.countP (·.chunk.isOperation) = 5 := by decide
  obtain ⟨-, -, budget, operations, -⟩ := limits_hold_behind_every_chunk.1 env stack short small
    countingScript.chunks [] s (List.append_nil _).symm ran
  rw [keys, codes] at operations
  have unlocked : unlocking.execute (some context) .standard [] = .ok [[0x6a, 8], [1], [9]] := by
    cbv
  exact ⟨short, small, s, ran, aside, branches, keys, codes, operations, budget, separator,
    unlocked, limits_hold_behind_every_chunk.2 unlocking context .standard _ _ unlocked⟩

end Machine

end TokenLedger
