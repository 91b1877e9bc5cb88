import TokenLedger.Proofs.Machine.Composition
import TokenLedger.Proofs.Machine.Step

/-!
# The last separator

Signatures commit to what stands behind the last separator that was executed. The machine keeps its
place, and no other instruction moves that.
-/

namespace TokenLedger

theorem Instruction.ofCode_eq_codeSeparator_iff (code : UInt8) :
    ofCode code = codeSeparator ↔ code = Opcode.codeSeparator := by
  revert code
  exact forall_byte (by decide +kernel)

namespace Machine

variable {env : Environment}

/-- The action does not move the separator. -/
def KeepsSeparator {α : Type} (m : MachineM α) : Prop :=
  ∀ s value s', m s = .ok value s' → s'.separator = s.separator

namespace KeepsSeparator

variable {α β : Type} {m : MachineM α}

theorem pure (value : α) : KeepsSeparator (Pure.pure value : MachineM α) := by
  intro s _ s' run
  obtain ⟨-, rfl⟩ := estate_pure_eq_ok.mp run
  rfl

theorem fault (cause : ScriptError) : KeepsSeparator (Machine.fault cause : MachineM α) := by
  intro s value s' run
  cases run

theorem modify {change : State → State} (kept : ∀ s, (change s).separator = s.separator) :
    KeepsSeparator (modify change : MachineM Unit) := by
  intro s _ s' run
  rw [estate_modify_eq_ok.mp run, kept]

theorem bind {next : α → MachineM β} (head : KeepsSeparator m)
    (tail : ∀ value, KeepsSeparator (next value)) : KeepsSeparator (m >>= next) := by
  intro s value s' run
  obtain ⟨first, between, ran, rest⟩ := estate_bind_eq_ok.mp run
  rw [tail first between value s' rest, head s first between ran]

theorem get : KeepsSeparator (MonadState.get : MachineM State) := by
  intro s value s' run
  cases run
  rfl

end KeepsSeparator

theorem onStack_keepsSeparator (act : Stack → Except Error Stack) :
    KeepsSeparator (onStack act) := by
  intro s value s' run
  obtain ⟨stack, -, rfl⟩ := onStack_eq_ok_iff.mp run
  rfl

theorem pop_keepsSeparator : KeepsSeparator pop := by
  intro s value s' run
  unfold pop at run
  split at run
  · cases run
  · cases run
    rfl

theorem popBelowOne_keepsSeparator (count : Nat) : KeepsSeparator (popBelowOne count) := by
  intro s value s' run
  unfold popBelowOne at run
  split at run
  · cases run
  · cases run
    rfl

theorem countOperations_keepsSeparator (count : Nat) : KeepsSeparator (countOperations count) := by
  intro s value s' run
  obtain ⟨-, rfl⟩ := countOperations_eq_ok_iff.mp run
  rfl

theorem conditional_keepsSeparator (op : Conditional) : KeepsSeparator (conditional op) := by
  intro s value s' run
  unfold conditional at run
  cases op with
  | branch expected =>
    dsimp only at run
    split at run
    · cases run
      rfl
    · split at run
      · cases run
      · cases run
        rfl
  | otherwise | close =>
    dsimp only at run
    split at run
    · cases run
    · cases run
      rfl

/-! ### Signature checks -/

theorem checkRecorded_keepsSeparator (connected : Script) (signature key : Bytes) :
    KeepsSeparator (checkRecorded env connected signature key) := by
  intro s value s' run
  unfold checkRecorded at run
  dsimp only at run
  split at run
  · cases run
    rfl
  · cases run

theorem checkSig_keepsSeparator : KeepsSeparator (checkSig env) := by
  intro s value s' run
  unfold checkSig at run
  split at run
  next key signature stack _ =>
    exact checkRecorded_keepsSeparator _ _ _ { s with stack } value s' run
  next => cases run

theorem KeepsSeparator.compositional : Compositional fun _ m _ => KeepsSeparator m where
  pure := .pure
  fault := .fault
  bind := .bind

theorem KeepsSeparator.relatesChecks : RelatesChecks (fun _ m _ => KeepsSeparator m) env env where
  toCompositional := compositional
  pop := pop_keepsSeparator
  popCount := compositional.popCount pop_keepsSeparator
  popBelowOne := popBelowOne_keepsSeparator
  countOperations := countOperations_keepsSeparator
  atSeparator _ _ each := .bind .get fun _ => each _
  checkRecorded _ _ := checkRecorded_keepsSeparator _
  rejectDummy _ := compositional.guard _

/-! ### Chunks -/

theorem fromAltStack_keepsSeparator (code : UInt8) (offset : Nat) :
    KeepsSeparator (execute env code offset .fromAltStack) := by
  intro s value s' run
  simp only [execute] at run
  split at run
  · cases run
  · cases run
    rfl

theorem KeepsSeparator.relatesInstruction {code : UInt8} {offset : Nat} {instruction : Instruction}
    (other : instruction ≠ .codeSeparator) :
    RelatesInstruction (fun _ m _ => KeepsSeparator m) env code offset offset instruction where
  toCompositional := compositional
  stackOp _ _ := onStack_keepsSeparator _
  conditional op _ := conditional_keepsSeparator op
  push _ := .modify fun _ => rfl
  pop := pop_keepsSeparator
  putAside _ := .modify fun _ => rfl
  takeBack := fromAltStack_keepsSeparator code offset
  separate separates := absurd separates other
  checkSig _ _ := checkSig_keepsSeparator
  checkMultiSig _ _ := relatesChecks.checkMultiSig
  checkLockTime := onStack_keepsSeparator _

/-- Only a separator moves the place. -/
theorem execute_keepsSeparator {code : UInt8} {offset : Nat} {instruction : Instruction}
    (other : instruction ≠ .codeSeparator) :
    KeepsSeparator (execute env code offset instruction) :=
  (KeepsSeparator.relatesInstruction other).execute

/-- A step puts the separator behind a separator that it executes, and leaves it otherwise. -/
theorem separator_of_step {s s' : State} {c : PlacedChunk} (stepped : step env c s = .ok () s') :
    s'.separator =
      if s.isActive = true ∧ c.chunk = .op Opcode.codeSeparator then c.offset + 1
      else s.separator := by
  obtain ⟨chunk, offset⟩ := c
  cases chunk with
  | push code data =>
    obtain ⟨pushed, -⟩ := step_push_eq_ok_iff.mp stepped
    obtain ⟨-, effect⟩ := stepPush_eq_ok_iff.mp pushed
    rw [if_neg (by simp)]
    split at effect
    · rw [effect.2]
    · rw [effect]
  | op code =>
    obtain ⟨executed, -⟩ := step_op_eq_ok_iff.mp stepped
    obtain ⟨-, effect⟩ := stepCode_eq_ok_iff.mp executed
    by_cases separates : code = Opcode.codeSeparator
    · have meaning := (Instruction.ofCode_eq_codeSeparator_iff code).mpr separates
      have skips : takesEffectWhenSkipped .codeSeparator = false := rfl
      rw [meaning, skips, Bool.or_false] at effect
      split at effect
      next active =>
        rw [if_pos ⟨active, by rw [separates]⟩, estate_modify_eq_ok.mp effect]
      next skipped =>
        rw [if_neg fun executed => skipped executed.1, effect]
        rfl
    · have other : Instruction.ofCode code ≠ .codeSeparator := fun meaning =>
        separates ((Instruction.ofCode_eq_codeSeparator_iff code).mp meaning)
      rw [if_neg fun executed => separates (Chunk.op.inj executed.2)]
      split at effect
      · exact execute_keepsSeparator other (counted code s) () s' effect
      · rw [effect]
        rfl

/-! ### Runs -/

/-- The separators that a run over the chunks executes, in their order. -/
def executedSeparators (env : Environment) (s : State) : List PlacedChunk → List PlacedChunk
  | [] => []
  | c :: chunks =>
    let later :=
      match step env c s with
      | .ok () s' => executedSeparators env s' chunks
      | .error _ _ => []
    if s.isActive = true ∧ c.chunk = .op Opcode.codeSeparator then c :: later else later

/-- The place behind the last separator that a run over the chunks executes; the place where the
state has it if there is none. -/
def lastSeparator (env : Environment) (s : State) (chunks : List PlacedChunk) : Nat :=
  match (executedSeparators env s chunks).getLast? with
  | none => s.separator
  | some c => c.offset + 1

theorem mem_executedSeparators {s : State} {chunks : List PlacedChunk} {c : PlacedChunk}
    (mem : c ∈ executedSeparators env s chunks) :
    c ∈ chunks ∧ c.chunk = .op Opcode.codeSeparator := by
  induction chunks generalizing s with
  | nil => cases mem
  | cons first chunks ih =>
    have further (later : c ∈ match step env first s with
        | .ok () s' => executedSeparators env s' chunks
        | .error _ _ => []) : c ∈ first :: chunks ∧ c.chunk = .op Opcode.codeSeparator := by
      split at later
      · obtain ⟨mem, separates⟩ := ih later
        exact ⟨List.mem_cons_of_mem _ mem, separates⟩
      · cases later
    simp only [executedSeparators] at mem
    split at mem
    next executed =>
      rcases List.mem_cons.mp mem with rfl | later
      · exact ⟨List.mem_cons_self, executed.2⟩
      · exact further later
    next => exact further mem

theorem separator_of_steps {s s' : State} {chunks : List PlacedChunk}
    (ran : steps env chunks s = .ok () s') : s'.separator = lastSeparator env s chunks := by
  induction chunks generalizing s with
  | nil =>
    rw [steps_nil_eq_ok_iff.mp ran]
    rfl
  | cons c chunks ih =>
    obtain ⟨between, stepped, rest⟩ := steps_cons_eq_ok_iff.mp ran
    have here := separator_of_step stepped
    rw [ih rest]
    simp only [lastSeparator, executedSeparators, stepped]
    split at here
    next executed =>
      rw [if_pos executed, List.getLast?_cons]
      cases (executedSeparators env between chunks).getLast? with
      | none => exact here
      | some last => rfl
    next other =>
      rw [if_neg other, here]

end Machine

end TokenLedger
