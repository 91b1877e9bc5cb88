import TokenLedger.Proofs.Machine.Checks
import TokenLedger.Proofs.Machine.Composition
import TokenLedger.Proofs.Machine.Operations
import TokenLedger.Proofs.Machine.Step

/-!
# Runs under fewer rules

Most flags only let a run fail where it would otherwise go on. Here two machines run in lockstep on
one script, the first under more rules than the second: as long as the first does not fail, the
second does the same. Two rules need care. The rule on low signatures turns a verdict around
instead of failing, so both machines have to agree on it; and enforcing lock times exempts a code
from the rule on reserved no-ops.
-/

namespace TokenLedger

namespace Flags

/-- Every bit of the first set is in the second one. -/
instance : HasSubset Flags := ⟨fun f g => f.bits &&& g.bits = f.bits⟩

instance (f g : Flags) : Decidable (f ⊆ g) := inferInstanceAs (Decidable (_ = _))

theorem has_of_subset {f g : Flags} (subset : f ⊆ g) {flag : Flag} (has : f.has flag = true) :
    g.has flag = true := by
  have bits : f.bits &&& g.bits = f.bits := subset
  simp only [Flags.has, bne_iff_ne, ne_eq] at has ⊢
  intro absent
  apply has
  rw [← bits, UInt32.and_assoc, absent, UInt32.and_zero]

/-- The rules of `f` are among those of `g`, and succeeding under `g` means the same under `f`. -/
structure Relaxes (f g : Flags) : Prop where
  subset : f ⊆ g
  lowS : f.has .lowS = g.has .lowS
  lockTime : f.has .discourageNops = true → g.has .checkLockTime = true →
    f.has .checkLockTime = true

variable {f g : Flags}

theorem Relaxes.has (relaxes : f.Relaxes g) {flag : Flag} (has : f.has flag = true) :
    g.has flag = true :=
  has_of_subset relaxes.subset has

theorem Relaxes.requiresMinimal (relaxes : f.Relaxes g) (required : f.requiresMinimal = true) :
    g.requiresMinimal = true :=
  relaxes.has required

theorem Relaxes.requiresCanonical (relaxes : f.Relaxes g) (required : f.requiresCanonical = true) :
    g.requiresCanonical = true := by
  simp only [Flags.requiresCanonical, Bool.or_eq_true] at required ⊢
  exact required.imp relaxes.has relaxes.has

end Flags

/-! ### What looks at no state -/

theorem ScriptNumber.decode_of_minimal {maxWidth : Nat} {lax strict : Bool} {bytes : Bytes}
    {n : Int} (weaker : lax = true → strict = true)
    (decoded : decode maxWidth strict bytes = .ok n) :
    decode maxWidth lax bytes = .ok n := by
  unfold decode at decoded ⊢
  split at decoded
  · cases decoded
  next fits =>
    rw [if_neg fits]
    split at decoded
    · cases decoded
    next minimal =>
      rw [if_neg]
      · exact decoded
      · simp only [Bool.and_eq_true] at minimal ⊢
        exact fun broken => minimal ⟨weaker broken.1, broken.2⟩

/-- Operands that are minimal are read by whoever does not ask for that. -/
theorem StackOp.apply_of_minimal {lax strict : Bool} {op : StackOp} {stack result : Stack}
    (weaker : lax = true → strict = true) (applied : op.apply strict stack = .ok result) :
    op.apply lax stack = .ok result := by
  have operand {bytes : Bytes} {n : Int} (reads : operand strict bytes = .ok n) :
      StackOp.operand lax bytes = .ok n :=
    ScriptNumber.decode_of_minimal weaker reads
  apply Applies.apply_eq_ok
  cases apply_eq_ok_iff.mp applied with
  | push => exact .push
  | shuffle moved => exact .shuffle moved
  | ifDup => exact .ifDup
  | depth => exact .depth
  | size => exact .size
  | pick reads found => exact .pick (operand reads) found
  | roll reads found => exact .roll (operand reads) found
  | verify good => exact .verify good
  | equal => exact .equal
  | equalVerify => exact .equalVerify
  | unary reads => exact .unary (operand reads)
  | binary readsSecond readsFirst => exact .binary (operand readsSecond) (operand readsFirst)
  | numEqualVerify readsSecond readsFirst =>
    exact .numEqualVerify (operand readsSecond) (operand readsFirst)
  | within readsUpper readsLower reads =>
    exact .within (operand readsUpper) (operand readsLower) (operand reads)
  | hash => exact .hash

namespace Environment

variable {context : Option SpendContext} {script : Script} {f g : Flags}

theorem checkEncodings_of_relaxes (relaxes : f.Relaxes g) {signature key : Bytes}
    (passed : checkEncodings ⟨context, script, g⟩ signature key = .ok ()) :
    checkEncodings ⟨context, script, f⟩ signature key = .ok () := by
  rw [checkEncodings_eq_ok_iff] at passed ⊢
  obtain ⟨signatureOk, keyOk⟩ := passed
  refine ⟨fun canonical present => ?_, fun strict => keyOk (relaxes.has strict)⟩
  have layout := signatureOk (relaxes.requiresCanonical canonical) present
  exact ⟨layout.1, fun strict => layout.2 (relaxes.has strict)⟩

/-- The verdict is the same, because the rule on low signatures is. -/
theorem checkSignature_of_relaxes (relaxes : f.Relaxes g) {connected : Script}
    {signature key : Bytes} {accepted : Bool}
    (checked : checkSignature ⟨context, script, g⟩ connected signature key = .ok accepted) :
    checkSignature ⟨context, script, f⟩ connected signature key = .ok accepted := by
  unfold checkSignature at checked ⊢
  refine except_bind_mono (fun _ => checkEncodings_of_relaxes relaxes) (fun _ rest => ?_) checked
  simpa only [relaxes.lowS] using rest

theorem checkLockTime_of_relaxes (relaxes : f.Relaxes g) {stack : Stack}
    (passed : checkLockTime ⟨context, script, g⟩ stack = .ok ()) :
    checkLockTime ⟨context, script, f⟩ stack = .ok () := by
  rw [checkLockTime_eq_ok_iff] at passed ⊢
  obtain ⟨top, rest, required, spend, input, same, decoded, others⟩ := passed
  exact ⟨top, rest, required, spend, input, same,
    ScriptNumber.decode_of_minimal relaxes.requiresMinimal decoded, others⟩

end Environment

/-! ### One chunk -/

namespace Machine

/-- As long as the first action does not fail, the second does the same. -/
def Refines {α : Type} (m n : MachineM α) : Prop :=
  ∀ s value s', m s = .ok value s' → n s = .ok value s'

namespace Refines

variable {α β : Type} {m n : MachineM α}

theorem refl (m : MachineM α) : Refines m m := fun _ _ _ run => run

theorem bind {next next' : α → MachineM β} (head : Refines m n)
    (tail : ∀ value, Refines (next value) (next' value)) : Refines (m >>= next) (n >>= next') := by
  intro s value s' run
  obtain ⟨first, between, ran, rest⟩ := estate_bind_eq_ok.mp run
  exact estate_bind_eq_ok.mpr ⟨first, between, head _ _ _ ran, tail _ _ _ _ rest⟩

/-- A guard that blocks less, or not at all, lets through what another one did. -/
theorem guard {blocks blocks' : Prop} [Decidable blocks] [Decidable blocks']
    {stop stop' : MachineM α}
    (fewer : blocks' → blocks) (go : Refines m n)
    (halts : ∀ s value s', stop s ≠ .ok value s' := by intro _ _ _ impossible; cases impossible) :
    Refines (if blocks then stop else m) (if blocks' then stop' else n) := by
  intro s value s' run
  by_cases blocked : blocks
  · rw [if_pos blocked] at run
    exact absurd run (halts s value s')
  · rw [if_neg blocked] at run
    rw [if_neg (fun also => blocked (fewer also))]
    exact go s value s' run

end Refines

theorem onStack_refines {act act' : Stack → Except Error Stack}
    (weaker : ∀ stack result, act stack = .ok result → act' stack = .ok result) :
    Refines (onStack act) (onStack act') := by
  intro s value s' run
  rw [onStack_eq_ok_iff] at run ⊢
  obtain ⟨stack, applied, changed⟩ := run
  exact ⟨stack, weaker _ _ applied, changed⟩

section

variable {context : Option SpendContext} {script : Script} {f g : Flags}

theorem checkRecorded_refines (relaxes : f.Relaxes g) (connected : Script) (signature key : Bytes) :
    Refines (checkRecorded ⟨context, script, g⟩ connected signature key)
      (checkRecorded ⟨context, script, f⟩ connected signature key) := by
  intro s value s' run
  unfold checkRecorded at run ⊢
  cases verdict : Environment.checkSignature ⟨context, script, g⟩ connected signature key with
  | error e =>
    rw [verdict] at run
    cases run
  | ok accepted =>
    rw [verdict] at run
    rw [Environment.checkSignature_of_relaxes relaxes verdict]
    exact run

theorem checkSig_refines (relaxes : f.Relaxes g) :
    Refines (checkSig ⟨context, script, g⟩) (checkSig ⟨context, script, f⟩) := by
  intro s value s' run
  rcases taken : s.stack with _ | ⟨key, _ | ⟨signature, stack⟩⟩
  · simp [checkSig, taken] at run
  · simp [checkSig, taken] at run
  · simp only [checkSig, taken] at run ⊢
    exact checkRecorded_refines relaxes _ _ _ _ _ _ run

theorem popCount_refines (relaxes : f.Relaxes g) (maximum : Nat) (cause : ScriptError) :
    Refines (popCount ⟨context, script, g⟩ maximum cause)
      (popCount ⟨context, script, f⟩ maximum cause) := by
  refine .bind (.refl _) fun bytes => ?_
  intro s value s' run
  dsimp only at run ⊢
  cases decoded : StackOp.operand g.requiresMinimal bytes with
  | error e =>
    rw [decoded] at run
    cases run
  | ok n =>
    have lax : StackOp.operand f.requiresMinimal bytes = .ok n :=
      ScriptNumber.decode_of_minimal relaxes.requiresMinimal decoded
    rw [decoded] at run
    rw [lax]
    exact run

theorem Refines.compositional : Compositional (fun _ => Refines) where
  pure _ := .refl _
  fault _ := .refl _
  bind := .bind

theorem Refines.relatesChecks (relaxes : f.Relaxes g) :
    RelatesChecks (fun _ => Refines) ⟨context, script, g⟩ ⟨context, script, f⟩ where
  toCompositional := compositional
  pop := .refl _
  popCount := popCount_refines relaxes
  popBelowOne _ := .refl _
  countOperations _ := .refl _
  atSeparator _ _ each := .bind (.refl _) fun _ => each _
  checkRecorded _ _ := checkRecorded_refines relaxes _
  rejectDummy _ _ := .guard (fun blocked => by
    simp only [Bool.and_eq_true] at blocked ⊢
    exact ⟨relaxes.has blocked.1, blocked.2⟩) (.refl _)

/-- Lock times and reserved no-ops share a code, so here both rules matter at once. -/
theorem execute_checkLockTime_refines (relaxes : f.Relaxes g) (code : UInt8) (offset : Nat) :
    Refines (execute ⟨context, script, g⟩ code offset .checkLockTime)
      (execute ⟨context, script, f⟩ code offset .checkLockTime) := by
  simp only [execute]
  cases strict : g.has .checkLockTime with
  | true =>
    intro s value s' run
    rw [if_pos rfl, onStack_checkLockTime_eq_ok_iff] at run
    obtain ⟨passed, rfl⟩ := run
    cases lax : f.has .checkLockTime with
    | true =>
      rw [if_pos rfl, onStack_checkLockTime_eq_ok_iff]
      exact ⟨Environment.checkLockTime_of_relaxes relaxes passed, rfl⟩
    | false =>
      -- Without the rule the code does nothing, as the check did.
      have tolerated : f.has .discourageNops = false := by
        refine Bool.eq_false_iff.mpr fun discouraged => ?_
        rw [relaxes.lockTime discouraged strict] at lax
        cases lax
      rw [if_neg Bool.false_ne_true, tolerated, if_neg Bool.false_ne_true]
      rfl
  | false =>
    have lax : f.has .checkLockTime = false := by
      refine Bool.eq_false_iff.mpr fun enforced => ?_
      rw [relaxes.has enforced] at strict
      cases strict
    rw [lax, if_neg Bool.false_ne_true, if_neg Bool.false_ne_true]
    exact .guard relaxes.has (.refl _)

theorem execute_refines (relaxes : f.Relaxes g) (code : UInt8) (offset : Nat)
    (instruction : Instruction) :
    Refines (execute ⟨context, script, g⟩ code offset instruction)
      (execute ⟨context, script, f⟩ code offset instruction) := by
  cases instruction with
  | stack op =>
    exact onStack_refines fun _ _ => StackOp.apply_of_minimal relaxes.requiresMinimal
  | checkSig verify => exact .bind (checkSig_refines relaxes) fun _ => .refl _
  | checkMultiSig verify => exact .bind (Refines.relatesChecks relaxes).checkMultiSig fun _ => .refl _
  | checkLockTime => exact execute_checkLockTime_refines relaxes code offset
  | reservedNop => exact .guard relaxes.has (.refl _)
  | _ => exact .refl _

theorem stepPush_refines (relaxes : f.Relaxes g) (chunk : Chunk) (data : Bytes) :
    Refines (stepPush ⟨context, script, g⟩ chunk data)
      (stepPush ⟨context, script, f⟩ chunk data) := by
  refine .guard id (.bind (.refl _) fun s => ?_)
  split
  · refine .guard (fun blocked => ?_) (.refl _)
    simp only [Bool.and_eq_true] at blocked ⊢
    exact ⟨relaxes.requiresMinimal blocked.1, blocked.2⟩
  · exact .refl _

theorem stepCode_refines (relaxes : f.Relaxes g) (code : UInt8) (offset : Nat) :
    Refines (stepCode ⟨context, script, g⟩ code offset)
      (stepCode ⟨context, script, f⟩ code offset) := by
  have rest : Refines
      (get >>= fun s => if (s.isActive || takesEffectWhenSkipped (Instruction.ofCode code)) = true
        then execute ⟨context, script, g⟩ code offset (Instruction.ofCode code) else pure ())
      (get >>= fun s => if (s.isActive || takesEffectWhenSkipped (Instruction.ofCode code)) = true
        then execute ⟨context, script, f⟩ code offset (Instruction.ofCode code) else pure ()) := by
    refine .bind (.refl _) fun s => ?_
    split
    · exact execute_refines relaxes code offset _
    · exact .refl _
  unfold stepCode
  split
  · exact .bind (.refl _) fun _ => rest
  · exact rest

/-- One chunk, limits included. -/
theorem step_refines (relaxes : f.Relaxes g) (c : PlacedChunk) :
    Refines (step ⟨context, script, g⟩ c) (step ⟨context, script, f⟩ c) := by
  unfold step
  cases c.chunk with
  | op code => exact .bind (stepCode_refines relaxes code c.offset) fun _ => .refl _
  | push code data => exact .bind (stepPush_refines relaxes _ data) fun _ => .refl _

/-- Any number of chunks. -/
theorem steps_refines (relaxes : f.Relaxes g) (chunks : List PlacedChunk) :
    Refines (steps ⟨context, script, g⟩ chunks) (steps ⟨context, script, f⟩ chunks) := by
  induction chunks with
  | nil => exact .refl _
  | cons c chunks ih => exact .bind (step_refines relaxes c) fun _ => ih

theorem run_refines (relaxes : f.Relaxes g) :
    Refines (run ⟨context, script, g⟩) (run ⟨context, script, f⟩) :=
  .bind (steps_refines relaxes script.chunks) fun _ => .refl _

end

end Machine

/-- A script leaves the same stack under fewer rules. -/
theorem Script.execute_of_relaxes {f g : Flags} (relaxes : f.Relaxes g) {script : Script}
    {context : Option SpendContext} {stack final : Stack}
    (ran : script.execute context g stack = .ok final) :
    script.execute context f stack = .ok final := by
  unfold execute at ran ⊢
  split at ran
  next s run =>
    rw [Machine.run_refines relaxes _ _ _ run]
    exact ran
  · cases ran

end TokenLedger
