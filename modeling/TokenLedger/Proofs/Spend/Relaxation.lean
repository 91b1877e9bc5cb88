import Mathlib
import TokenLedger.Proofs.Machine.Relaxation
import TokenLedger.Proofs.Spend.Verdict

/-!
# Spends under fewer rules

Rules only take spends away. The stages of a verification are runs and guards; under fewer rules
the runs leave the same stacks, and the guards that are left block no more.
-/

namespace TokenLedger.Spend

variable {f g : Flags}

theorem runRedeem_of_relaxes (relaxes : f.Relaxes g) {context : SpendContext} {unlocking : Script}
    {stack final : Stack} (ran : runRedeem context g unlocking stack = .ok final) :
    runRedeem context f unlocking stack = .ok final := by
  rw [runRedeem_eq_ok_iff] at ran ⊢
  obtain ⟨pushes, program, arguments, redeem, top, parsed, executed, good⟩ := ran
  exact ⟨pushes, program, arguments, redeem, top, parsed,
    Script.execute_of_relaxes relaxes executed, good⟩

/-- The second verification may skip the redeem script, and then looks at no final stack. -/
theorem verify_of_relaxes (relaxes : f.Relaxes g) {unlocking locking : Script} {tx : Transaction}
    {index : Nat} (authorized : verify unlocking tx index locking g = .ok ()) :
    verify unlocking tx index locking f = .ok () := by
  rw [verify_eq_ok_iff] at authorized ⊢
  obtain ⟨inRange, small, alsoSmall, pushes, unlocked, stack, final, first, second, good, third,
    clean⟩ := authorized
  have unlocked' := Script.execute_of_relaxes relaxes first
  have stack' := Script.execute_of_relaxes relaxes second
  have pushes' : f.has .pushOnly = true → unlocking.isPushOnly = true :=
    fun required => pushes (relaxes.has required)
  cases redeems : f.has .scriptHash with
  | false =>
    exact ⟨inRange, small, alsoSmall, pushes', unlocked, stack, stack, unlocked', stack', good,
      by simp, fun absent => by simp at absent⟩
  | true =>
    rw [relaxes.has redeems] at third clean
    refine ⟨inRange, small, alsoSmall, pushes', unlocked, stack, final, unlocked', stack', good,
      ?_, fun _ required => clean rfl (relaxes.has required)⟩
    split at third
    next hashed => rw [if_pos hashed]; exact runRedeem_of_relaxes relaxes third
    next plain => rw [if_neg plain]; exact third

/-- Switching rules on never authorizes a spend and never changes what a script leaves. The rule on
low signatures has to stay as it is, and a script that is told not to use reserved no-ops must not
lose the meaning of one. -/
theorem rules_only_restrict (f g : Flags) (subset : f ⊆ g) (lowS : f.has .lowS = g.has .lowS)
    (lockTime : f.has .discourageNops = true → g.has .checkLockTime = true →
      f.has .checkLockTime = true) :
    (∀ (unlocking locking : Script) (tx : Transaction) (index : Nat),
      verify unlocking tx index locking g = .ok () →
        verify unlocking tx index locking f = .ok ()) ∧
    ∀ (script : Script) (context : Option SpendContext) (stack final : Stack),
      script.execute context g stack = .ok final → script.execute context f stack = .ok final := by
  have relaxes : f.Relaxes g := ⟨subset, lowS, lockTime⟩
  exact ⟨fun _ _ _ _ => verify_of_relaxes relaxes, fun _ _ _ _ =>
    Script.execute_of_relaxes relaxes⟩

/-- Spends one output, from height 500 on. -/
def heightLocked : Transaction where
  version := 1
  inputs := [⟨⟨FixedBytes.zero 32, 0⟩, [], 0⟩]
  outputs := []
  lockTime := 500
  memo := none
  dataClassName := none
  data := none
  dataSignature := none

/-- Demands height 5 and that no keys check no signatures. -/
def demandHeight : Script :=
  .assemble [.op 0x55, .op Opcode.checkLockTimeVerify, .op Opcode.drop, .push Opcode.empty [],
    .push Opcode.empty [], .op Opcode.checkMultiSig]

theorem rules_only_restrict_at_height :
    let f := Flags.ofList [.nullDummy, .discourageNops, .checkLockTime]
    let g := Flags.ofList [.scriptHash, .strictEncoding, .nullDummy, .pushOnly, .minimalData,
      .discourageNops, .cleanStack, .checkLockTime]
    let unlocking := Script.assemble [.push Opcode.empty []]
    f ⊆ g ∧ f.has .lowS = g.has .lowS ∧
      (f.has .discourageNops = true → g.has .checkLockTime = true →
        f.has .checkLockTime = true) ∧
      verify unlocking heightLocked 0 demandHeight g = .ok () ∧
      verify unlocking heightLocked 0 demandHeight f = .ok () ∧
      demandHeight.execute (some ⟨heightLocked, 0⟩) g [[]] = .ok [[1]] ∧
      demandHeight.execute (some ⟨heightLocked, 0⟩) f [[]] = .ok [[1]] := by
  intro f g unlocking
  have subset : f ⊆ g := by decide
  have lowS : f.has .lowS = g.has .lowS := by decide
  have lockTime : f.has .discourageNops = true → g.has .checkLockTime = true →
      f.has .checkLockTime = true := by decide
  obtain ⟨spends, runs⟩ := rules_only_restrict f g subset lowS lockTime
  have authorized : verify unlocking heightLocked 0 demandHeight g = .ok () := by cbv
  have left : demandHeight.execute (some ⟨heightLocked, 0⟩) g [[]] = .ok [[1]] := by cbv
  exact ⟨subset, lowS, lockTime, authorized, spends _ _ _ _ authorized, left, runs _ _ _ _ left⟩

end TokenLedger.Spend
