import Mathlib
import TokenLedger.Proofs.Machine.Step
import TokenLedger.Proofs.Script.Templates
import TokenLedger.Proofs.Spend.Verdict

/-!
# Paying to a script hash

An output that pays to a script hash is spent by the script with that hash. What authorizes the
spend is said here without the outer script: the run of the unlocking script, the hash of what it
left on top, and the run of that as a script on the rest.
-/

namespace TokenLedger

namespace Script

variable {hash : Hash160}

theorem length_payToScriptHash : (payToScriptHash hash).length = 23 := by
  simp [length, program_payToScriptHash, hash.property]

theorem hash160_apply_eq_ok_iff {minimal : Bool} {stack result : Stack} :
    (StackOp.hash .hash160).apply minimal stack = .ok result ↔
      ∃ top rest, stack = top :: rest ∧ result = (Hash.hash160 top).val :: rest := by
  cases stack with
  | nil => simp [StackOp.apply]
  | cons top rest => simp [StackOp.apply, HashOp.apply, eq_comm]

/-- The script replaces the top by whether it has the hash, for which it needs room for one element
more. -/
theorem execute_payToScriptHash_eq_ok_iff {context : Option SpendContext} {flags : Flags}
    {stack final : Stack} :
    (payToScriptHash hash).execute context flags stack = .ok final ↔
      ∃ top rest, stack = top :: rest ∧ stack.length < Limits.stackSize ∧
        final = ScriptNumber.ofBool (decide (Hash.hash160 top = hash)) :: rest := by
  have small : hash.val.length ≤ Limits.elementSize := by
    rw [hash.property]
    decide
  have shortest : (Chunk.push 20 hash.val).isShortestPush = true := by
    have data : (Chunk.ofData hash.val).isShortestPush = true :=
      Chunk.isShortestPush_ofData (by rw [hash.property]; decide)
    rwa [Chunk.ofData, hash.property] at data
  have verdict (top : Bytes) :
      (hash.val == (Hash.hash160 top).val) = decide (Hash.hash160 top = hash) := by
    rw [Bool.eq_iff_iff, beq_iff_eq, decide_eq_true_eq, Subtype.ext_iff, eq_comm]
  have chunks : (payToScriptHash hash).chunks =
      place 0 [.op Opcode.hash160, .push 20 hash.val, .op Opcode.equal] := by
    rw [payToScriptHash_eq]
    rfl
  rw [execute_eq_ok_iff, chunks]
  simp only [place, Machine.steps_cons_eq_ok_iff, Machine.steps_nil_eq_ok_iff]
  constructor
  · rintro ⟨_, ⟨hashed, first, pushed, second, compared, third, rfl⟩, -, rfl⟩
    rw [Machine.step_stackOp_of_active rfl (by decide) rfl] at first
    obtain ⟨-, _, applied, -, rfl⟩ := first
    obtain ⟨top, rest, taken, rfl⟩ := hash160_apply_eq_ok_iff.mp applied
    rw [Machine.step_push_of_active rfl] at second
    obtain ⟨-, -, room, rfl⟩ := second
    rw [Machine.step_stackOp_of_active rfl (by decide) rfl] at third
    obtain ⟨-, _, equal, -, rfl⟩ := third
    cases equal
    refine ⟨top, rest, taken, ?_, by rw [verdict]⟩
    rw [show stack = top :: rest from taken, List.length_cons]
    simp only [List.length_cons, List.length_nil] at room
    omega
  · rintro ⟨top, rest, rfl, room, rfl⟩
    rw [List.length_cons] at room
    let env : Environment := ⟨context, payToScriptHash hash, flags⟩
    have first (offset : Nat) : Machine.step env ⟨.op Opcode.hash160, offset⟩
        { stack := top :: rest } =
          .ok () { stack := (Hash.hash160 top).val :: rest, operations := 1 } :=
      (Machine.step_stackOp_of_active rfl (by decide) rfl).mpr
        ⟨Nat.le_of_ble_eq_true rfl, _, rfl, room.le, rfl⟩
    have second (offset : Nat) : Machine.step env ⟨.push 20 hash.val, offset⟩
        { stack := (Hash.hash160 top).val :: rest, operations := 1 } =
          .ok () { stack := hash.val :: (Hash.hash160 top).val :: rest, operations := 1 } :=
      (Machine.step_push_of_active rfl).mpr ⟨small, fun _ => shortest, room, rfl⟩
    have third (offset : Nat) : Machine.step env ⟨.op Opcode.equal, offset⟩
        { stack := hash.val :: (Hash.hash160 top).val :: rest, operations := 1 } =
          .ok () { stack := ScriptNumber.ofBool (hash.val == (Hash.hash160 top).val) :: rest,
                   operations := 2 } :=
      (Machine.step_stackOp_of_active rfl (by decide) rfl).mpr
        ⟨Nat.le_of_ble_eq_true rfl, _, rfl, room.le, rfl⟩
    exact ⟨_, ⟨_, first _, _, second _, _, third _, rfl⟩, rfl, by rw [verdict]⟩

end Script

namespace Spend

/-- Where everything runs and one element is left, the verdict is on that. -/
theorem verify_scriptHash_of_runs {unlocking redeem : Script} {tx : Transaction} {index : Nat}
    {flags : Flags} {program : Bytes} {arguments : Stack} {left : Bytes}
    (inRange : index < tx.inputs.length) (small : unlocking.length ≤ Limits.scriptSize)
    (redeems : flags.has .scriptHash = true) (pushes : unlocking.isPushOnly = true)
    (unlocked : unlocking.execute (some ⟨tx, index⟩) flags [] = .ok (program :: arguments))
    (room : arguments.length + 1 < Limits.stackSize)
    (parsed : Script.parse program = .ok redeem)
    (ran : redeem.execute (some ⟨tx, index⟩) flags arguments = .ok [left]) :
    verify unlocking tx index (Script.payToScriptHash (Hash.hash160 program)) flags =
      requireTrue [left] := by
  have outerSmall : (Script.payToScriptHash (Hash.hash160 program)).length ≤ Limits.scriptSize := by
    rw [Script.length_payToScriptHash]
    decide
  have outer : (Script.payToScriptHash (Hash.hash160 program)).execute (some ⟨tx, index⟩) flags
      (program :: arguments) = .ok ([1] :: arguments) :=
    Script.execute_payToScriptHash_eq_ok_iff.mpr
      ⟨program, arguments, rfl, room, by rw [decide_eq_true rfl]; rfl⟩
  have pushed : ¬ (!unlocking.isPushOnly) = true := by rw [pushes]; decide
  have sizes : ¬ (Limits.scriptSize < unlocking.length ∨
      Limits.scriptSize < (Script.payToScriptHash (Hash.hash160 program)).length) := by omega
  have inner : runRedeem ⟨tx, index⟩ flags unlocking (program :: arguments) =
      (do requireTrue [left]; return [left]) := by
    rw [runRedeem, if_neg pushed]
    simp only [parsed]
    rw [except_bind_of_ok rfl, except_bind_of_ok ran]
  have clean : ¬ (true && flags.has .cleanStack && [left].length != 1) = true := by simp
  rw [verify, if_neg (Nat.not_le.mpr inRange)]
  dsimp only
  rw [if_neg sizes, if_neg (by simp [pushes]), except_bind_of_ok unlocked,
    except_bind_of_ok outer]
  have hashed : requireTrue ([1] :: arguments) = .ok () := rfl
  rw [except_bind_of_ok hashed]
  simp only [redeems, Script.isScriptHash_payToScriptHash, Bool.and_self, if_true, inner]
  cases verdict : requireTrue [left] with
  | error e => rfl
  | ok =>
    have final : (do Except.ok (ε := Error) (); return [left] : Except Error Stack) = .ok [left] :=
      rfl
    rw [except_bind_of_ok final, if_neg clean]
    rfl

/-- A spend is authorized by the script with the hash on what the unlocking script pushed below it,
and by nothing else: the stack of the outer script matters only for the hash. -/
theorem spends_scriptHash_iff {unlocking locking : Script} {tx : Transaction} {index : Nat}
    {flags : Flags} {hash : Hash160} (small : unlocking.length ≤ Limits.scriptSize)
    (pays : locking = Script.payToScriptHash hash ∨
      Script.parse (Script.payToScriptHash hash).program = .ok locking)
    (inRange : index < tx.inputs.length) (redeems : flags.has .scriptHash = true) :
    verify unlocking tx index locking flags = .ok () ↔
      (∀ c ∈ unlocking.chunks, c.code ≤ Opcode.sixteen) ∧
      ∃ stack top arguments redeem final,
        unlocking.execute (some ⟨tx, index⟩) flags [] = .ok stack ∧
        1 ≤ stack.length ∧ stack.length ≤ 999 ∧ stack = top :: arguments ∧
        Hash.hash160 top = hash ∧
        Script.parse top = .ok redeem ∧
        redeem.execute (some ⟨tx, index⟩) flags arguments = .ok final ∧ final.isTrue = true ∧
        (flags.has .cleanStack = true → final.length = 1) := by
  have outer : locking = Script.payToScriptHash hash := by
    rcases pays with same | parsed
    · exact same
    · rw [Script.parse_payToScriptHash] at parsed
      exact (Except.ok.inj parsed).symm
  subst outer
  have outerSmall : (Script.payToScriptHash hash).length ≤ Limits.scriptSize := by
    rw [Script.length_payToScriptHash]
    decide
  have pushes : unlocking.isPushOnly = true ↔ ∀ c ∈ unlocking.chunks, c.code ≤ Opcode.sixteen := by
    simp [Script.isPushOnly, Chunk.isPush, PlacedChunk.code]
  simp only [verify_eq_ok_iff, Script.execute_payToScriptHash_eq_ok_iff, runRedeem_eq_ok_iff,
    Script.isScriptHash_payToScriptHash, redeems, Bool.and_self, if_true, true_implies, pushes]
  constructor
  · rintro ⟨-, -, -, -, stack, _, final, unlocked, ⟨top, rest, taken, room, rfl⟩, hashed,
      ⟨onlyPushes, program, arguments, redeem, same, parsed, ran, good⟩, clean⟩
    rw [taken] at same room
    cases same
    have matching : Hash.hash160 top = hash := by
      by_contra other
      rw [decide_eq_false other] at hashed
      cases hashed
    refine ⟨onlyPushes, stack, top, rest, redeem, final, unlocked, ?_, ?_, taken, matching, parsed,
      ran, good, clean⟩
    · simp [taken]
    · rw [taken]
      exact Nat.le_of_lt_succ room
  · rintro ⟨onlyPushes, stack, top, arguments, redeem, final, unlocked, -, room, rfl, matching,
      parsed, ran, good, clean⟩
    refine ⟨inRange, small, outerSmall, fun _ => onlyPushes, top :: arguments, _, final, unlocked,
      ⟨top, arguments, rfl, Nat.lt_succ_of_le room, rfl⟩, ?_,
      ⟨onlyPushes, top, arguments, redeem, rfl, parsed, ran, good⟩, clean⟩
    rw [decide_eq_true matching]
    rfl

/-- Spends one output, at any time. -/
def plainSpend : Transaction where
  version := 1
  inputs := [⟨⟨FixedBytes.zero 32, 0⟩, [], Input.finalSequence⟩]
  outputs := []
  lockTime := 0
  memo := none
  dataClassName := none
  data := none
  dataSignature := none

/-- The script that only pushes the number one, spent by pushing it. -/
theorem spends_scriptHash_iff_one :
    let redeem : Bytes := [Opcode.one]
    let locking := Script.payToScriptHash (Hash.hash160 redeem)
    let unlocking := Script.assemble [.push 1 redeem]
    let flags := Flags.ofList [.scriptHash, .cleanStack]
    unlocking.length ≤ Limits.scriptSize ∧ 0 < plainSpend.inputs.length ∧
      flags.has .scriptHash = true ∧ verify unlocking plainSpend 0 locking flags = .ok () := by
  intro redeem locking unlocking flags
  have small : unlocking.length ≤ Limits.scriptSize := by decide
  have inRange : 0 < plainSpend.inputs.length := by decide
  have redeems : flags.has .scriptHash = true := by decide
  have pushes : ∀ c ∈ unlocking.chunks, c.code ≤ Opcode.sixteen := by decide
  have pushed : unlocking.execute (some ⟨plainSpend, 0⟩) flags [] = .ok [redeem] := by cbv
  have parsed : Script.parse redeem = .ok (.assemble [.op Opcode.one]) := by cbv
  have ran : (Script.assemble [.op Opcode.one]).execute (some ⟨plainSpend, 0⟩) flags [] =
      .ok [[1]] := by cbv
  refine ⟨small, inRange, redeems, (spends_scriptHash_iff small (.inl rfl) inRange redeems).mpr ?_⟩
  exact ⟨pushes, [redeem], redeem, [], _, [[1]], pushed, by decide, by decide, rfl, rfl, parsed,
    ran, by decide, fun _ => rfl⟩

end Spend

end TokenLedger
