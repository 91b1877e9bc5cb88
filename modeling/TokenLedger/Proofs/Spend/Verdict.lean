import TokenLedger.Proofs.Outcome
import TokenLedger.Spend

/-!
# Verdicts on spends

When a spend is authorized: the guards of a verification, the runs between them and the stacks that
they hand on, as one condition.
-/

namespace TokenLedger

theorem Script.isPushOnly_iff (script : Script) :
    script.isPushOnly = true ↔ ∀ c ∈ script.chunks, c.code ≤ Opcode.sixteen := by
  simp [isPushOnly, Chunk.isPush, PlacedChunk.code]

/-- A program that starts with another code is not of a script that pays to a script hash. -/
theorem Script.isScriptHash_of_start {script : Script} {code : UInt8}
    (start : script.program.head? = some code) (other : code ≠ Opcode.hash160) :
    script.isScriptHash = false := by
  obtain ⟨rest, program⟩ := List.head?_eq_some_iff.mp start
  unfold isScriptHash scriptHash?
  rw [program]
  cases rest <;> simp [other]

/-- A verdict on top of the stack decides. -/
@[simp] theorem Stack.isTrue_ofBool_cons (accepted : Bool) (rest : Stack) :
    Stack.isTrue (ScriptNumber.ofBool accepted :: rest) = accepted := by
  cases accepted <;> rfl

namespace Spend

theorem requireTrue_eq_ok_iff (stack : Stack) :
    requireTrue stack = .ok () ↔ stack.isTrue = true := by
  unfold requireTrue
  cases stack.isTrue <;> simp

/-- A redeem script is the top of what only pushes have built, and runs on the rest. -/
theorem runRedeem_eq_ok_iff {context : SpendContext} {flags : Flags} {unlocking : Script}
    {stack final : Stack} :
    runRedeem context flags unlocking stack = .ok final ↔
      unlocking.isPushOnly = true ∧
      ∃ program arguments redeem, stack = program :: arguments ∧
        Script.parse program = .ok redeem ∧
        redeem.execute (some context) flags arguments = .ok final ∧ final.isTrue = true := by
  unfold runRedeem
  rw [guard_bind_eq_ok]
  cases stack with
  | nil => simp [throw, throwThe, MonadExceptOf.throw]
  | cons program arguments =>
    simp only [except_bind_eq_ok, except_pure_eq_ok]
    constructor
    · rintro ⟨pushes, redeem, parsed, final, ran, _, good, rfl⟩
      exact ⟨by simpa using pushes, program, arguments, redeem, rfl, parsed, ran,
        (requireTrue_eq_ok_iff _).mp good⟩
    · rintro ⟨pushes, _, _, redeem, same, parsed, ran, good⟩
      cases same
      exact ⟨by simpa using pushes, redeem, parsed, final, ran, (),
        (requireTrue_eq_ok_iff _).mpr good, rfl⟩

/-- The final stack of a spend is that of the redeem script where one was run. -/
theorem verify_eq_ok_iff {unlocking locking : Script} {tx : Transaction} {index : Nat}
    {flags : Flags} :
    verify unlocking tx index locking flags = .ok () ↔
      index < tx.inputs.length ∧
      unlocking.length ≤ Limits.scriptSize ∧ locking.length ≤ Limits.scriptSize ∧
      (flags.has .pushOnly = true → unlocking.isPushOnly = true) ∧
      ∃ unlocked stack final,
        unlocking.execute (some ⟨tx, index⟩) flags [] = .ok unlocked ∧
        locking.execute (some ⟨tx, index⟩) flags unlocked = .ok stack ∧ stack.isTrue = true ∧
        (if flags.has .scriptHash && locking.isScriptHash then
          runRedeem ⟨tx, index⟩ flags unlocking unlocked = .ok final
        else final = stack) ∧
        (flags.has .scriptHash = true → flags.has .cleanStack = true → final.length = 1) := by
  have clean (final : Stack) :
      (if (flags.has .scriptHash && flags.has .cleanStack && final.length != 1) = true then
        throw (.evaluation .stackNotClean) else pure ()) = Except.ok (ε := Error) () ↔
      (flags.has .scriptHash = true → flags.has .cleanStack = true → final.length = 1) := by
    rw [guard_eq_ok, except_pure_eq_ok]
    cases flags.has .scriptHash <;> cases flags.has .cleanStack <;> simp
  unfold verify
  cases redeemed : flags.has .scriptHash && locking.isScriptHash with
  | true =>
    simp only [guard_bind_eq_ok, except_bind_eq_ok, clean, if_true]
    constructor
    · rintro ⟨inRange, sizes, pushes, unlocked, first, stack, second, _, good, final, third, last⟩
      exact ⟨by omega, by omega, by omega, by simpa using pushes, unlocked, stack, final, first,
        second, (requireTrue_eq_ok_iff _).mp good, third, last⟩
    · rintro ⟨inRange, small, alsoSmall, pushes, unlocked, stack, final, first, second, good, third,
        last⟩
      exact ⟨by omega, by omega, by simpa using pushes, unlocked, first, stack, second, (),
        (requireTrue_eq_ok_iff _).mpr good, final, third, last⟩
  | false =>
    simp only [guard_bind_eq_ok, except_bind_eq_ok, clean, Bool.false_eq_true, if_false,
      except_pure_eq_ok]
    constructor
    · rintro ⟨inRange, sizes, pushes, unlocked, first, stack, second, _, good, _, rfl, last⟩
      exact ⟨by omega, by omega, by omega, by simpa using pushes, unlocked, stack, stack, first,
        second, (requireTrue_eq_ok_iff _).mp good, rfl, last⟩
    · rintro ⟨inRange, small, alsoSmall, pushes, unlocked, stack, _, first, second, good, rfl, last⟩
      exact ⟨by omega, by omega, by simpa using pushes, unlocked, first, _, second, (),
        (requireTrue_eq_ok_iff _).mpr good, _, rfl, last⟩

/-- Where the output does not pay to a script hash there are two runs only. -/
theorem verify_eq_ok_iff_of_plain {unlocking locking : Script} {tx : Transaction} {index : Nat}
    {flags : Flags} (plain : locking.isScriptHash = false) :
    verify unlocking tx index locking flags = .ok () ↔
      index < tx.inputs.length ∧
      unlocking.length ≤ Limits.scriptSize ∧ locking.length ≤ Limits.scriptSize ∧
      (flags.has .pushOnly = true → unlocking.isPushOnly = true) ∧
      ∃ unlocked stack,
        unlocking.execute (some ⟨tx, index⟩) flags [] = .ok unlocked ∧
        locking.execute (some ⟨tx, index⟩) flags unlocked = .ok stack ∧ stack.isTrue = true ∧
        (flags.has .scriptHash = true → flags.has .cleanStack = true → stack.length = 1) := by
  have noRedeem : (flags.has .scriptHash && locking.isScriptHash) = false := by
    rw [plain, Bool.and_false]
  simp only [verify_eq_ok_iff, noRedeem, Bool.false_eq_true, if_false]
  constructor
  · rintro ⟨inRange, small, alsoSmall, pushes, unlocked, _, stack, first, second, good, rfl, clean⟩
    exact ⟨inRange, small, alsoSmall, pushes, unlocked, stack, first, second, good, clean⟩
  · rintro ⟨inRange, small, alsoSmall, pushes, unlocked, stack, first, second, good, clean⟩
    exact ⟨inRange, small, alsoSmall, pushes, unlocked, stack, stack, first, second, good, rfl,
      clean⟩

end Spend

end TokenLedger
