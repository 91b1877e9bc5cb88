import TokenLedger.Proofs.Machine.Failures
import TokenLedger.Proofs.ScriptNumber
import TokenLedger.Proofs.Spend.ScriptHash

/-!
# What a spend fails with

A verification says that there is no such input, that a rule of execution was broken, or that the
redeem script is no program. The last can only be said once everything before the redeem script was
found to be in order.
-/

namespace TokenLedger

/-! ### Parsing -/

namespace Script

theorem parse_failsOnly (program : Bytes) : FailsOnly Error.IsScriptParse (parse program) := by
  intro e failed
  obtain ⟨offset, fault, same, -⟩ := failure_of_parse failed
  exact ⟨offset, fault, same⟩

/-- The bytes of a false value are a program: they push empty strings, and may end in a code. -/
theorem exists_parse_of_not_isTrue {bytes : Bytes} (false : ScriptNumber.isTrue bytes = false) :
    ∃ s, parse bytes = .ok s := by
  suffices chunked : ∃ chunks : List Chunk, (∀ chunk ∈ chunks, chunk.WellFormed) ∧
      bytes = chunks.flatMap Chunk.encode by
    obtain ⟨chunks, good, rfl⟩ := chunked
    exact ⟨_, parse_assemble good⟩
  have zero : (Chunk.push 0 []).WellFormed := .direct (by decide) rfl
  fun_induction ScriptNumber.isTrue bytes with
  | case1 => exact ⟨[], by simp, rfl⟩
  | case2 last =>
    rw [Bool.and_eq_false_iff, bne_eq_false_iff_eq, bne_eq_false_iff_eq] at false
    rcases false with rfl | rfl
    · exact ⟨[.push 0 []], List.forall_mem_singleton.mpr zero, rfl⟩
    · exact ⟨[.op 0x80], List.forall_mem_singleton.mpr (.op (by decide)), rfl⟩
  | case3 b bytes _ ih =>
    rw [Bool.or_eq_false_iff, bne_eq_false_iff_eq] at false
    obtain ⟨rfl, restFalse⟩ := false
    obtain ⟨chunks, good, rfl⟩ := ih restFalse
    exact ⟨.push 0 [] :: chunks, List.forall_mem_cons.mpr ⟨zero, good⟩, rfl⟩

end Script

namespace Spend

variable {unlocking locking : Script} {tx : Transaction} {index : Nat} {flags : Flags}

/-- A verification gets to the redeem script, and its bytes are no program. -/
structure RedeemFails (unlocking locking : Script) (tx : Transaction) (index : Nat) (flags : Flags)
    (e : Error) : Prop where
  inRange : index < tx.inputs.length
  small : unlocking.length ≤ 10000 ∧ locking.length ≤ 10000
  redeems : flags.has .scriptHash = true
  hashed : locking.isScriptHash = true
  pushes : ∀ c ∈ unlocking.chunks, c.code ≤ Opcode.sixteen
  /-- Both runs leave a true value on top. That of the first are the bytes of the redeem script. -/
  runs : ∃ (program : Bytes) (arguments stack : Stack),
    unlocking.execute (some ⟨tx, index⟩) flags [] = .ok (program :: arguments) ∧
    Stack.isTrue (program :: arguments) = true ∧
    locking.execute (some ⟨tx, index⟩) flags (program :: arguments) = .ok stack ∧
    stack.isTrue = true ∧ Script.parse program = .error e

theorem requireTrue_failsOnly (stack : Stack) : FailsOnly Error.IsEvaluation (requireTrue stack) :=
  .ite (.ok _) (.error ⟨_, rfl⟩)

/-- Where the input is there, nothing but a rule of execution stops a run. -/
theorem execute_failsOnly_of_inRange (inRange : index < tx.inputs.length) (script : Script)
    (stack : Stack) :
    FailsOnly Error.IsEvaluation (script.execute (some ⟨tx, index⟩) flags stack) := by
  refine (script.execute_failsOnly (some ⟨tx, index⟩) flags stack).mono fun e stops => ?_
  cases stops with
  | evaluation cause => exact ⟨cause, rfl⟩
  | missing missing =>
    obtain ⟨_, same, outside⟩ := missing
    cases same
    omega

/-- A redeem script fails like any other one, once its bytes are a program. -/
theorem runRedeem_failsOnly (inRange : index < tx.inputs.length) (stack : Stack) :
    FailsOnly
      (fun e => e.IsEvaluation ∨ unlocking.isPushOnly = true ∧
        ∃ program arguments, stack = program :: arguments ∧ Script.parse program = .error e)
      (runRedeem ⟨tx, index⟩ flags unlocking stack) := by
  intro e failed
  unfold runRedeem at failed
  rcases guard_bind_eq_error.mp failed with ⟨-, rfl⟩ | ⟨pushes, failed⟩
  · exact .inl ⟨_, rfl⟩
  · cases stack with
    | nil =>
      cases failed
      exact .inl ⟨_, rfl⟩
    | cons program arguments =>
      rcases except_bind_eq_error.mp failed with unparsed | ⟨redeem, -, failed⟩
      · exact .inr ⟨by simpa using pushes, program, arguments, rfl, unparsed⟩
      · have evaluated : FailsOnly Error.IsEvaluation (do
            let stack ← redeem.execute (some ⟨tx, index⟩) flags arguments
            requireTrue stack
            return stack) :=
          (execute_failsOnly_of_inRange inRange redeem arguments).bind fun stack =>
            (requireTrue_failsOnly stack).bind fun _ => .ok _
        exact .inl (evaluated e failed)

/-- Before the redeem script only rules of execution are looked at. -/
theorem verify_failsOnly (inRange : index < tx.inputs.length) :
    FailsOnly (fun e => e.IsEvaluation ∨ RedeemFails unlocking locking tx index flags e)
      (verify unlocking tx index locking flags) := by
  have clean (final : Stack) : FailsOnly Error.IsEvaluation
      (if (flags.has .scriptHash && flags.has .cleanStack && final.length != 1) = true then
        throw (.evaluation .stackNotClean)
      else pure () : Except Error Unit) := .ite (.error ⟨_, rfl⟩) (.ok _)
  intro e failed
  unfold verify at failed
  simp only [guard_bind_eq_error, except_bind_eq_error] at failed
  obtain ⟨outside, -⟩ | ⟨-, ⟨-, rfl⟩ | ⟨small, ⟨-, rfl⟩ | ⟨-, failed⟩⟩⟩ := failed
  · omega
  · exact .inl ⟨_, rfl⟩
  · exact .inl ⟨_, rfl⟩
  obtain failed | ⟨unlocked, first, failed⟩ := failed
  · exact .inl (execute_failsOnly_of_inRange inRange _ _ e failed)
  obtain failed | ⟨stack, second, failed⟩ := failed
  · exact .inl (execute_failsOnly_of_inRange inRange _ _ e failed)
  obtain failed | ⟨_, good, failed⟩ := failed
  · exact .inl (requireTrue_failsOnly stack e failed)
  split at failed
  next redeemed =>
    rw [Bool.and_eq_true] at redeemed
    obtain failed | ⟨final, -, failed⟩ := except_bind_eq_error.mp failed
    · obtain evaluated | ⟨pushes, program, arguments, rfl, unparsed⟩ :=
        runRedeem_failsOnly inRange unlocked e failed
      · exact .inl evaluated
      · refine .inr ⟨inRange, ?_, redeemed.1, redeemed.2, (Script.isPushOnly_iff _).mp pushes,
          program, arguments, stack, first, ?_, second, (requireTrue_eq_ok_iff stack).mp good,
          unparsed⟩
        · unfold Limits.scriptSize at small
          omega
        · by_contra notTrue
          obtain ⟨s, parsed⟩ := Script.exists_parse_of_not_isTrue (Bool.eq_false_iff.mpr notTrue)
          rw [parsed] at unparsed
          cases unparsed
    · exact .inl (clean final e failed)
  next => exact .inl (clean stack e failed)

/-- Where the redeem script is no program, the verification fails for that. -/
theorem RedeemFails.verify_eq {e : Error}
    (fails : RedeemFails unlocking locking tx index flags e) :
    verify unlocking tx index locking flags = .error e := by
  obtain ⟨inRange, small, redeems, hashed, pushes, program, arguments, stack, first, -, second,
    good, unparsed⟩ := fails
  have onlyPushes : unlocking.isPushOnly = true := (Script.isPushOnly_iff _).mpr pushes
  have sizes : ¬ (Limits.scriptSize < unlocking.length ∨ Limits.scriptSize < locking.length) := by
    unfold Limits.scriptSize
    omega
  have redeemed : runRedeem ⟨tx, index⟩ flags unlocking (program :: arguments) = .error e := by
    have passed : ¬ (!unlocking.isPushOnly) = true := by simp [onlyPushes]
    rw [runRedeem, if_neg passed]
    exact except_bind_eq_error.mpr (.inl unparsed)
  unfold verify
  simp only [guard_bind_eq_error, except_bind_eq_error]
  refine .inr ⟨by omega, .inr ⟨sizes, .inr ⟨by simp [onlyPushes], .inr ⟨_, first, .inr ⟨stack,
    second, .inr ⟨(), (requireTrue_eq_ok_iff stack).mpr good, ?_⟩⟩⟩⟩⟩⟩
  rw [redeems, hashed, Bool.and_self, if_pos rfl]
  exact except_bind_eq_error.mpr (.inl redeemed)

theorem RedeemFails.isScriptParse {e : Error}
    (fails : RedeemFails unlocking locking tx index flags e) : e.IsScriptParse := by
  obtain ⟨program, _, _, _, _, _, _, unparsed⟩ := fails.runs
  exact Script.parse_failsOnly program e unparsed

theorem verify_of_outside (outside : tx.inputs.length ≤ index) :
    verify unlocking tx index locking flags = .error (.invalidInputIndex index) := by
  rw [verify, if_pos outside]
  rfl

/-- A script is stopped by a rule of execution, or for an input that is none of its transaction. A
verification fails for the input exactly if that is none, and otherwise for a rule of execution or
because the redeem script is no program: for that exactly if it gets so far. -/
theorem verification_fails_as_documented :
    (∀ (script : Script) (context : Option SpendContext) (flags : Flags) (stack : Stack)
        (e : Error), script.execute context flags stack = .error e →
      e.IsEvaluation ∨ ∃ tx index, context = some ⟨tx, index⟩ ∧ tx.inputs.length ≤ index ∧
        e = .invalidInputIndex index) ∧
    ∀ (unlocking locking : Script) (tx : Transaction) (index : Nat) (flags : Flags),
      (∀ i, verify unlocking tx index locking flags = .error (.invalidInputIndex i) ↔
        tx.inputs.length ≤ index ∧ i = index) ∧
      (index < tx.inputs.length → ∀ e, verify unlocking tx index locking flags = .error e →
        e.IsEvaluation ∨ e.IsScriptParse) ∧
      ∀ e, verify unlocking tx index locking flags = .error e ∧ e.IsScriptParse ↔
        RedeemFails unlocking locking tx index flags e := by
  refine ⟨fun script context flags stack e failed => ?_, fun unlocking locking tx index flags => ?_⟩
  · cases script.execute_failsOnly context flags stack e failed with
    | evaluation cause => exact .inl ⟨cause, rfl⟩
    | @missing index missing =>
      obtain ⟨tx, known, outside⟩ := missing
      exact .inr ⟨tx, index, known, outside, rfl⟩
  have kinds (inRange : index < tx.inputs.length) {e : Error}
      (failed : verify unlocking tx index locking flags = .error e) :
      e.IsEvaluation ∨ RedeemFails unlocking locking tx index flags e :=
    verify_failsOnly inRange e failed
  refine ⟨fun i => ⟨fun failed => ?_, ?_⟩, fun inRange e failed => ?_,
    fun e => ⟨?_, fun fails => ?_⟩⟩
  · rcases Nat.lt_or_ge index tx.inputs.length with inRange | outside
    · obtain ⟨_, impossible⟩ | fails := kinds inRange failed
      · cases impossible
      · obtain ⟨_, _, impossible⟩ := fails.isScriptParse
        cases impossible
    · rw [verify_of_outside outside] at failed
      cases failed
      exact ⟨outside, rfl⟩
  · rintro ⟨outside, rfl⟩
    exact verify_of_outside outside
  · exact (kinds inRange failed).imp_right RedeemFails.isScriptParse
  · rintro ⟨failed, offset, fault, rfl⟩
    rcases Nat.lt_or_ge index tx.inputs.length with inRange | outside
    · obtain ⟨_, impossible⟩ | fails := kinds inRange failed
      · cases impossible
      · exact fails
    · rw [verify_of_outside outside] at failed
      cases failed
  · exact ⟨fails.verify_eq, fails.isScriptParse⟩

/-- The redeem script announces data that are not there. -/
theorem verification_fails_as_documented_cut_push :
    let program : Bytes := [2, 1]
    let unlocking := Script.assemble [.push 2 program]
    let locking := Script.payToScriptHash (Hash.hash160 program)
    let flags := Flags.ofList [.scriptHash]
    verify unlocking plainSpend 0 locking flags = .error (.scriptParse 0 .dataCutShort) ∧
      verify unlocking plainSpend 1 locking flags = .error (.invalidInputIndex 1) := by
  intro program unlocking locking flags
  obtain ⟨-, spends⟩ := verification_fails_as_documented
  have pushed : unlocking.execute (some ⟨plainSpend, 0⟩) flags [] = .ok [program] := by cbv
  have unparsed : Script.parse program = .error (.scriptParse 0 .dataCutShort) := by cbv
  have matched : locking.execute (some ⟨plainSpend, 0⟩) flags [program] = .ok [[1]] :=
    Script.execute_payToScriptHash_eq_ok_iff.mpr
      ⟨program, [], rfl, by decide, by rw [decide_eq_true rfl]; rfl⟩
  have locked : locking.length = 23 := Script.length_payToScriptHash
  have small : unlocking.length ≤ 10000 ∧ locking.length ≤ 10000 := ⟨by decide, by omega⟩
  have pushes : ∀ c ∈ unlocking.chunks, c.code ≤ Opcode.sixteen := by decide
  have fails : RedeemFails unlocking locking plainSpend 0 flags (.scriptParse 0 .dataCutShort) :=
    ⟨by decide, small, by decide, Script.isScriptHash_payToScriptHash _, pushes, program, [], [[1]],
      pushed, by decide, matched, by decide, unparsed⟩
  obtain ⟨-, -, unparsable⟩ := spends unlocking locking plainSpend 0 flags
  obtain ⟨missing, -⟩ := spends unlocking locking plainSpend 1 flags
  exact ⟨((unparsable _).mpr fails).1, (missing 1).mpr ⟨by decide, rfl⟩⟩

end Spend

end TokenLedger
