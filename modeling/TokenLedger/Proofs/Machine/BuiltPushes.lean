import TokenLedger.Proofs.Machine.Minimality

/-!
# Running what was built

A script that is built from data and numbers mixes three kinds of chunks, and its program is read
back into them. Running it leaves what was asked for, step by step.
-/

namespace TokenLedger.Script

/-- A built script is read back with the same chunks at the same offsets. Where it was built from
data and numbers, running it or what was read back puts these on the stack in their order, unless
the rule on shortest pushes is in force. -/
theorem built_pushes_are_read_back_and_run (steps : List BuildStep) :
    ((∀ step ∈ steps, step.Fits) → parse (build steps).program = .ok (build steps)) ∧
    ((∀ code, .op code ∉ steps) →
      (∀ bytes, .data bytes ∈ steps → bytes.length ≤ 520) →
      ∀ script, script = build steps ∨ parse (build steps).program = .ok script →
      ∀ (context : Option SpendContext) (flags : Flags) (stack : Stack),
        flags.requiresMinimal = false → stack.length + steps.length ≤ 1000 →
        script.execute context flags stack =
          .ok ((steps.filterMap BuildStep.value?).reverse ++ stack)) := by
  refine ⟨parse_build, fun values small script origin context flags stack free room => ?_⟩
  have fit : ∀ step ∈ steps, step.Fits := by
    intro step mem
    cases step with
    | op code => exact absurd mem (values code)
    | data bytes =>
      have short := small bytes mem
      exact Nat.lt_of_le_of_lt short (by decide)
    | number n => trivial
  have same : script = build steps := by
    rcases origin with built | parsed
    · exact built
    · rw [parse_build fit] at parsed
      exact (Except.ok.inj parsed).symm
  have fewer := List.length_filterMap_le BuildStep.value? steps
  have enough : stack.length + (steps.filterMap BuildStep.value?).length ≤ Limits.stackSize :=
    Nat.le_trans (Nat.add_le_add_left fewer _) room
  rw [same, build, execute_assemble_of_denotes (denotes_steps values)
    (length_le_of_mem_values small) enough, if_neg]
  rw [free]
  simp

/-- Codes among data that is long enough for a length field, and data and numbers that are built
into codes. -/
theorem built_pushes_are_read_back_and_run_mixed :
    let coded : List BuildStep := [.op Opcode.dup, .op Opcode.empty, .data (List.replicate 80 7),
      .number 300]
    let pushed : List BuildStep := [.data [], .number (-1), .data [7], .data [0x81], .number 300]
    (∀ step ∈ coded, step.Fits) ∧ parse (build coded).program = .ok (build coded) ∧
      (∀ code, .op code ∉ pushed) ∧ (∀ bytes, .data bytes ∈ pushed → bytes.length ≤ 520) ∧
      Flags.standard.requiresMinimal = false ∧ [[(9 : UInt8)]].length + pushed.length ≤ 1000 ∧
      ∃ parsed, parse (build pushed).program = .ok parsed ∧
        parsed.execute none .standard [[9]] =
          .ok [ScriptNumber.encode 300, [0x81], [7], ScriptNumber.encode (-1), [], [9]] := by
  intro coded pushed
  have fit : ∀ step ∈ coded, step.Fits := by
    simp only [coded, List.forall_mem_cons, List.not_mem_nil, false_implies, implies_true, and_true]
    exact ⟨.inr (by decide), .inl rfl, by simp [BuildStep.Fits], trivial⟩
  have values : ∀ code, .op code ∉ pushed := by simp [pushed]
  have small : ∀ bytes, .data bytes ∈ pushed → bytes.length ≤ 520 := by
    intro bytes mem
    simp only [pushed, List.mem_cons, BuildStep.data.injEq, reduceCtorEq, List.not_mem_nil,
      or_false, false_or] at mem
    rcases mem with rfl | rfl | rfl <;> decide
  have free : Flags.standard.requiresMinimal = false := by decide
  have room : [[(9 : UInt8)]].length + pushed.length ≤ 1000 := by decide
  have alsoFit : ∀ step ∈ pushed, step.Fits := by
    simp [pushed, BuildStep.Fits]
  obtain ⟨reads, -⟩ := built_pushes_are_read_back_and_run coded
  obtain ⟨readsPushed, runs⟩ := built_pushes_are_read_back_and_run pushed
  have parsed := readsPushed alsoFit
  exact ⟨fit, reads fit, values, small, free, room, _, parsed,
    runs values small _ (.inr parsed) none .standard [[9]] free room⟩

end TokenLedger.Script
