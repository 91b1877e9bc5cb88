import Mathlib
import TokenLedger.Proofs.Machine.Frame

/-!
# Elements that a script does not reach

A script that does not ask for the size of the stack cannot tell what lies below the elements that
it uses. More elements below these change nothing but that the stack may overflow, and it does
exactly if behind some chunk there are too many.
-/

namespace TokenLedger

namespace Machine

/-- Behind some chunk of the run on a stack there is no room for more elements below it. -/
def OverflowsOn (env : Environment) (stack base : Stack) : Prop :=
  ∃ front back s, env.script.chunks = front ++ back ∧ front ≠ [] ∧
    steps env front { stack } = .ok () s ∧
    Limits.stackSize < (s.stack ++ base).length + s.altStack.length

namespace Frame

variable {base : Stack} {s t : State}

/-- More elements below the stack, and nothing else. -/
def ofBase (base : Stack) : Frame where
  below := base

theorem embeds_ofBase (stack base : Stack) :
    (ofBase base).Embeds { stack } { stack := stack ++ base } :=
  ⟨rfl, rfl, rfl, rfl, fun _ => rfl⟩

theorem depth_of_embeds_ofBase (embeds : (ofBase base).Embeds s t) :
    t.stack.length + t.altStack.length = (s.stack ++ base).length + s.altStack.length := by
  rw [embeds.stack, embeds.altStack, ofBase, List.append_nil]

/-- Chunks do not move, and none of them asks for the size of the stack. -/
theorem forall₂_admits_ofBase {chunks : List PlacedChunk}
    (blind : ∀ c ∈ chunks, c.chunk ≠ .op Opcode.depth) :
    List.Forall₂ (ofBase base).Admits chunks chunks :=
  List.forall₂_same.mpr fun c mem =>
    ⟨rfl, fun _ => rfl, fun asks => absurd asks (blind c mem), fun _ _ _ => ⟨rfl, rfl⟩⟩

/-- All that can go wrong is that the stack overflows. -/
theorem overruns_ofBase {cause : ScriptError} (overruns : (ofBase base).Overruns s t cause) :
    cause = .stackSize ∧ Limits.stackSize < (s.stack ++ base).length + s.altStack.length := by
  cases overruns with
  | stackSize embeds full =>
    rw [depth_of_embeds_ofBase embeds] at full
    exact ⟨rfl, full⟩
  | operations shared => exact absurd rfl shared

end Frame

/-- Where chunks are run above more elements, there is room for these behind the first ones. -/
theorem length_le_of_steps {env : Environment} {stack base : Stack} {front back : List PlacedChunk}
    {s t : State} (blind : ∀ c ∈ front, c.chunk ≠ .op Opcode.depth) (nonempty : front ≠ [])
    (reached : steps env front { stack } = .ok () s)
    (ran : steps env (front ++ back) { stack := stack ++ base } = .ok () t) :
    (s.stack ++ base).length + s.altStack.length ≤ Limits.stackSize := by
  obtain ⟨between, outside, -⟩ := steps_append_eq_ok_iff.mp ran
  have depth := depth_of_steps nonempty outside
  obtain ⟨t', outside', embeds⟩ | ⟨_, _, _, _, _, -, -, -, stopped, -⟩ :=
    Frame.steps_in_frame (Frame.embeds_ofBase stack base) (Frame.forall₂_admits_ofBase blind)
      reached
  · rw [outside] at outside'
    cases outside'
    rwa [Frame.depth_of_embeds_ofBase embeds] at depth
  · rw [outside] at stopped
    cases stopped

end Machine

namespace Script

open Machine (OverflowsOn)

/-- A script that runs on a stack and does not ask for its size runs on it above other elements too,
and leaves these below what it left, unless the stack overflows behind some chunk; then it fails for
that. -/
theorem runs_above_base {script : Script} {context : Option SpendContext} {flags : Flags}
    {stack final : Stack} (blind : ∀ c ∈ script.chunks, c.chunk ≠ .op Opcode.depth)
    (ran : script.execute context flags stack = .ok final) (base : Stack) :
    (script.execute context flags (stack ++ base) = .ok (final ++ base) ∧
      ¬ OverflowsOn ⟨context, script, flags⟩ stack base) ∨
    (script.execute context flags (stack ++ base) = .error (.evaluation .stackSize) ∧
      OverflowsOn ⟨context, script, flags⟩ stack base) := by
  obtain ⟨s, steps, closed, rfl⟩ := execute_eq_ok_iff.mp ran
  obtain ⟨t, outside, embeds⟩ | ⟨front, back, u, cause, t, whole, nonempty, reached, stopped,
      overruns⟩ :=
    Machine.Frame.steps_in_frame (Machine.Frame.embeds_ofBase stack base)
      (Machine.Frame.forall₂_admits_ofBase blind) steps
  · refine .inl ⟨execute_eq_ok_iff.mpr ⟨t, outside, ?_, embeds.stack⟩, ?_⟩
    · rw [embeds.branches, closed]
    · rintro ⟨front, back, u, whole, nonempty, reached, full⟩
      have chunks : script.chunks = front ++ back := whole
      rw [chunks] at outside blind
      exact absurd full (Nat.not_lt.mpr (Machine.length_le_of_steps
        (fun c mem => blind c (List.mem_append_left _ mem)) nonempty reached outside))
  · obtain ⟨rfl, full⟩ := Machine.Frame.overruns_ofBase overruns
    exact .inr ⟨execute_eq_error_of_steps stopped, front, back, u, whole, nonempty, reached, full⟩

/-- An addition above one element more, and above so many that its second operand has no room. -/
theorem runs_above_base_adding :
    let adding := assemble [.op Opcode.one, .op 0x93]
    (∀ c ∈ adding.chunks, c.chunk ≠ .op Opcode.depth) ∧
      adding.execute none .standard [[2]] = .ok [[3]] ∧
      adding.execute none .standard [[2], [9]] = .ok [[3], [9]] ∧
      ¬ OverflowsOn ⟨none, adding, .standard⟩ [[2]] [[9]] ∧
      adding.execute none .standard ([2] :: List.replicate 999 [9]) =
        .error (.evaluation .stackSize) := by
  intro adding
  have blind : ∀ c ∈ adding.chunks, c.chunk ≠ .op Opcode.depth := by decide
  have ran : adding.execute none .standard [[2]] = .ok [[3]] := by cbv
  have above : adding.execute none .standard [[2], [9]] = .ok [[3], [9]] := by cbv
  have full : OverflowsOn ⟨none, adding, .standard⟩ [[2]] (List.replicate 999 [9]) := by
    refine ⟨[⟨.op Opcode.one, 0⟩], [⟨.op 0x93, 1⟩], { stack := [[1], [2]] }, rfl, by decide, by cbv,
      ?_⟩
    rw [List.length_append, List.length_replicate]
    decide
  obtain ⟨-, room⟩ | ⟨stopped, -⟩ := runs_above_base blind ran [[9]]
  · obtain ⟨-, room'⟩ | ⟨stopped, -⟩ := runs_above_base blind ran (List.replicate 999 [9])
    · exact absurd full room'
    · exact ⟨blind, ran, above, room, stopped⟩
  · exact absurd (above.symm.trans stopped) (by simp)

end Script

end TokenLedger
