import Mathlib
import TokenLedger.Proofs.Machine.Frame

/-!
# Scripts one behind the other

Two scripts that run in turn, the second on the stack that the first has left, do what their
programs do as one program. As one they share the budget of operations, and the first may leave
elements aside that the second run would not have around it. Signatures would commit to both of
them, so none may be checked.
-/

namespace TokenLedger

namespace Machine

/-! ### Chunks that look at no script -/

/-- The codes of the signature checks. -/
def signatureCodes : List UInt8 :=
  [Opcode.checkSig, Opcode.checkSigVerify, Opcode.checkMultiSig, Opcode.checkMultiSigVerify]

theorem mem_signatureCodes_of_checks {code : UInt8}
    (checks : ChecksSignatures (Instruction.ofCode code)) : code ∈ signatureCodes := by
  have every : ∀ code : UInt8, code ∉ signatureCodes → ∀ verify : Bool,
      Instruction.ofCode code ≠ .checkSig verify ∧
        Instruction.ofCode code ≠ .checkMultiSig verify := forall_byte (by decide +kernel)
  obtain ⟨verify, isCheck⟩ := checks
  by_contra other
  obtain ⟨notSingle, notMany⟩ := every code other verify
  exact isCheck.elim notSingle notMany

theorem not_checksManySignatures {chunk : Chunk} (other : chunk.code ∉ signatureCodes) :
    chunk.checksManySignatures = false := by
  cases chunk with
  | push => rfl
  | op code =>
    rw [Bool.eq_false_iff, Ne, Instruction.checksManySignatures_iff]
    rintro ⟨verify, meaning⟩
    exact other (mem_signatureCodes_of_checks ⟨verify, .inr meaning⟩)

variable {context : Option SpendContext} {flags : Flags} {env : Environment} {s s' : State}

/-- Only signatures commit to the script. -/
theorem execute_congr_script {code : UInt8} {offset : Nat} {instruction : Instruction}
    (other : ¬ ChecksSignatures instruction) (script script' : Script) :
    execute ⟨context, script, flags⟩ code offset instruction =
      execute ⟨context, script', flags⟩ code offset instruction := by
  cases instruction with
  | checkSig verify => exact absurd ⟨verify, .inl rfl⟩ other
  | checkMultiSig verify => exact absurd ⟨verify, .inr rfl⟩ other
  | _ => rfl

theorem step_congr_script {c : PlacedChunk} (other : c.code ∉ signatureCodes)
    (script script' : Script) :
    step ⟨context, script, flags⟩ c = step ⟨context, script', flags⟩ c := by
  obtain ⟨chunk, offset⟩ := c
  cases chunk with
  | push code data => rfl
  | op code =>
    have same : execute ⟨context, script, flags⟩ code offset (Instruction.ofCode code) =
        execute ⟨context, script', flags⟩ code offset (Instruction.ofCode code) :=
      execute_congr_script (fun checks => other (mem_signatureCodes_of_checks checks)) _ _
    simp only [step, stepCode, same]

theorem steps_congr_script {chunks : List PlacedChunk}
    (other : ∀ c ∈ chunks, c.code ∉ signatureCodes) (script script' : Script) :
    steps ⟨context, script, flags⟩ chunks = steps ⟨context, script', flags⟩ chunks := by
  induction chunks with
  | nil => rfl
  | cons c chunks ih =>
    rw [List.forall_mem_cons] at other
    rw [steps, steps, step_congr_script other.1 script script', ih other.2]

/-- Without checks of many signatures the operations are the codes passed. -/
theorem operations_of_steps_of_no_checks {chunks : List PlacedChunk}
    (other : ∀ c ∈ chunks, c.code ∉ signatureCodes) (ran : steps env chunks s = .ok () s') :
    s'.operations = s.operations + chunks.countP (·.chunk.isOperation) := by
  have noKeys : executedKeyCounts env s chunks = [] := by
    clear ran
    induction chunks generalizing s with
    | nil => rfl
    | cons c chunks ih =>
      rw [List.forall_mem_cons] at other
      have idle : ¬ (s.isActive = true ∧ c.chunk.checksManySignatures = true) := by
        rw [not_checksManySignatures other.1]
        exact fun checks => Bool.false_ne_true checks.2
      simp only [executedKeyCounts, if_neg idle]
      split
      next => exact ih other.2
      next => rfl
  rw [operations_of_steps ran, noKeys, List.sum_nil, Nat.add_zero]

/-! ### The run behind another one -/

namespace Frame

/-- What a run finds where another one has ended, but for the stack it starts on. -/
def behind (s : State) : Frame where
  aside := s.altStack
  spent := s.operations
  aligned := false

theorem embeds_behind (closed : s.branches = []) : (behind s).Embeds { stack := s.stack } s :=
  ⟨(List.append_nil _).symm, rfl, closed, (Nat.zero_add _).symm, fun aligned => (by cases aligned)⟩

/-- The chunks behind those of another script stand elsewhere, and are the same. -/
theorem forall₂_admits_behind {chunks : List Chunk} (offset start : Nat)
    (other : ∀ c ∈ Script.place offset chunks, c.code ∉ signatureCodes) :
    List.Forall₂ (behind s).Admits (Script.place offset chunks) (Script.place start chunks) := by
  induction chunks generalizing offset start with
  | nil => exact .nil
  | cons chunk chunks ih =>
    rw [Script.place, List.forall_mem_cons] at other
    refine .cons ⟨rfl, fun aligned => (by cases aligned), fun _ => rfl, fun code same checks => ?_⟩
      (ih _ _ other.2)
    have isCode : chunk = .op code := same
    have mem : chunk.code ∈ signatureCodes := by
      rw [isCode]
      exact mem_signatureCodes_of_checks checks
    exact absurd mem other.1

/-- With nothing put aside and few enough codes there is room for the second run. -/
theorem not_overruns_behind {env env' : Environment} {stack : Stack}
    {front back : List PlacedChunk} {u t : State} {cause : ScriptError}
    (noneInFront : ∀ c ∈ front, c.code ∉ signatureCodes)
    (noneInBack : ∀ c ∈ back, c.code ∉ signatureCodes)
    (ranFront : steps env front { stack } = .ok () s)
    (ranBack : steps env' back { stack := s.stack } = .ok () u) (nonempty : back ≠ [])
    (few : (front ++ back).countP (·.chunk.isOperation) ≤ Limits.operations)
    (nothing : s.altStack = []) : ¬ (behind s).Overruns u t cause := by
  intro overruns
  cases overruns with
  | stackSize embeds full =>
    have depth := depth_of_steps nonempty ranBack
    rw [embeds.stack, embeds.altStack, behind, nothing, List.append_nil, List.append_nil] at full
    exact absurd depth (Nat.not_le.mpr full)
  | operations _ full =>
    have ofFront := operations_of_steps_of_no_checks noneInFront ranFront
    have ofBack := operations_of_steps_of_no_checks noneInBack ranBack
    have spent : (behind s).spent = s.operations := rfl
    dsimp only at ofFront ofBack
    rw [spent] at full
    rw [List.countP_append] at few
    omega

end Frame

end Machine

namespace Script

open Machine (signatureCodes)

/-- Behind the chunks of the first script the whole goes on with those of the second one, which
stand at other places there. -/
theorem steps_assemble_append {front back : List Chunk} {context : Option SpendContext}
    {flags : Flags} {stack : Stack} {s : State}
    (noChecks : ∀ c ∈ (assemble front).chunks, c.code ∉ signatureCodes)
    (ran : Machine.steps ⟨context, assemble front, flags⟩ (assemble front).chunks { stack } =
      .ok () s) :
    Machine.steps ⟨context, assemble (front ++ back), flags⟩ (assemble (front ++ back)).chunks
        { stack } =
      Machine.steps ⟨context, assemble (front ++ back), flags⟩
        (place (0 + (front.map Chunk.encodedLength).sum) back) s := by
  have chunks : (assemble (front ++ back)).chunks =
      (assemble front).chunks ++ place (0 + (front.map Chunk.encodedLength).sum) back :=
    place_append 0 front back
  rw [Machine.steps_congr_script noChecks _ (assemble (front ++ back))] at ran
  rw [chunks, Machine.steps_append_of_ok ran]

/-- Two programs that run in turn are parsed and run as one, with the same result unless they take
too many operations or too much room together. With nothing put aside in between and few enough
codes they do not. -/
theorem concatenation_runs_in_turn {a b : Bytes} {first second : Script}
    {context : Option SpendContext} {flags : Flags} {stack middle final : Stack}
    (parsedFirst : parse a = .ok first) (parsedSecond : parse b = .ok second)
    (noChecks : ∀ c ∈ first.chunks ++ second.chunks, c.code ∉ signatureCodes)
    (ranFirst : first.execute context flags stack = .ok middle)
    (ranSecond : second.execute context flags middle = .ok final) :
    ∃ whole, parse (a ++ b) = .ok whole ∧
      (whole.execute context flags stack = .ok final ∨
        whole.execute context flags stack = .error (.evaluation .tooManyOperations) ∨
        whole.execute context flags stack = .error (.evaluation .stackSize)) ∧
      ((first.chunks ++ second.chunks).countP (·.chunk.isOperation) ≤ 201 →
        (∃ s, Machine.run ⟨context, first, flags⟩ { stack } = .ok () s ∧ s.altStack = []) →
        whole.execute context flags stack = .ok final) := by
  obtain ⟨front, goodFront, rfl, rfl⟩ := parse_eq_ok_iff.mp parsedFirst
  obtain ⟨back, goodBack, rfl, rfl⟩ := parse_eq_ok_iff.mp parsedSecond
  have parsed : parse (front.flatMap Chunk.encode ++ back.flatMap Chunk.encode) =
      .ok (assemble (front ++ back)) :=
    parse_eq_ok_iff.mpr ⟨front ++ back, List.forall_mem_append.mpr ⟨goodFront, goodBack⟩,
      List.flatMap_append, rfl⟩
  obtain ⟨noneInFront, noneInBack⟩ := List.forall_mem_append.mp noChecks
  obtain ⟨s, steppedFront, closed, rfl⟩ := execute_eq_ok_iff.mp ranFirst
  obtain ⟨u, steppedBack, closedBack, rfl⟩ := execute_eq_ok_iff.mp ranSecond
  have onward : Machine.steps _ (assemble (front ++ back)).chunks { stack } = _ :=
    steps_assemble_append noneInFront steppedFront
  have inWhole := steppedBack
  rw [Machine.steps_congr_script noneInBack _ (assemble (front ++ back))] at inWhole
  refine ⟨assemble (front ++ back), parsed, ?_⟩
  -- The second run goes on inside of what the first one has left.
  obtain ⟨t, outside, embeds⟩ | ⟨before, after, v, cause, t, split, nonempty, reached, stopped,
      overruns⟩ :=
    Machine.Frame.steps_in_frame (Machine.Frame.embeds_behind closed)
      (Machine.Frame.forall₂_admits_behind 0 _ noneInBack) inWhole
  · have succeeded : (assemble (front ++ back)).execute context flags stack = .ok u.stack := by
      refine execute_eq_ok_iff.mpr ⟨t, onward.trans outside, ?_, ?_⟩
      · rw [embeds.branches, closedBack]
      · rw [embeds.stack, Machine.Frame.behind, List.append_nil]
    exact ⟨.inl succeeded, fun _ _ => succeeded⟩
  · have failed := execute_eq_error_of_steps (onward.trans stopped)
    constructor
    · cases overruns with
      | stackSize => exact .inr (.inr failed)
      | operations => exact .inr (.inl failed)
    · rintro few ⟨s', ran, nothing⟩
      have alsoStepped := (Machine.run_eq_ok_iff.mp ran).1
      rw [steppedFront] at alsoStepped
      cases alsoStepped
      have chunks : (assemble back).chunks = before ++ after := split
      rw [chunks, ← List.append_assoc, List.countP_append] at few
      rw [chunks] at noneInBack
      exact absurd overruns (Machine.Frame.not_overruns_behind noneInFront
        (fun c mem => noneInBack c (List.mem_append_left _ mem)) steppedFront reached nonempty
        (Nat.le_trans (Nat.le_add_right _ _) few) nothing)

/-- One program pushes a number twice, the other one adds the two. -/
theorem concatenation_runs_in_turn_doubling :
    let a : Bytes := [Opcode.one, Opcode.dup]
    let b : Bytes := [0x93]
    let first := assemble [.op Opcode.one, .op Opcode.dup]
    let second := assemble [.op 0x93]
    parse a = .ok first ∧ parse b = .ok second ∧
      (∀ c ∈ first.chunks ++ second.chunks, c.code ∉ signatureCodes) ∧
      first.execute none .standard [[9]] = .ok [[1], [1], [9]] ∧
      second.execute none .standard [[1], [1], [9]] = .ok [[2], [9]] ∧
      (first.chunks ++ second.chunks).countP (·.chunk.isOperation) ≤ 201 ∧
      (∃ s, Machine.run ⟨none, first, .standard⟩ { stack := [[9]] } = .ok () s ∧
        s.altStack = []) ∧
      ∃ whole, parse (a ++ b) = .ok whole ∧
        whole.execute none .standard [[9]] = .ok [[2], [9]] := by
  intro a b first second
  have parsedFirst : parse a = .ok first := by cbv
  have parsedSecond : parse b = .ok second := by cbv
  have noChecks : ∀ c ∈ first.chunks ++ second.chunks, c.code ∉ signatureCodes := by decide
  have ranFirst : first.execute none .standard [[9]] = .ok [[1], [1], [9]] := by cbv
  have ranSecond : second.execute none .standard [[1], [1], [9]] = .ok [[2], [9]] := by cbv
  have few : (first.chunks ++ second.chunks).countP (·.chunk.isOperation) ≤ 201 := by decide
  have nothing : ∃ s, Machine.run ⟨none, first, .standard⟩ { stack := [[9]] } = .ok () s ∧
      s.altStack = [] :=
    ⟨{ stack := [[1], [1], [9]], operations := 1 }, by cbv, rfl⟩
  obtain ⟨whole, parsed, -, succeeds⟩ :=
    concatenation_runs_in_turn parsedFirst parsedSecond noChecks ranFirst ranSecond
  exact ⟨parsedFirst, parsedSecond, noChecks, ranFirst, ranSecond, few, nothing, whole, parsed,
    succeeds few nothing⟩

end Script

end TokenLedger
