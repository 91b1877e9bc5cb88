import Mathlib
import TokenLedger.Proofs.Machine.Nesting

/-!
# The machine evaluates nested parts

The machine knows what is open from a list of truth values only, and asks at each chunk whether one
of them is false. What other instructions do does not depend on that list. So a run over chunks goes
on as their tree is evaluated, from within as many conditionals as the list is long.
-/

namespace TokenLedger

/-- The state with other open parts. -/
def State.withBranches (s : State) (branches : List Bool) : State := { s with branches }

namespace Machine

/-- The result with other open parts. -/
def reopen {α : Type} (branches : List Bool) :
    EStateM.Result Error State α → EStateM.Result Error State α
  | .ok value s => .ok value (s.withBranches branches)
  | .error e s => .error e (s.withBranches branches)

/-- The action neither looks at the open parts nor changes them. -/
def IgnoresBranches {α : Type} (m : MachineM α) : Prop :=
  ∀ s branches, m (s.withBranches branches) = reopen branches (m s)

namespace IgnoresBranches

variable {α β : Type} {m : MachineM α}

theorem pure (value : α) : IgnoresBranches (Pure.pure value : MachineM α) := fun _ _ => rfl

theorem fault (cause : ScriptError) : IgnoresBranches (Machine.fault cause : MachineM α) :=
  fun _ _ => rfl

theorem modify {change : State → State}
    (kept : ∀ s branches, change (s.withBranches branches) = (change s).withBranches branches) :
    IgnoresBranches (modify change : MachineM Unit) := by
  intro s branches
  show EStateM.Result.ok _ (change (s.withBranches branches)) = _
  rw [kept]
  rfl

theorem bind {next : α → MachineM β} (head : IgnoresBranches m)
    (tail : ∀ value, IgnoresBranches (next value)) : IgnoresBranches (m >>= next) := by
  intro s branches
  have first := head s branches
  cases ran : m s with
  | error e t =>
    rw [ran] at first
    rw [estate_bind_of_error first, estate_bind_of_error ran]
    rfl
  | ok value t =>
    rw [ran] at first
    rw [estate_bind_of_ok first, estate_bind_of_ok ran, tail value t branches]

theorem get_bind {body : State → MachineM α}
    (blind : ∀ s branches, body (s.withBranches branches) = body s)
    (each : ∀ s, IgnoresBranches (body s)) :
    IgnoresBranches ((MonadState.get : MachineM State) >>= body) := by
  intro s branches
  show body (s.withBranches branches) (s.withBranches branches) = reopen branches (body s s)
  rw [blind, each s s branches]

theorem ite {condition : Prop} [Decidable condition] {n : MachineM α} (yes : IgnoresBranches m)
    (no : IgnoresBranches n) : IgnoresBranches (if condition then m else n) := by
  split
  · exact yes
  · exact no

end IgnoresBranches

/-- The first result is the second one among open parts. Where both are failures it does not matter
what is open. -/
inductive Among {α : Type} (branches : List Bool) :
    EStateM.Result Error State α → EStateM.Result Error State α → Prop where
  | ok (value : α) (s : State) : Among branches (.ok value (s.withBranches branches)) (.ok value s)
  | error (e : Error) {s t : State} (same : s.withBranches [] = t.withBranches []) :
      Among branches (.error e s) (.error e t)

theorem IgnoresBranches.among {α : Type} {m : MachineM α} (ignores : IgnoresBranches m) (s : State)
    (branches : List Bool) : Among branches (m (s.withBranches branches)) (m s) := by
  rw [ignores s branches]
  cases m s with
  | ok value t => exact .ok value t
  | error e t => exact .error e rfl

theorem onStack_ignoresBranches (act : Stack → Except Error Stack) :
    IgnoresBranches (onStack act) := by
  intro s branches
  show onStack act { s with branches } = _
  unfold onStack
  cases act s.stack <;> rfl

theorem pop_ignoresBranches : IgnoresBranches pop := by
  rintro ⟨stack⟩ branches
  cases stack <;> rfl

theorem popBelowOne_ignoresBranches (count : Nat) : IgnoresBranches (popBelowOne count) := by
  intro s branches
  show popBelowOne count { s with branches } = _
  unfold popBelowOne
  dsimp only
  split <;> rfl

theorem countOperations_ignoresBranches (count : Nat) :
    IgnoresBranches (countOperations count) := by
  intro s branches
  rw [countOperations_eq, countOperations_eq]
  by_cases exceeds : Limits.operations < s.operations + count
  · rw [if_pos exceeds]
    exact if_pos exceeds
  · rw [if_neg exceeds]
    exact if_neg exceeds

theorem checkStackSize_ignoresBranches : IgnoresBranches checkStackSize := by
  intro s branches
  rw [checkStackSize_eq, checkStackSize_eq]
  by_cases exceeds : Limits.stackSize < s.stack.length + s.altStack.length
  · rw [if_pos exceeds]
    exact if_pos exceeds
  · rw [if_neg exceeds]
    exact if_neg exceeds

/-! ### Signature checks -/

variable {env : Environment}

theorem checkRecorded_ignoresBranches (connected : Script) (signature key : Bytes) :
    IgnoresBranches (checkRecorded env connected signature key) := by
  intro s branches
  unfold checkRecorded
  cases env.checkSignature connected signature key <;> rfl

theorem checkSig_ignoresBranches : IgnoresBranches (checkSig env) := by
  rintro ⟨stack, altStack, inner, operations, separator, checks⟩ branches
  rcases stack with _ | ⟨key, _ | ⟨signature, stack⟩⟩
  · rfl
  · rfl
  · exact checkRecorded_ignoresBranches _ _ _
      ⟨stack, altStack, inner, operations, separator, checks⟩ branches

theorem IgnoresBranches.compositional : Compositional fun _ m _ => IgnoresBranches m where
  pure := .pure
  fault := .fault
  bind := .bind

theorem IgnoresBranches.relatesChecks :
    RelatesChecks (fun _ m _ => IgnoresBranches m) env env where
  toCompositional := compositional
  pop := pop_ignoresBranches
  popCount := compositional.popCount pop_ignoresBranches
  popBelowOne := popBelowOne_ignoresBranches
  countOperations := countOperations_ignoresBranches
  atSeparator _ _ each := .get_bind (fun _ _ => rfl) fun _ => each _
  checkRecorded _ _ := checkRecorded_ignoresBranches _
  rejectDummy _ := compositional.guard _

/-! ### Chunks -/

theorem push_ignoresBranches (data : Bytes) : IgnoresBranches (push data) :=
  .modify fun _ _ => rfl

theorem fromAltStack_ignoresBranches (code : UInt8) (offset : Nat) :
    IgnoresBranches (execute env code offset .fromAltStack) := by
  rintro ⟨stack, altStack⟩ branches
  cases altStack <;> rfl

theorem IgnoresBranches.relatesInstruction {code : UInt8} {offset : Nat}
    {instruction : Instruction} (plain : instruction.conditional? = none) :
    RelatesInstruction (fun _ m _ => IgnoresBranches m) env code offset offset instruction where
  toCompositional := compositional
  stackOp _ _ := onStack_ignoresBranches _
  conditional _ isConditional := by
    rw [isConditional] at plain
    cases plain
  push := push_ignoresBranches
  pop := pop_ignoresBranches
  putAside _ := .modify fun _ _ => rfl
  takeBack := fromAltStack_ignoresBranches code offset
  separate _ := .modify fun _ _ => rfl
  checkSig _ _ := checkSig_ignoresBranches
  checkMultiSig _ _ := relatesChecks.checkMultiSig
  checkLockTime := onStack_ignoresBranches _

/-- Only conditionals look at what is open. -/
theorem execute_ignoresBranches {code : UInt8} {offset : Nat} {instruction : Instruction}
    (plain : instruction.conditional? = none) :
    IgnoresBranches (execute env code offset instruction) :=
  (IgnoresBranches.relatesInstruction plain).execute

/-- The check that a push is the shortest one stands behind the check of its size. -/
theorem executePush_ignoresBranches (chunk : Chunk) (data : Bytes) :
    IgnoresBranches (executePush env chunk data) := by
  have pushed := push_ignoresBranches data
  have shortest : IgnoresBranches (do
      if env.flags.requiresMinimal && !chunk.isShortestPush then fault .minimalData
      push data) :=
    .ite (.bind (.fault _) fun _ => pushed) pushed
  exact .ite (.bind (.fault _) fun _ => shortest) shortest

/-- Behind a code that counts the same is done as behind one that does not. -/
theorem counting_ignoresBranches {code : UInt8} {m : MachineM Unit} (ignores : IgnoresBranches m) :
    IgnoresBranches (do
      if Opcode.sixteen < code then countOperations 1
      m) :=
  .ite (.bind (countOperations_ignoresBranches 1) fun _ => ignores) ignores

theorem executeChunk_ignoresBranches {c : PlacedChunk} (plain : c.conditional? = none) :
    IgnoresBranches (executeChunk env c) := by
  obtain ⟨chunk, offset⟩ := c
  cases chunk with
  | push code data =>
    exact .bind (executePush_ignoresBranches _ data) fun _ => checkStackSize_ignoresBranches
  | op code =>
    exact .bind (counting_ignoresBranches (execute_ignoresBranches plain)) fun _ =>
      checkStackSize_ignoresBranches

theorem failAnywhere_ignoresBranches (code : UInt8) (instruction : Instruction) :
    IgnoresBranches (failAnywhere code instruction) := by
  cases instruction with
  | disabled | forbidden => exact .fault _
  | _ => exact .pure _

theorem skipChunk_ignoresBranches (c : PlacedChunk) : IgnoresBranches (skipChunk c) := by
  obtain ⟨chunk, offset⟩ := c
  cases chunk with
  | push code data =>
    exact .bind (.ite (.fault _) (.pure _)) fun _ => checkStackSize_ignoresBranches
  | op code =>
    exact .bind (counting_ignoresBranches (failAnywhere_ignoresBranches code _)) fun _ =>
      checkStackSize_ignoresBranches

/-- A code that is no conditional is executed or skipped. -/
theorem stepCode_eq_of_plain {code : UInt8} {offset : Nat}
    (plain : (Instruction.ofCode code).conditional? = none) (s : State) :
    stepCode env code offset s =
      (if s.isActive then executeCode env code offset else skipCode code) s := by
  have behind (t : State) :
      (get >>= fun s => if (s.isActive || takesEffectWhenSkipped (Instruction.ofCode code)) = true
        then execute env code offset (Instruction.ofCode code) else pure ()) t =
      (if t.isActive then execute env code offset (Instruction.ofCode code)
        else failAnywhere code (Instruction.ofCode code)) t := by
    rw [estate_get_bind]
    cases t.isActive with
    | true => rfl
    | false =>
      cases meaning : Instruction.ofCode code with
      | conditional op =>
        rw [meaning] at plain
        cases plain
      | _ => rfl
  unfold stepCode executeCode skipCode
  dsimp only
  by_cases counts : Opcode.sixteen < code
  · simp only [if_pos counts]
    cases ran : countOperations 1 s with
    | error e t =>
      rw [estate_bind_of_error ran]
      cases s.isActive <;> simp [estate_bind_of_error ran]
    | ok value t =>
      obtain ⟨-, rfl⟩ := countOperations_eq_ok_iff.mp ran
      have same : State.isActive { s with operations := s.operations + 1 } = s.isActive := rfl
      rw [estate_bind_of_ok ran, behind, same]
      cases s.isActive <;> simp [estate_bind_of_ok ran]
  · simp only [if_neg counts]
    exact behind s

/-- A push is executed or skipped. -/
theorem stepPush_eq (chunk : Chunk) (data : Bytes) (s : State) :
    stepPush env chunk data s =
      (if s.isActive then executePush env chunk data else skipPush data) s := by
  unfold stepPush executePush skipPush
  dsimp only
  by_cases long : Limits.elementSize < data.length
  · simp only [if_pos long]
    cases s.isActive <;> rfl
  · simp only [if_neg long]
    rw [estate_get_bind]

/-- A chunk that is no conditional is executed or skipped. -/
theorem step_eq_evaluateChunk {c : PlacedChunk} (plain : c.conditional? = none) (s : State) :
    step env c s = evaluateChunk env s.isActive c s := by
  obtain ⟨chunk, offset⟩ := c
  cases chunk with
  | push code data =>
    refine (estate_bind_congr (stepPush_eq (.push code data) data s)).trans ?_
    cases s.isActive <;> rfl
  | op code =>
    refine (estate_bind_congr (stepCode_eq_of_plain plain s)).trans ?_
    cases s.isActive <;> rfl

/-- Whether it is executed depends on what is open, which it leaves as it is. -/
theorem step_among_evaluateChunk {c : PlacedChunk} (plain : c.conditional? = none) (s : State)
    (branches : List Bool) :
    Among branches (step env c (s.withBranches branches))
      (evaluateChunk env (branches.all id) c s) := by
  have active : (s.withBranches branches).isActive = branches.all id := rfl
  rw [step_eq_evaluateChunk plain, active]
  cases branches.all id with
  | true => exact (executeChunk_ignoresBranches plain).among s branches
  | false => exact (skipChunk_ignoresBranches c).among s branches

/-- Conditional instructions count. -/
theorem sixteen_lt_of_conditional {code : UInt8}
    (conditional : (Instruction.ofCode code).conditional? ≠ none) : Opcode.sixteen < code := by
  have every : ∀ code : UInt8, (Instruction.ofCode code).conditional? ≠ none →
      Opcode.sixteen < code := forall_byte (by decide +kernel)
  exact every code conditional

/-- Conditional instructions take effect wherever they stand. -/
theorem step_of_conditional {c : PlacedChunk} {op : Conditional} (kind : c.conditional? = some op) :
    step env c = (do countOperations 1; conditional op; checkStackSize) := by
  obtain ⟨chunk, offset⟩ := c
  cases chunk with
  | push code data => cases kind
  | op code =>
    have same : (Instruction.ofCode code).conditional? = some op := kind
    have counts : Opcode.sixteen < code := sixteen_lt_of_conditional (by rw [same]; nofun)
    have meaning : Instruction.ofCode code = .conditional op := by
      cases instruction : Instruction.ofCode code with
      | conditional other =>
        rw [instruction] at same
        cases same
        rfl
      | _ =>
        rw [instruction] at same
        cases same
    have effective (t : State) : (t.isActive || takesEffectWhenSkipped (.conditional op)) = true :=
      Bool.or_true _
    unfold step stepCode
    simp only [if_pos counts, meaning, effective, if_true, bind_assoc]
    rfl

/-- In a skipped part conditionals only keep track of what is open. -/
theorem leavesUntouched_conditional {op : Conditional} {s : State} (skipped : s.isActive = false) :
    LeavesUntouched s (conditional op s) := by
  cases op with
  | branch expected =>
    simp only [conditional, skipped]
    exact ⟨rfl, rfl, rfl, rfl⟩
  | otherwise | close =>
    simp only [conditional]
    cases s.branches with
    | nil => exact ⟨.refl s, .nesting⟩
    | cons inner outer => exact ⟨rfl, rfl, rfl, rfl⟩

/-- In a skipped part no chunk touches more than the count of operations and what is open. -/
theorem leavesUntouched_step {c : PlacedChunk} {s : State} (skipped : s.isActive = false) :
    LeavesUntouched s (step env c s) := by
  cases kind : c.conditional? with
  | none =>
    rw [step_eq_evaluateChunk kind, skipped]
    exact skipChunk_onlyCounts c s
  | some op =>
    rw [step_of_conditional kind]
    refine (countOperations_onlyCounts 1 s).bind fun _ t ran => ?_
    obtain ⟨-, rfl⟩ := countOperations_eq_ok_iff.mp ran
    have stillSkipped : State.isActive { s with operations := s.operations + 1 } = false := skipped
    exact (leavesUntouched_conditional stillSkipped).bind fun _ u _ => checkStackSize_onlyCounts u

/-! ### Runs -/

/-- The end of a run: nothing may be open. -/
def closeRun : MachineM Unit := do
  if !(← get).branches.isEmpty then fault .unbalancedConditional

/-- Evaluates what is read from within open parts, the innermost first: the parts up to a closing
chunk belong to the innermost one, and what stands behind that to those around. -/
def resume (env : Environment) : List Bool → Parts → List (PlacedChunk × Parts) → MachineM Unit
  | [], parts, outer => Reading.evaluate env ⟨parts, outer⟩
  | inner :: branches, parts, outer => do
    parts.evaluate env fun number => ((number % 2 == 0) == inner) && branches.all id
    match outer with
    | [] => fault .unbalancedConditional
    | (_, after) :: outer => do
      passMark
      resume env branches after outer

/-- What is put in front of the first part is evaluated first. -/
theorem resume_mapFirst {f : Part → Part} {m : Bool → MachineM Unit}
    (starts : ∀ executed part,
      (f part).evaluate env executed = (do m executed; part.evaluate env executed))
    (branches : List Bool) (parts : Parts) (outer : List (PlacedChunk × Parts)) :
    resume env branches (parts.mapFirst f) outer =
      (do m (branches.all id); resume env branches parts outer) := by
  cases branches with
  | nil =>
    cases parts with
    | last part =>
      cases outer <;> simp [resume, Reading.evaluate, Parts.mapFirst, starts]
    | turn part turning others =>
      simp [resume, Reading.evaluate, Parts.mapFirst, starts]
  | cons inner branches =>
    cases parts with
    | last part => simp [resume, Parts.evaluate, Parts.mapFirst, starts]
    | turn part turning others => simp [resume, Parts.evaluate, Parts.mapFirst, starts]

/-- Two sequences do the same up to what is open if their first actions do and the others go on
so. -/
theorem reopen_bind_congr {α : Type} {m m' : MachineM α} {next next' : α → MachineM Unit}
    {s s' : State} {branches : List Bool} (head : Among branches (m s') (m' s))
    (further : ∀ value t,
      reopen [] (next value (t.withBranches branches)) = reopen [] (next' value t)) :
    reopen [] ((m >>= next) s') = reopen [] ((m' >>= next') s) := by
  generalize first : m s' = r at head
  generalize second : m' s = r' at head
  cases head with
  | ok value t => rw [estate_bind_of_ok first, estate_bind_of_ok second, further]
  | error e same =>
    rw [estate_bind_of_error first, estate_bind_of_error second, reopen, reopen, same]

/-- A conditional instruction that only changes what is open passes a mark. -/
theorem step_among_passMark {c : PlacedChunk} {op : Conditional} (kind : c.conditional? = some op)
    {branches branches' : List Bool}
    (moves : ∀ t : State,
      conditional op (t.withBranches branches) = .ok () (t.withBranches branches')) (s : State) :
    Among branches' (step env c (s.withBranches branches)) (passMark s) := by
  have counted := countOperations_ignoresBranches 1 s branches
  rw [step_of_conditional kind, passMark]
  cases ran : countOperations 1 s with
  | error e t =>
    rw [ran] at counted
    rw [estate_bind_of_error counted, estate_bind_of_error ran]
    exact .error e rfl
  | ok value t =>
    rw [ran] at counted
    rw [estate_bind_of_ok counted, estate_bind_of_ok ran, estate_bind_of_ok (moves t)]
    exact checkStackSize_ignoresBranches.among t branches'

theorem alternates (number : Nat) (inner : Bool) :
    (((number + 1) % 2 == 0) == inner) = ((number % 2 == 0) == !inner) := by
  rcases Nat.mod_two_eq_zero_or_one number with even | odd
  · have next : (number + 1) % 2 = 1 := by omega
    rw [even, next]
    cases inner <;> rfl
  · have next : (number + 1) % 2 = 0 := by omega
    rw [odd, next]
    cases inner <;> rfl

/-- Turning goes on with the next part of the innermost conditional. -/
theorem resume_turn (inner : Bool) (branches : List Bool) (c : PlacedChunk) (parts : Parts)
    (outer : List (PlacedChunk × Parts)) :
    resume env (inner :: branches) (.turn .done c parts) outer =
      (do passMark; resume env ((!inner) :: branches) parts outer) := by
  simp [resume, Parts.evaluate, Part.evaluate, alternates]

/-- Closing goes on behind the innermost conditional. -/
theorem resume_close (inner : Bool) (branches : List Bool) (c : PlacedChunk) (parts : Parts)
    (outer : List (PlacedChunk × Parts)) :
    resume env (inner :: branches) (.last .done) ((c, parts) :: outer) =
      (do passMark; resume env branches parts outer) := by
  simp [resume, Parts.evaluate, Part.evaluate]

/-- Outside of all conditionals a turning or closing chunk fails once it has counted. -/
def failStray : MachineM Unit := do
  countOperations 1
  fault .unbalancedConditional

theorem resume_turn_stray (c : PlacedChunk) (parts : Parts) (outer : List (PlacedChunk × Parts)) :
    resume env [] (.turn .done c parts) outer = failStray := by
  simp [resume, Reading.evaluate, Part.evaluate, failStray]

theorem resume_close_stray (c : PlacedChunk) (parts : Parts) (outer : List (PlacedChunk × Parts)) :
    resume env [] (.last .done) ((c, parts) :: outer) = failStray := by
  simp [resume, Reading.evaluate, Part.evaluate, failStray]

/-- A conditional instruction that needs something open. -/
theorem reopen_step_stray {c : PlacedChunk} {op : Conditional} {next : Unit → MachineM Unit}
    (kind : c.conditional? = some op)
    (stray : ∀ t : State, conditional op (t.withBranches []) =
      .error (.evaluation .unbalancedConditional) (t.withBranches [])) (s : State) :
    reopen [] ((step env c >>= next) (s.withBranches [])) = reopen [] (failStray s) := by
  rw [step_of_conditional kind, failStray]
  simp only [bind_assoc]
  refine reopen_bind_congr ((countOperations_ignoresBranches 1).among s []) fun _ t => ?_
  rw [estate_bind_of_error (stray t)]
  rfl

/-- Opening goes on within one conditional more. -/
theorem reopen_step_branch {c : PlacedChunk} {expected closed : Bool} {branches : List Bool}
    {inside : (Nat → Bool) → MachineM Unit} {next : Unit → MachineM Unit} {after : MachineM Unit}
    (kind : c.conditional? = some (.branch expected))
    (further : ∀ inner t, reopen [] (next () (State.withBranches t (inner :: branches))) =
      reopen [] ((do
        inside fun number => ((number % 2 == 0) == inner) && branches.all id
        passEnding closed
        after) t)) (s : State) :
    reopen [] ((step env c >>= next) (s.withBranches branches)) =
      reopen [] ((do aroundParts expected (branches.all id) closed inside; after) s) := by
  rw [step_of_conditional kind, aroundParts]
  simp only [bind_assoc]
  refine reopen_bind_congr ((countOperations_ignoresBranches 1).among s branches) fun _ t => ?_
  have goesOn (inner : Bool) (u : State) :
      reopen [] ((do checkStackSize; next ()) (u.withBranches (inner :: branches))) =
        reopen [] ((do
          checkStackSize
          inside fun number => ((number % 2 == 0) == inner) && branches.all id
          passEnding closed
          after) u) :=
    reopen_bind_congr (checkStackSize_ignoresBranches.among u _) fun _ u => further inner u
  have active : (t.withBranches branches).isActive = branches.all id := rfl
  cases chosen : branches.all id with
  | false =>
    simp only [chosen, Bool.and_false] at goesOn active
    have opened : conditional (.branch expected) (t.withBranches branches) =
        .ok () (t.withBranches (false :: branches)) := by
      simp only [conditional, active]
      rfl
    have chose : chooseParts expected false t = .ok (fun _ => false) t := rfl
    rw [estate_bind_of_ok opened, estate_bind_of_ok chose]
    exact goesOn false t
  | true =>
    simp only [chosen, Bool.and_true] at goesOn active
    cases taken : t.stack with
    | nil =>
      have failed : conditional (.branch expected) (t.withBranches branches) =
          .error (.evaluation .unbalancedConditional) (t.withBranches branches) := by
        simp only [conditional, active]
        simp [State.withBranches, taken]
      have failedToo : chooseParts expected true t =
          .error (.evaluation .unbalancedConditional) t := by
        simp [chooseParts, taken]
      rw [estate_bind_of_error failed, estate_bind_of_error failedToo]
      rfl
    | cons top rest =>
      have opened : conditional (.branch expected) (t.withBranches branches) =
          .ok () (State.withBranches { t with stack := rest }
            ((ScriptNumber.isTrue top == expected) :: branches)) := by
        simp only [conditional, active]
        simp [State.withBranches, taken]
      have chose : chooseParts expected true t =
          .ok (fun number => (number % 2 == 0) == (ScriptNumber.isTrue top == expected))
            { t with stack := rest } := by
        simp [chooseParts, taken]
      rw [estate_bind_of_ok opened, estate_bind_of_ok chose]
      exact goesOn _ _

/-- From within open parts a run does what is evaluated from within them. -/
theorem steps_closeRun_eq_resume (chunks : List PlacedChunk) (branches : List Bool) (s : State) :
    reopen [] ((do steps env chunks; closeRun) (s.withBranches branches)) =
      reopen [] (resume env branches (Reading.ofChunks chunks).parts
        (Reading.ofChunks chunks).outer s) := by
  induction chunks generalizing branches s with
  | nil => cases branches <;> rfl
  | cons c chunks ih =>
    rcases read : Reading.ofChunks chunks with ⟨parts, outer⟩
    simp only [read] at ih
    have unfolded : (do steps env (c :: chunks); closeRun : MachineM Unit) =
        (do step env c; steps env chunks; closeRun) := by
      rw [steps, bind_assoc]
    rw [unfolded]
    simp only [Reading.ofChunks, read]
    split
    next plain =>
      have starts (executed : Bool) (part : Part) : (Part.chunk c part).evaluate env executed =
          (do evaluateChunk env executed c; part.evaluate env executed) := by
        rw [Part.evaluate]
      rw [resume_mapFirst starts]
      exact reopen_bind_congr (step_among_evaluateChunk plain s branches) fun _ t => ih branches t
    next kind =>
      cases branches with
      | nil =>
        rw [resume_turn_stray]
        exact reopen_step_stray kind (fun _ => rfl) s
      | cons inner branches =>
        rw [resume_turn]
        exact reopen_bind_congr (step_among_passMark kind (fun _ => rfl) s) fun _ t => ih _ t
    next kind =>
      cases branches with
      | nil =>
        rw [resume_close_stray]
        exact reopen_step_stray kind (fun _ => rfl) s
      | cons inner branches =>
        rw [resume_close]
        exact reopen_bind_congr (step_among_passMark kind (fun _ => rfl) s) fun _ t => ih _ t
    next expected kind =>
      have starts (ending : Option PlacedChunk) (executed : Bool) (part : Part) :
          (Part.conditional c expected parts ending part).evaluate env executed =
            (do aroundParts expected executed ending.isSome fun executes =>
                  parts.evaluate env executes
                part.evaluate env executed) := by
        rw [Part.evaluate]
      cases outer with
      | nil =>
        have front : Parts.last (.conditional c expected parts none .done) =
            (Parts.last .done).mapFirst (.conditional c expected parts none) := rfl
        rw [front, resume_mapFirst (starts none)]
        exact reopen_step_branch kind (fun inner t => ih (inner :: branches) t) s
      | cons first outer =>
        obtain ⟨ending, after⟩ := first
        rw [resume_mapFirst (starts (some ending))]
        exact reopen_step_branch kind (fun inner t => ih (inner :: branches) t) s

end Machine

/-- The machine does what the tree of a script says, in success and in failure. -/
theorem Script.execute_eq_executeNested (script : Script) (context : Option SpendContext)
    (flags : Flags) (stack : Stack) :
    script.execute context flags stack = script.executeNested context flags stack := by
  let env : Environment := ⟨context, script, flags⟩
  have same : Machine.reopen [] (Machine.run env { stack }) =
      Machine.reopen [] ((Reading.ofChunks script.chunks).evaluate env { stack }) :=
    Machine.steps_closeRun_eq_resume script.chunks [] { stack }
  unfold execute executeNested
  generalize Machine.run env { stack } = flat at same
  generalize (Reading.ofChunks script.chunks).evaluate env { stack } = nested at same
  cases flat with
  | ok _ s =>
    cases nested with
    | ok _ t =>
      have sameStack : (s.withBranches []).stack = (t.withBranches []).stack :=
        congrArg State.stack (EStateM.Result.ok.inj same).2
      exact congrArg Except.ok sameStack
    | error e t => cases same
  | error e s =>
    cases nested with
    | ok _ t => cases same
    | error e' t => exact congrArg Except.error (EStateM.Result.error.inj same).1

namespace Machine

/-- A script does what it says read as a tree of conditionals: of the parts of one that is executed
either all with an even number are executed or all with an odd one, and of one that is skipped none.
Whatever is skipped touches neither the stacks nor the separator and fails for few reasons. So only
properly nested scripts run to their end. -/
theorem conditionals_are_nested_parts :
    (∀ chunks : List PlacedChunk, (Reading.ofChunks chunks).chunks = chunks) ∧
    (∀ (script : Script) (context : Option SpendContext) (flags : Flags) (stack : Stack),
      script.execute context flags stack = script.executeNested context flags stack) ∧
    (∀ (env : Environment) (part : Part) (s : State),
      LeavesUntouched s (part.evaluate env false s)) ∧
    (∀ (env : Environment) (c : PlacedChunk) (s : State), s.isActive = false →
      LeavesUntouched s (step env c s)) ∧
    ∀ (script : Script) (context : Option SpendContext) (flags : Flags) (stack final : Stack),
      script.execute context flags stack = .ok final → ProperlyNested script.chunks :=
  ⟨Reading.chunks_ofChunks, Script.execute_eq_executeNested,
    fun env part => part.evaluate_onlyCounts env, fun _ _ _ => leavesUntouched_step,
    fun _ _ _ _ _ => Script.properlyNested_of_execute⟩

/-- Of four parts the second and the fourth are executed under a false value. The third is skipped
with the conditional in it. -/
def turningScript : Script :=
  .assemble [.op Opcode.ifTrue, .op 0x6a, .op Opcode.otherwise, .op Opcode.one,
    .op Opcode.otherwise, .op Opcode.ifTrue, .op 0x6a, .op Opcode.endIf, .op Opcode.otherwise,
    .op 0x52, .op Opcode.endIf]

theorem conditionals_are_nested_parts_turning :
    let env : Environment := ⟨none, turningScript, .standard⟩
    let skipping : State := { stack := [[9]], branches := [false] }
    turningScript.execute none .standard [[]] = .ok [[2], [1]] ∧
      turningScript.executeNested none .standard [[]] = .ok [[2], [1]] ∧
      ProperlyNested turningScript.chunks ∧ skipping.isActive = false ∧
      LeavesUntouched skipping (step env ⟨.op 0x6a, 1⟩ skipping) := by
  intro env skipping
  obtain ⟨-, same, -, untouched, nested⟩ := conditionals_are_nested_parts
  have ran : turningScript.execute none .standard [[]] = .ok [[2], [1]] := by cbv
  have skipped : skipping.isActive = false := rfl
  exact ⟨ran, (same turningScript none .standard [[]]).symm.trans ran,
    nested turningScript none .standard [[]] _ ran, skipped, untouched env _ skipping skipped⟩

end Machine

end TokenLedger
