import Mathlib
import TokenLedger.Proofs.Machine.Effect

/-!
# Conditionals as nested parts

Instead of keeping track of what is open, a script can be read as a tree first: a conditional is an
opening chunk, parts with turning chunks between them, and a closing chunk, and each part may hold
conditionals again. The meaning of the tree is given here part by part: a part is executed as a
whole or skipped as a whole. Scripts that are not properly nested are read as far as they go.
-/

namespace TokenLedger

def Instruction.conditional? : Instruction → Option Conditional
  | .conditional op => some op
  | _ => none

/-- The conditional instruction of a chunk. -/
def PlacedChunk.conditional? (c : PlacedChunk) : Option Conditional :=
  match c.chunk with
  | .push _ _ => none
  | .op code => (Instruction.ofCode code).conditional?

/-! ### Reading -/

mutual

/-- A row of chunks and whole conditionals. -/
inductive Part where
  | done
  | chunk (c : PlacedChunk) (rest : Part)
  /-- Without an ending the conditional is still open where the script ends. -/
  | conditional (opening : PlacedChunk) (expected : Bool) (parts : Parts)
      (ending : Option PlacedChunk) (rest : Part)

/-- The parts of a conditional, and the chunks that turn from each to the next. -/
inductive Parts where
  | last (part : Part)
  | turn (part : Part) (turning : PlacedChunk) (others : Parts)

end

/-- Chunks read as parts. Closing chunks without an opening separate what stands between them. -/
structure Reading where
  parts : Parts
  outer : List (PlacedChunk × Parts)

mutual

/-- The chunks of a part in their order. -/
def Part.chunks : Part → List PlacedChunk
  | .done => []
  | .chunk c rest => c :: rest.chunks
  | .conditional opening _ parts ending rest =>
    opening :: (parts.chunks ++ (ending.toList ++ rest.chunks))

def Parts.chunks : Parts → List PlacedChunk
  | .last part => part.chunks
  | .turn part turning others => part.chunks ++ turning :: others.chunks

end

def Reading.chunks (reading : Reading) : List PlacedChunk :=
  reading.parts.chunks ++ reading.outer.flatMap fun (ending, parts) => ending :: parts.chunks

/-- Puts something in front of the first part. -/
def Parts.mapFirst (f : Part → Part) : Parts → Parts
  | .last part => .last (f part)
  | .turn part turning others => .turn (f part) turning others

/-- Reads chunks from the last to the first. An opening chunk takes what was read up to the first
closing chunk that has no opening yet. -/
def Reading.ofChunks : List PlacedChunk → Reading
  | [] => ⟨.last .done, []⟩
  | c :: chunks =>
    let ⟨parts, outer⟩ := ofChunks chunks
    match c.conditional? with
    | none => ⟨parts.mapFirst (.chunk c), outer⟩
    | some .otherwise => ⟨.turn .done c parts, outer⟩
    | some .close => ⟨.last .done, (c, parts) :: outer⟩
    | some (.branch expected) =>
      match outer with
      | [] => ⟨.last (.conditional c expected parts none .done), []⟩
      | (ending, after) :: outer =>
        ⟨after.mapFirst (.conditional c expected parts (some ending)), outer⟩

theorem Parts.chunks_mapFirst {f : Part → Part} (front : List PlacedChunk)
    (puts : ∀ part, (f part).chunks = front ++ part.chunks) (parts : Parts) :
    (parts.mapFirst f).chunks = front ++ parts.chunks := by
  cases parts with
  | last part => simp [mapFirst, chunks, puts]
  | turn part turning others => simp [mapFirst, chunks, puts]

/-- The tree holds the chunks that it was read from, in their order. -/
theorem Reading.chunks_ofChunks (chunks : List PlacedChunk) :
    (ofChunks chunks).chunks = chunks := by
  induction chunks with
  | nil => rfl
  | cons c rest ih =>
    rcases read : ofChunks rest with ⟨parts, outer⟩
    rw [read, Reading.chunks] at ih
    dsimp only at ih
    simp only [ofChunks, read]
    split
    · rw [Reading.chunks, Parts.chunks_mapFirst [c] fun _ => rfl]
      simp [ih]
    · simp [Reading.chunks, Parts.chunks, Part.chunks, ih]
    · simp [Reading.chunks, Parts.chunks, Part.chunks, ih]
    next expected _ =>
      cases outer with
      | nil => simpa [Reading.chunks, Parts.chunks, Part.chunks] using ih
      | cons first outer =>
        obtain ⟨ending, after⟩ := first
        have puts (part : Part) :
            (Part.conditional c expected parts (some ending) part).chunks =
              (c :: (parts.chunks ++ [ending])) ++ part.chunks := by simp [Part.chunks]
        rw [Reading.chunks, Parts.chunks_mapFirst _ puts]
        simpa using ih

/-! ### Proper nesting -/

/-- How deep conditionals are open behind the chunks, if none of them turns or closes a conditional
where none is open. -/
def depthBehind (depth : Nat) : List PlacedChunk → Option Nat
  | [] => some depth
  | c :: chunks =>
    match c.conditional?, depth with
    | none, depth => depthBehind depth chunks
    | some (.branch _), depth => depthBehind (depth + 1) chunks
    | some .otherwise, depth + 1 => depthBehind (depth + 1) chunks
    | some .close, depth + 1 => depthBehind depth chunks
    | some _, 0 => none

/-- Conditionals are turned and closed inside only, and all of them are closed. -/
def ProperlyNested (chunks : List PlacedChunk) : Prop := depthBehind 0 chunks = some 0

section

variable {env : Environment} {s s' : State}

/-- Each chunk opens and closes in the machine as it does in the script. -/
theorem depthBehind_of_step {c : PlacedChunk} (stepped : Machine.step env c s = .ok () s')
    (chunks : List PlacedChunk) :
    depthBehind s.branches.length (c :: chunks) = depthBehind s'.branches.length chunks := by
  obtain ⟨chunk, offset⟩ := c
  cases chunk with
  | push code data =>
    obtain ⟨pushed, -⟩ := Machine.step_push_eq_ok_iff.mp stepped
    obtain ⟨-, effect⟩ := Machine.stepPush_eq_ok_iff.mp pushed
    have same : s'.branches = s.branches := by
      split at effect
      · rw [effect.2]
      · rw [effect]
    rw [same]
    rfl
  | op code =>
    obtain ⟨executed, -⟩ := Machine.step_op_eq_ok_iff.mp stepped
    obtain ⟨-, effect⟩ := Machine.stepCode_eq_ok_iff.mp executed
    generalize meaning : Instruction.ofCode code = instruction at effect
    have kind : PlacedChunk.conditional? ⟨.op code, offset⟩ = instruction.conditional? := by
      rw [← meaning]
      rfl
    have before : (Machine.counted code s).branches = s.branches := rfl
    split at effect
    next =>
      have effect := Machine.effect_of_execute effect
      cases effect with
      | otherwise within | close within =>
        rw [before] at within
        simp [depthBehind, kind, Instruction.conditional?, within]
      | checkMultiSig ran =>
        simp [depthBehind, kind, Instruction.conditional?, ran.after, before]
      | _ => simp [depthBehind, kind, Instruction.conditional?, before]
    next skipped =>
      have plain : instruction.conditional? = none := by
        cases instruction with
        | conditional op => simp [Machine.takesEffectWhenSkipped] at skipped
        | _ => rfl
      simp [depthBehind, kind, plain, effect, before]

theorem depthBehind_of_steps {chunks : List PlacedChunk}
    (ran : Machine.steps env chunks s = .ok () s') :
    depthBehind s.branches.length chunks = some s'.branches.length := by
  induction chunks generalizing s with
  | nil =>
    rw [Machine.steps_nil_eq_ok_iff.mp ran]
    rfl
  | cons c chunks ih =>
    obtain ⟨between, stepped, rest⟩ := Machine.steps_cons_eq_ok_iff.mp ran
    rw [depthBehind_of_step stepped, ih rest]

/-- What runs to its end is properly nested, whatever is on the stack. -/
theorem Script.properlyNested_of_execute {script : Script} {context : Option SpendContext}
    {flags : Flags} {stack final : Stack}
    (ran : script.execute context flags stack = .ok final) : ProperlyNested script.chunks := by
  obtain ⟨s, steps, closed, -⟩ := execute_eq_ok_iff.mp ran
  have depth := depthBehind_of_steps steps
  rw [closed] at depth
  exact depth

end

namespace Machine

/-! ### Executing -/

/-- A push that is executed. -/
def executePush (env : Environment) (chunk : Chunk) (data : Bytes) : MachineM Unit := do
  if Limits.elementSize < data.length then fault .pushSize
  if env.flags.requiresMinimal && !chunk.isShortestPush then fault .minimalData
  push data

/-- A code that is executed. -/
def executeCode (env : Environment) (code : UInt8) (offset : Nat) : MachineM Unit := do
  if Opcode.sixteen < code then countOperations 1
  execute env code offset (Instruction.ofCode code)

/-- Executes a chunk that is no conditional. -/
def executeChunk (env : Environment) (c : PlacedChunk) : MachineM Unit := do
  match c.chunk with
  | .push _ data => executePush env c.chunk data
  | .op code => executeCode env code c.offset
  checkStackSize

/-- The instructions that fail everywhere. -/
def failAnywhere (code : UInt8) : Instruction → MachineM Unit
  | .disabled => fault (.disabledOpcode code)
  | .forbidden => fault (.badOpcode code)
  | _ => pure ()

def skipPush (data : Bytes) : MachineM Unit :=
  if Limits.elementSize < data.length then fault .pushSize else pure ()

def skipCode (code : UInt8) : MachineM Unit := do
  if Opcode.sixteen < code then countOperations 1
  failAnywhere code (Instruction.ofCode code)

/-- Passes over a chunk that is no conditional. Only limits and codes that fail everywhere
matter. -/
def skipChunk (c : PlacedChunk) : MachineM Unit := do
  match c.chunk with
  | .push _ data => skipPush data
  | .op code => skipCode code
  checkStackSize

def evaluateChunk (env : Environment) (executed : Bool) (c : PlacedChunk) : MachineM Unit :=
  if executed then executeChunk env c else skipChunk c

/-- Which parts of a conditional are executed. In a skipped part none is. Otherwise the truth of the
top of the stack decides: either all with an even number are or all with an odd one. -/
def chooseParts (expected executed : Bool) : MachineM (Nat → Bool) := fun s =>
  if !executed then .ok (fun _ => false) s
  else
    match s.stack with
    | [] => .error (.evaluation .unbalancedConditional) s
    | top :: stack =>
      .ok (fun number => (number % 2 == 0) == (ScriptNumber.isTrue top == expected))
        { s with stack }

/-- Passes a turning or closing chunk, which is an operation. -/
def passMark : MachineM Unit := do
  countOperations 1
  checkStackSize

/-- A conditional that is still open where the script ends fails there. -/
def passEnding (closed : Bool) : MachineM Unit :=
  if closed then passMark else fault .unbalancedConditional

/-- A conditional whose parts are evaluated by `inside`, told which of them to execute. -/
def aroundParts (expected executed closed : Bool) (inside : (Nat → Bool) → MachineM Unit) :
    MachineM Unit := do
  countOperations 1
  let executes ← chooseParts expected executed
  checkStackSize
  inside executes
  passEnding closed

end Machine

open Machine

mutual

/-- A part as a whole, executed or skipped. In a skipped part everything is skipped. -/
def Part.evaluate (env : Environment) (executed : Bool) : Part → MachineM Unit
  | .done => pure ()
  | .chunk c rest => do
    evaluateChunk env executed c
    rest.evaluate env executed
  | .conditional _ expected parts ending rest => do
    aroundParts expected executed ending.isSome fun executes => parts.evaluate env executes
    rest.evaluate env executed

/-- The parts of a conditional, numbered from zero. -/
def Parts.evaluate (env : Environment) (executes : Nat → Bool) : Parts → MachineM Unit
  | .last part => part.evaluate env (executes 0)
  | .turn part _ others => do
    part.evaluate env (executes 0)
    passMark
    others.evaluate env fun number => executes (number + 1)

end

/-- A whole script. A turning or closing chunk outside of every conditional is an operation still,
but the last one. -/
def Reading.evaluate (env : Environment) (reading : Reading) : MachineM Unit :=
  match reading.parts, reading.outer with
  | .last part, [] => part.evaluate env true
  | .last part, _ :: _ | .turn part _ _, _ => do
    part.evaluate env true
    countOperations 1
    fault .unbalancedConditional

/-- The stack that a script leaves, evaluated as nested parts. -/
def Script.executeNested (script : Script) (context : Option SpendContext) (flags : Flags)
    (stack : Stack) : Except Error Stack :=
  match (Reading.ofChunks script.chunks).evaluate { context, script, flags } { stack } with
  | .ok () s => .ok s.stack
  | .error e _ => .error e

/-! ### Skipped parts -/

/-- The failures that a skipped part can end a run with. -/
inductive SkippedFault : Error → Prop where
  | pushSize : SkippedFault (.evaluation .pushSize)
  | operations : SkippedFault (.evaluation .tooManyOperations)
  | disabled {code : UInt8} (disabled : Opcode.isDisabled code = true) :
      SkippedFault (.evaluation (.disabledOpcode code))
  | version {code : UInt8} (version : code = Opcode.verIf ∨ code = Opcode.verNotIf) :
      SkippedFault (.evaluation (.badOpcode code))
  | nesting : SkippedFault (.evaluation .unbalancedConditional)
  | stackSize : SkippedFault (.evaluation .stackSize)

theorem Instruction.ofCode_eq_forbidden_iff (code : UInt8) :
    ofCode code = forbidden ↔ code = Opcode.verIf ∨ code = Opcode.verNotIf := by
  revert code
  exact forall_byte (by decide +kernel)

/-- The two states differ in what is counted at most. -/
structure Untouched (s t : State) : Prop where
  stack : t.stack = s.stack
  altStack : t.altStack = s.altStack
  separator : t.separator = s.separator
  checks : t.checks = s.checks

namespace Untouched

theorem refl (s : State) : Untouched s s := ⟨rfl, rfl, rfl, rfl⟩

theorem trans {s t u : State} (first : Untouched s t) (second : Untouched t u) : Untouched s u :=
  ⟨second.stack.trans first.stack, second.altStack.trans first.altStack,
    second.separator.trans first.separator, second.checks.trans first.checks⟩

end Untouched

/-- What is left of a state from which nothing is executed: it is untouched, also where the run ends
with one of the failures of skipped parts. -/
def LeavesUntouched {α : Type} (s : State) : EStateM.Result Error State α → Prop
  | .ok _ t => Untouched s t
  | .error e t => Untouched s t ∧ SkippedFault e

theorem LeavesUntouched.bind {α β : Type} {m : MachineM α} {next : α → MachineM β} {s : State}
    (head : LeavesUntouched s (m s))
    (tail : ∀ value t, m s = .ok value t → LeavesUntouched t (next value t)) :
    LeavesUntouched s ((m >>= next) s) := by
  cases ran : m s with
  | error e t =>
    rw [ran] at head
    rw [estate_bind_of_error ran]
    exact head
  | ok value t =>
    rw [ran] at head
    rw [estate_bind_of_ok ran]
    have behind := tail value t ran
    cases rest : next value t with
    | error e u =>
      rw [rest] at behind
      exact ⟨head.trans behind.1, behind.2⟩
    | ok result u =>
      rw [rest] at behind
      exact head.trans behind

/-- The action only counts, and fails as skipped parts fail. -/
def OnlyCounts {α : Type} (m : MachineM α) : Prop := ∀ s, LeavesUntouched s (m s)

namespace OnlyCounts

variable {α β : Type} {m : MachineM α}

theorem pure (value : α) : OnlyCounts (Pure.pure value : MachineM α) := fun s => .refl s

theorem fault {cause : ScriptError} (allowed : SkippedFault (.evaluation cause)) :
    OnlyCounts (Machine.fault cause : MachineM α) := fun s => ⟨.refl s, allowed⟩

theorem bind {next : α → MachineM β} (head : OnlyCounts m)
    (tail : ∀ value, OnlyCounts (next value)) : OnlyCounts (m >>= next) :=
  fun s => (head s).bind fun value t _ => tail value t

theorem ite {condition : Prop} [Decidable condition] {n : MachineM α}
    (yes : condition → OnlyCounts m) (no : ¬ condition → OnlyCounts n) :
    OnlyCounts (if condition then m else n) := by
  split
  next holds => exact yes holds
  next fails => exact no fails

end OnlyCounts

theorem countOperations_onlyCounts (count : Nat) : OnlyCounts (countOperations count) := by
  intro s
  rw [countOperations_eq]
  by_cases exceeds : Limits.operations < s.operations + count
  · rw [if_pos exceeds]
    exact ⟨⟨rfl, rfl, rfl, rfl⟩, .operations⟩
  · rw [if_neg exceeds]
    exact ⟨rfl, rfl, rfl, rfl⟩

theorem checkStackSize_onlyCounts : OnlyCounts checkStackSize := by
  intro s
  rw [checkStackSize_eq]
  by_cases exceeds : Limits.stackSize < s.stack.length + s.altStack.length
  · rw [if_pos exceeds]
    exact ⟨.refl s, .stackSize⟩
  · rw [if_neg exceeds]
    exact .refl s

theorem passMark_onlyCounts : OnlyCounts passMark :=
  .bind (countOperations_onlyCounts 1) fun _ => checkStackSize_onlyCounts

theorem skipCode_onlyCounts (code : UInt8) : OnlyCounts (skipCode code) := by
  have fails : OnlyCounts (failAnywhere code (Instruction.ofCode code)) := by
    unfold failAnywhere
    split
    next disabled =>
      exact .fault (.disabled ((Instruction.ofCode_eq_disabled_iff code).mp disabled))
    next forbidden =>
      exact .fault (.version ((Instruction.ofCode_eq_forbidden_iff code).mp forbidden))
    next => exact .pure _
  exact .ite (fun _ => .bind (countOperations_onlyCounts 1) fun _ => fails) fun _ => fails

theorem skipChunk_onlyCounts (c : PlacedChunk) : OnlyCounts (skipChunk c) := by
  obtain ⟨chunk, offset⟩ := c
  cases chunk with
  | push code data =>
    exact .bind (.ite (fun _ => .fault .pushSize) fun _ => .pure _) fun _ =>
      checkStackSize_onlyCounts
  | op code => exact .bind (skipCode_onlyCounts code) fun _ => checkStackSize_onlyCounts

theorem aroundParts_onlyCounts {expected closed : Bool} {inside : (Nat → Bool) → MachineM Unit}
    (skips : OnlyCounts (inside fun _ => false)) :
    OnlyCounts (aroundParts expected false closed inside) :=
  .bind (countOperations_onlyCounts 1) fun _ =>
    show OnlyCounts (do
      checkStackSize
      inside fun _ => false
      passEnding closed) from
    .bind checkStackSize_onlyCounts fun _ => .bind skips fun _ =>
      .ite (fun _ => passMark_onlyCounts) fun _ => .fault .nesting

mutual

/-- A skipped part leaves everything but the count of operations as it was. -/
theorem Part.evaluate_onlyCounts (env : Environment) (part : Part) :
    OnlyCounts (part.evaluate env false) := by
  cases part with
  | done => exact .pure _
  | chunk c rest =>
    exact .bind (skipChunk_onlyCounts c) fun _ => rest.evaluate_onlyCounts env
  | conditional opening expected parts ending rest =>
    have around : OnlyCounts (aroundParts expected false ending.isSome fun executes =>
        parts.evaluate env executes) :=
      aroundParts_onlyCounts (parts.evaluate_onlyCounts env)
    exact .bind around fun _ => rest.evaluate_onlyCounts env

theorem Parts.evaluate_onlyCounts (env : Environment) (parts : Parts) :
    OnlyCounts (parts.evaluate env fun _ => false) := by
  cases parts with
  | last part => exact part.evaluate_onlyCounts env
  | turn part turning others =>
    exact .bind (part.evaluate_onlyCounts env) fun _ => .bind passMark_onlyCounts fun _ =>
      others.evaluate_onlyCounts env

end

end TokenLedger
