import Mathlib
import TokenLedger.Proofs.Machine.Checks
import TokenLedger.Proofs.Machine.Matching
import TokenLedger.Proofs.Machine.Separator
import TokenLedger.Proofs.Script.Stripping
import TokenLedger.Proofs.SignatureHash.View

/-!
# Checking many signatures

With its operands on the stack and within the limits, the check of many signatures decides whether
the signatures can be matched with some of the keys in order. All pairs are checked on one script,
from which all the signatures have been removed.
-/

namespace TokenLedger

open List (SublistForall₂)

/-! ### One pair -/

/-- The failures of the rules on encodings. -/
inductive EncodingFault : Error → Prop where
  | signature : EncodingFault (.evaluation .signatureEncoding)
  | hashType : EncodingFault (.evaluation .undefinedHashType)
  | key : EncodingFault (.evaluation .pubkeyEncoding)

namespace Environment

variable {env : Environment} {connected : Script} {signature key : Bytes}

/-- The input being spent is there. -/
def ValidContext (env : Environment) : Prop :=
  ∀ context, env.context = some context → context.inputIndex < context.tx.inputs.length

theorem requiresCanonical_of_checkEncodings_eq_error {e : Error}
    (failed : env.checkEncodings signature key = .error e) :
    env.flags.requiresCanonical = true ∧ EncodingFault e := by
  have strict (has : env.flags.has .strictEncoding = true) :
      env.flags.requiresCanonical = true := by
    simp [Flags.requiresCanonical, has]
  have unguarded : ¬ (pure () : Except Error Unit) = .error e := by
    intro impossible
    cases impossible
  simp only [checkEncodings, Bool.and_eq_true] at failed
  by_cases looked : env.flags.requiresCanonical = true ∧ (!signature.isEmpty) = true
  · rw [if_pos looked, guard_bind_eq_error, guard_bind_eq_error, guard_eq_error] at failed
    refine ⟨looked.1, ?_⟩
    rcases failed with ⟨-, rfl⟩ | ⟨-, ⟨-, rfl⟩ | ⟨-, ⟨-, rfl⟩ | ⟨-, passed⟩⟩⟩
    · exact .signature
    · exact .hashType
    · exact .key
    · exact absurd passed unguarded
  · rw [if_neg looked, guard_eq_error] at failed
    rcases failed with ⟨blocked, rfl⟩ | ⟨-, passed⟩
    · exact ⟨strict blocked.1, .key⟩
    · exact absurd passed unguarded

theorem checkSignature_eq_error (valid : env.ValidContext) {e : Error}
    (failed : env.checkSignature connected signature key = .error e) :
    env.flags.requiresCanonical = true ∧ EncodingFault e := by
  unfold checkSignature at failed
  obtain rules | ⟨_, -, later⟩ := except_bind_eq_error.mp failed
  · exact requiresCanonical_of_checkEncodings_eq_error rules
  · split at later
    next => cases later
    next context known =>
      split at later
      next =>
        obtain undigested | ⟨_, -, verified⟩ := except_bind_eq_error.mp later
        · have inRange := valid context known
          unfold SignatureHash.digest at undigested
          rw [if_neg (by omega)] at undigested
          split at undigested <;> cases undigested
        · cases verified
      next => cases later

/-- Without the rules on encodings the loop always decides. -/
theorem exists_matchInOrder_eq_ok (lax : env.flags.requiresCanonical = false)
    (valid : env.ValidContext) (connected : Script) (signatures keys : List Bytes) :
    ∃ accepted : Bool,
      matchInOrder (env.checkSignature connected) signatures keys = .ok accepted ∧
      (accepted = true ↔
        SublistForall₂ (Accepts (env.checkSignature connected)) signatures keys) := by
  cases result : matchInOrder (env.checkSignature connected) signatures keys with
  | ok accepted => exact ⟨accepted, rfl, accepted_iff_of_matchInOrder result⟩
  | error e =>
    obtain ⟨signature, key, failed⟩ := exists_check_of_matchInOrder_eq_error result
    have canonical := (checkSignature_eq_error valid failed).1
    rw [lax] at canonical
    cases canonical

end Environment

/-! ### The instruction -/

namespace Machine

variable {env : Environment} {s : State} {operands : MultiSigOperands} {rest : Stack}

/-- The operands of a check of many signatures, each list in the order in which it was pushed. -/
structure MultiSigOperands where
  signatures : List Bytes
  keys : List Bytes
  signatureCount : Bytes
  keyCount : Bytes
  dummy : Bytes

/-- The operands lie on top of `rest`, and everything is within the limits. -/
structure MultiSigCall (env : Environment) (s : State) (operands : MultiSigOperands)
    (rest : Stack) : Prop where
  stack : s.stack = operands.keyCount :: (operands.keys.reverse ++
    operands.signatureCount :: (operands.signatures.reverse ++ operands.dummy :: rest))
  countsKeys : StackOp.operand env.flags.requiresMinimal operands.keyCount =
    .ok (operands.keys.length : Int)
  countsSignatures : StackOp.operand env.flags.requiresMinimal operands.signatureCount =
    .ok (operands.signatures.length : Int)
  keysInRange : operands.keys.length ≤ Limits.keys
  enoughKeys : operands.signatures.length ≤ operands.keys.length
  budget : s.operations + 1 + operands.keys.length ≤ Limits.operations
  dummyEmpty : env.flags.has .nullDummy = true → operands.dummy = []

theorem popCount_of_operand {bytes : Bytes} {rest : Stack} {count maximum : Nat}
    {cause : ScriptError} (stack : s.stack = bytes :: rest)
    (reads : StackOp.operand env.flags.requiresMinimal bytes = .ok (count : Int))
    (inRange : count ≤ maximum) :
    popCount env maximum cause s = .ok count { s with stack := rest } := by
  have taken : pop s = .ok bytes { s with stack := rest } := by simp [pop, stack]
  have within : (0 : Int) ≤ count ∧ (count : Int) ≤ maximum := by omega
  rw [popCount, estate_bind_of_ok taken]
  simp only [reads]
  rw [if_pos within]
  rfl

theorem popBelowOne_append {taken : List Bytes} {below : Bytes} {rest : Stack}
    (stack : s.stack = taken ++ below :: rest) :
    popBelowOne taken.length s = .ok taken { s with stack := below :: rest } := by
  unfold popBelowOne
  rw [if_neg, stack, List.take_left, List.drop_left]
  rw [stack, List.length_append, List.length_cons]
  omega

theorem stepCode_of_active {code : UInt8} {offset : Nat} (active : s.isActive = true)
    (counts : Opcode.sixteen < code) (within : s.operations + 1 ≤ Limits.operations) :
    stepCode env code offset s =
      execute env code offset (Instruction.ofCode code) (counted code s) := by
  have counting : countOperations 1 s = .ok () (counted code s) := by
    rw [countOperations_eq_ok_iff]
    exact ⟨within, by simp [counted, counts]⟩
  unfold stepCode
  dsimp only
  rw [if_pos counts, estate_bind_of_ok counting, estate_get_bind]
  rw [if_pos]
  rw [show (counted code s).isActive = s.isActive from rfl, active, Bool.true_or]

/-- Everything but the last operand has been taken, and the keys have been counted. -/
def operandsTaken (operands : MultiSigOperands) (rest : Stack) (s : State) : State :=
  { s with
    stack := operands.dummy :: rest
    operations := s.operations + 1 + operands.keys.length }

/-- Once the operands are taken, they are matched behind the separator. -/
theorem checkMultiSig_eq_of_call (call : MultiSigCall env s operands rest) :
    checkMultiSig env (counted Opcode.checkMultiSig s) =
      matchOperands env operands.signatures.reverse operands.keys.reverse s.separator
        (operandsTaken operands rest s) := by
  let belowKeys :=
    operands.signatureCount :: (operands.signatures.reverse ++ operands.dummy :: rest)
  let counting : State := { s with
    stack := operands.keys.reverse ++ belowKeys
    operations := s.operations + 1 + operands.keys.length }
  have keyCount : popCount env Limits.keys .pubkeyCount (counted Opcode.checkMultiSig s) =
      .ok operands.keys.length
        { counted Opcode.checkMultiSig s with stack := operands.keys.reverse ++ belowKeys } :=
    popCount_of_operand call.stack call.countsKeys call.keysInRange
  have operations : countOperations operands.keys.length
      { counted Opcode.checkMultiSig s with stack := operands.keys.reverse ++ belowKeys } =
        .ok () counting :=
    countOperations_eq_ok_iff.mpr ⟨call.budget, rfl⟩
  have keys : popBelowOne operands.keys.length counting =
      .ok operands.keys.reverse { counting with stack := belowKeys } := by
    have taken : popBelowOne operands.keys.reverse.length counting =
        .ok operands.keys.reverse { counting with stack := belowKeys } := popBelowOne_append rfl
    rwa [List.length_reverse] at taken
  have signatureCount : popCount env operands.keys.length .signatureCount
      { counting with stack := belowKeys } =
        .ok operands.signatures.length
          { counting with stack := operands.signatures.reverse ++ operands.dummy :: rest } :=
    popCount_of_operand rfl call.countsSignatures call.enoughKeys
  have signatures : popBelowOne operands.signatures.length
      { counting with stack := operands.signatures.reverse ++ operands.dummy :: rest } =
        .ok operands.signatures.reverse (operandsTaken operands rest s) := by
    have taken : popBelowOne operands.signatures.reverse.length
        { counting with stack := operands.signatures.reverse ++ operands.dummy :: rest } =
          .ok operands.signatures.reverse (operandsTaken operands rest s) :=
      popBelowOne_append rfl
    rwa [List.length_reverse] at taken
  rw [checkMultiSig, estate_bind_of_ok keyCount, estate_bind_of_ok operations,
    estate_bind_of_ok keys, estate_bind_of_ok signatureCount, estate_bind_of_ok signatures,
    estate_get_bind]
  rfl

/-- The instruction walks along both lists from the last on, and ends as the checks alone would. A
failed check leaves the rest of the stack as it was. -/
theorem checkMultiSig_of_call (call : MultiSigCall env s operands rest) :
    let check := env.checkSignature (connectedScript env s.separator operands.signatures.reverse)
    let result := matchInOrder check operands.signatures.reverse operands.keys.reverse
    ∃ made, ChecksInOrder check operands.signatures.reverse operands.keys.reverse made ∧
      (∀ accepted, result = .ok accepted →
        checkMultiSig env (counted Opcode.checkMultiSig s) =
          .ok accepted { s with
            stack := rest
            operations := s.operations + 1 + operands.keys.length
            checks := made.reverse ++ s.checks }) ∧
      ∀ e, result = .error e →
        checkMultiSig env (counted Opcode.checkMultiSig s) =
          .error e { s with
            stack := operands.dummy :: rest
            operations := s.operations + 1 + operands.keys.length
            checks := made.reverse ++ s.checks } := by
  intro check result
  obtain ⟨made, inOrder, -, ran⟩ := matchFrom_checkRecorded operands.signatures.reverse
    operands.keys.reverse (operandsTaken operands rest s)
  let walked : State := { s with
    stack := operands.dummy :: rest
    operations := s.operations + 1 + operands.keys.length
    checks := made.reverse ++ s.checks }
  have ends : matchFrom
      (checkRecorded env (connectedScript env s.separator operands.signatures.reverse))
      operands.signatures.reverse operands.keys.reverse 0 0 (operandsTaken operands rest s) =
        finish result walked := ran
  refine ⟨made, inOrder, fun accepted decided => ?_, fun e failed => ?_⟩
  · have dummy : pop walked = .ok operands.dummy { walked with stack := rest } := rfl
    have tolerated : ¬ (env.flags.has .nullDummy && !operands.dummy.isEmpty) = true := by
      rw [Bool.and_eq_true]
      rintro ⟨forbidden, present⟩
      rw [call.dummyEmpty forbidden] at present
      cases present
    rw [decided] at ends
    rw [checkMultiSig_eq_of_call call, matchOperands, estate_bind_of_ok ends,
      estate_bind_of_ok dummy, if_neg tolerated]
    rfl
  · rw [failed] at ends
    rw [checkMultiSig_eq_of_call call, matchOperands, estate_bind_of_error ends]

theorem stepCode_checkMultiSig_of_call (call : MultiSigCall env s operands rest)
    (active : s.isActive = true) (offset : Nat) :
    let check := env.checkSignature (connectedScript env s.separator operands.signatures.reverse)
    let result := matchInOrder check operands.signatures.reverse operands.keys.reverse
    ∃ made, ChecksInOrder check operands.signatures.reverse operands.keys.reverse made ∧
      (∀ accepted, result = .ok accepted →
        stepCode env Opcode.checkMultiSig offset s =
          .ok () { s with
            stack := ScriptNumber.ofBool accepted :: rest
            operations := s.operations + 1 + operands.keys.length
            checks := made.reverse ++ s.checks }) ∧
      ∀ e, result = .error e →
        stepCode env Opcode.checkMultiSig offset s =
          .error e { s with
            stack := operands.dummy :: rest
            operations := s.operations + 1 + operands.keys.length
            checks := made.reverse ++ s.checks } := by
  intro check result
  have within : s.operations + 1 ≤ Limits.operations := by
    have budget := call.budget
    omega
  have meaning : Instruction.ofCode Opcode.checkMultiSig = .checkMultiSig false := rfl
  have executed : stepCode env Opcode.checkMultiSig offset s =
      execute env Opcode.checkMultiSig offset (.checkMultiSig false)
        (counted Opcode.checkMultiSig s) := by
    rw [stepCode_of_active active (by decide) within, meaning]
  obtain ⟨made, inOrder, decides, fails⟩ := checkMultiSig_of_call call
  refine ⟨made, inOrder, fun accepted decided => ?_, fun e failed => ?_⟩
  · rw [executed, execute, estate_bind_of_ok (decides accepted decided)]
    rfl
  · rw [executed, execute, estate_bind_of_error (fails e failed)]

/-- The failures of the instruction are those of the checks: no place is beyond the end of a
list. -/
theorem stepCode_checkMultiSig_ne_outOfRange (call : MultiSigCall env s operands rest)
    (active : s.isActive = true) (valid : env.ValidContext) (offset position length : Nat)
    (s' : State) :
    stepCode env Opcode.checkMultiSig offset s ≠ .error (.outOfRange position length) s' := by
  intro outside
  obtain ⟨made, -, decides, fails⟩ := stepCode_checkMultiSig_of_call call active offset
  cases result : matchInOrder
      (env.checkSignature (connectedScript env s.separator operands.signatures.reverse))
      operands.signatures.reverse operands.keys.reverse with
  | ok accepted =>
    rw [decides accepted result] at outside
    cases outside
  | error e =>
    rw [fails e result] at outside
    cases outside
    obtain ⟨signature, key, failed⟩ := exists_check_of_matchInOrder_eq_error result
    cases (Environment.checkSignature_eq_error valid failed).2

/-- Behind the last separator of a parsed script stands a row of its chunks. -/
theorem exists_append_of_lastSeparator {chunks : List Chunk} {before : List PlacedChunk}
    {initial : Stack} (placed : ∀ c ∈ before, c ∈ Script.place 0 chunks) :
    ∃ front back, chunks = front ++ back ∧
      lastSeparator env { stack := initial } before = (front.map Chunk.encodedLength).sum := by
  cases last : (executedSeparators env { stack := initial } before).getLast? with
  | none => exact ⟨[], chunks, rfl, by rw [lastSeparator, last]; rfl⟩
  | some c =>
    obtain ⟨mem, separates⟩ := mem_executedSeparators (List.mem_of_getLast? last)
    obtain ⟨front, back, rfl, same⟩ := Script.exists_append_of_mem_place (placed c mem)
    refine ⟨front ++ [c.chunk], back, by simp, ?_⟩
    simp [lastSeparator, last, same, separates, Chunk.encodedLength]

/-- The script that the signatures commit to, chunk by chunk. -/
theorem connectedScript_assemble {front back : List Chunk} {signatures : List Bytes}
    (script : env.script = .assemble (front ++ back))
    (good : ∀ chunk ∈ back, chunk.WellFormed)
    (fit : ∀ signature ∈ signatures, signature.length < 2 ^ 32) :
    connectedScript env (front.map Chunk.encodedLength).sum signatures =
      .assemble (back.filter (· ∉ signatures.map Chunk.ofData)) := by
  rw [connectedScript, script, Script.dropTo_assemble, Script.foldl_remove_encodeData good fit]

/-- The instruction replaces its operands by whether the signatures can be matched with keys in
order, all pairs checked on the script behind the last separator without any of the signatures. It
fails only with an encoding that the rules forbid, and however it ends, it has only checked
signatures and keys that are there. Whatever the checks say, the loop never looks beyond the end of
a list: it is the walk along both of them, and the instruction ends with no such fault. -/
theorem checkMultiSig_decides_matching {initial : Stack} {before after : List PlacedChunk}
    {offset : Nat}
    (stands : env.script.chunks = before ++ ⟨.op Opcode.checkMultiSig, offset⟩ :: after)
    (reached : steps env before { stack := initial } = .ok () s) (active : s.isActive = true)
    (call : MultiSigCall env s operands rest) (valid : env.ValidContext) :
    let start := lastSeparator env { stack := initial } before
    let connected := operands.signatures.reverse.foldl
      (fun script signature => script.remove (Chunk.encodeData signature)) (env.script.dropTo start)
    let check := env.checkSignature connected
    (∃ made : List SignatureCheck,
      ChecksInOrder check operands.signatures.reverse operands.keys.reverse made ∧
      ((∃ accepted : Bool,
          (accepted = true ↔
            ∃ position : Fin operands.signatures.length → Fin operands.keys.length,
              StrictMono position ∧
                ∀ j, check operands.signatures[j] operands.keys[position j] = .ok true) ∧
          stepCode env Opcode.checkMultiSig offset s =
            .ok () { s with
              stack := ScriptNumber.ofBool accepted :: rest,
              operations := s.operations + 1 + operands.keys.length,
              checks := made.reverse ++ s.checks }) ∨
        (env.flags.requiresCanonical = true ∧
          ∃ e s', EncodingFault e ∧ stepCode env Opcode.checkMultiSig offset s = .error e s' ∧
            s'.checks = made.reverse ++ s.checks))) ∧
    (∀ chunks : List Chunk, env.script = .assemble chunks → (∀ chunk ∈ chunks, chunk.WellFormed) →
      (∀ signature ∈ operands.signatures, signature.length < 2 ^ 32) →
      ∃ front back, chunks = front ++ back ∧ start = (front.map Chunk.encodedLength).sum ∧
        connected = .assemble (back.filter (· ∉ operands.signatures.map Chunk.ofData))) ∧
    (∀ accepts : Bytes → Bytes → MachineM Bool,
      matchFrom accepts operands.signatures.reverse operands.keys.reverse 0 0 =
        matchInOrder accepts operands.signatures.reverse operands.keys.reverse) ∧
    ∀ (position length : Nat) (s' : State),
      stepCode env Opcode.checkMultiSig offset s ≠ .error (.outOfRange position length) s' := by
  intro start connected check
  have separator : s.separator = start := separator_of_steps reached
  have script : connectedScript env s.separator operands.signatures.reverse = connected := by
    rw [separator]
    rfl
  refine ⟨?_, ?_, ?_, ?_⟩
  · obtain ⟨made, inOrder, decides, fails⟩ := stepCode_checkMultiSig_of_call call active offset
    rw [script] at inOrder decides fails
    refine ⟨made, inOrder, ?_⟩
    cases result : matchInOrder check operands.signatures.reverse operands.keys.reverse with
    | ok accepted =>
      refine .inl ⟨accepted, ?_, decides accepted result⟩
      rw [accepted_iff_of_matchInOrder result, sublistForall₂_reverse_iff,
        sublistForall₂_iff_exists_positions]
      rfl
    | error e =>
      obtain ⟨signature, key, failed⟩ := exists_check_of_matchInOrder_eq_error result
      obtain ⟨canonical, fault⟩ := Environment.checkSignature_eq_error valid failed
      exact .inr ⟨canonical, e, _, fault, fails e result, rfl⟩
  · intro chunks assembled good fit
    have placed : ∀ c ∈ before, c ∈ Script.place 0 chunks := by
      intro c mem
      have among : c ∈ env.script.chunks := by
        rw [stands]
        exact List.mem_append_left _ mem
      rw [assembled] at among
      exact among
    obtain ⟨front, back, rfl, behind⟩ := exists_append_of_lastSeparator placed
    have same : start = (front.map Chunk.encodedLength).sum := behind
    have goodBack : ∀ chunk ∈ back, chunk.WellFormed :=
      fun chunk mem => good chunk (List.mem_append_right _ mem)
    have fitReversed : ∀ signature ∈ operands.signatures.reverse, signature.length < 2 ^ 32 :=
      fun signature mem => fit signature (List.mem_reverse.mp mem)
    refine ⟨front, back, rfl, same, ?_⟩
    have stripped := connectedScript_assemble assembled goodBack fitReversed
    rw [← script, separator, same, stripped]
    simp only [List.map_reverse, List.mem_reverse]
  · intro accepts
    exact matchFrom_start accepts _ _
  · exact stepCode_checkMultiSig_ne_outOfRange call active valid offset

/-- Two of three keys sign behind a separator, the first and the last one. -/
theorem checkMultiSig_decides_matching_two_of_three :
    let first : Bytes := (signatureOfNonceOne
      0x5fdb10c61556de4da8100d374823a4a24b92a2e4371d32572e41f8295fc501c2).encode
    let second : Bytes := (signatureOfNonceOne
      0x266688baf0cc6606024f9032e95550556c803d274a5d450b379de508597927e7).encode
    let operands : List Chunk := [.op Opcode.codeSeparator, .push Opcode.empty [], .push 71 first,
      .push 71 second, .op 0x52, .push 33 firstKey, .push 1 [7], .push 33 secondKey, .op 0x53]
    let script := Script.assemble (operands ++ [.op Opcode.checkMultiSig])
    let tx : Transaction :=
      ⟨1, [⟨⟨FixedBytes.zero 32, 0⟩, [], Input.finalSequence⟩], [], 0, none, none, none, none⟩
    let env : Environment := ⟨some ⟨tx, 0⟩, script, Flags.ofList [.nullDummy]⟩
    let s : State :=
      { stack := [[3], secondKey, [7], firstKey, [2], second, first, []]
        operations := 1
        separator := 1 }
    script.chunks = Script.place 0 operands ++ [⟨.op Opcode.checkMultiSig, 218⟩] ∧
      steps env (Script.place 0 operands) { stack := [] } = .ok () s ∧ s.isActive = true ∧
      env.ValidContext ∧
      ∃ s', stepCode env Opcode.checkMultiSig 218 s = .ok () s' ∧ s'.stack = [[1]] ∧
        s'.operations = 5 := by
  intro first second operands script tx env s
  have stands : script.chunks = Script.place 0 operands ++ [⟨.op Opcode.checkMultiSig, 218⟩] := by
    cbv
  have reached : steps env (Script.place 0 operands) { stack := [] } = .ok () s := by cbv
  have valid : env.ValidContext := by
    intro context known
    cases known
    decide
  let taken : MultiSigOperands :=
    { signatures := [first, second]
      keys := [firstKey, [7], secondKey]
      signatureCount := [2]
      keyCount := [3]
      dummy := [] }
  have call : MultiSigCall env s taken [] :=
    { stack := rfl
      countsKeys := by cbv
      countsSignatures := by cbv
      keysInRange := by decide
      enoughKeys := by decide
      budget := by decide
      dummyEmpty := fun _ => rfl }
  -- Both are checked on one digest, that of the script without the two signatures.
  let connected := Script.assemble [.push Opcode.empty [], .op 0x52, .push 33 firstKey,
    .push 1 [7], .push 33 secondKey, .op 0x53, .op Opcode.checkMultiSig]
  have separator : lastSeparator env { stack := [] } (Script.place 0 operands) = 1 :=
    (separator_of_steps reached).symm
  have stripped : taken.signatures.reverse.foldl
      (fun script signature => script.remove (Chunk.encodeData signature)) (env.script.dropTo 1) =
        connected := by cbv
  let digest : Hash256 := ⟨Bytes.bigEndian 32
    0xe61caa471b7a22a1526faaa1799c999a03a582efb897a9b99421d55b19032b6b, by decide⟩
  have digested : SignatureHash.digest tx 0 connected ⟨0x01⟩ = .ok digest :=
    SignatureHash.digest_of_hashed (by decide) (by decide +kernel)
  have lax : env.flags.requiresCanonical = false := by decide
  have firstAccepted : env.checkSignature connected first firstKey = .ok true :=
    Environment.checkSignature_encode rfl lax (by decide) decode_firstKey digested
      (by decide +kernel)
  have secondAccepted : env.checkSignature connected second secondKey = .ok true :=
    Environment.checkSignature_encode rfl lax (by decide) decode_secondKey digested
      (by decide +kernel)
  refine ⟨stands, reached, rfl, valid, ?_⟩
  obtain ⟨⟨made, -, ⟨accepted, matched, ran⟩ | ⟨canonical, -⟩⟩, -⟩ :=
    checkMultiSig_decides_matching stands reached rfl call valid
  · have both : accepted = true := by
      refine matched.mpr ⟨![0, 2], by decide, fun j => ?_⟩
      rw [separator, stripped]
      revert j
      exact Fin.forall_fin_two.mpr ⟨firstAccepted, secondAccepted⟩
    exact ⟨_, ran, by rw [both]; rfl, rfl⟩
  · exact absurd canonical (by decide)

end Machine

end TokenLedger
