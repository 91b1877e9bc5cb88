import Mathlib
import TokenLedger.Proofs.Machine.Limits
import TokenLedger.Proofs.Script.Editing

/-!
# The bytes that signatures are checked on

A signature is checked on a script that was made from the executed one by edits: cut behind the last
separator, and stripped of the signatures themselves. A signer has only the bytes of such a script.
The digest of these is the one that is checked, because the separator stands between chunks and
edited scripts stay aligned with their bytes.
-/

namespace TokenLedger

/-- The verdict on a signature and a key if the digests of hash types are found in this way. -/
def Environment.checkSignatureBy (env : Environment)
    (digestOf : HashType → Except Error Hash256) (signature key : Bytes) : Except Error Bool := do
  env.checkEncodings signature key
  match TransactionSignature.decode false (env.flags.has .lowS) signature,
      PublicKey.decode? key with
  | .ok signature, some key =>
    let digest ← digestOf signature.hashType
    return Ecdsa.verify key digest signature.ecdsa
  | _, _ => return false

theorem Environment.checkSignature_eq_checkSignatureBy {env : Environment} {context : SpendContext}
    (known : env.context = some context) (connected : Script) (signature key : Bytes) :
    env.checkSignature connected signature key =
      env.checkSignatureBy (SignatureHash.digest context.tx context.inputIndex connected) signature
        key := by
  unfold checkSignature checkSignatureBy
  rewrite [known]
  rfl

theorem Instruction.code_of_checkSig {code : UInt8} {verify : Bool}
    (meaning : ofCode code = .checkSig verify) :
    code = Opcode.checkSig ∨ code = Opcode.checkSigVerify := by
  have every : ∀ code : UInt8, ∀ verify, ofCode code = .checkSig verify →
      code = Opcode.checkSig ∨ code = Opcode.checkSigVerify := forall_byte (by decide +kernel)
  exact every code verify meaning

/-- A check of a single signature counts. -/
theorem Instruction.sixteen_lt_of_checkSig {code : UInt8} {verify : Bool}
    (meaning : ofCode code = .checkSig verify) : Opcode.sixteen < code := by
  rcases code_of_checkSig meaning with rfl | rfl <;> decide

namespace Machine

variable {env : Environment} {s : State} {α β : Type} {kind : SignatureCheck → Prop}

/-! ### What an action adds to the record -/

/-- The state in which an action ends, be it by failing. -/
def endState : EStateM.Result Error State α → State
  | .ok _ s => s
  | .error _ s => s

/-- However the action ends, the checks that it has added to the record are of one kind. -/
def Records (kind : SignatureCheck → Prop) (m : MachineM α) (s : State) : Prop :=
  ∃ made, (endState (m s)).checks = made ++ s.checks ∧ ∀ check ∈ made, kind check

namespace Records

variable {m : MachineM α}

theorem of_same (same : (endState (m s)).checks = s.checks) : Records kind m s :=
  ⟨[], same, by simp⟩

theorem bind {next : α → MachineM β} (head : Records kind m s)
    (tail : ∀ value between, m s = .ok value between → Records kind (next value) between) :
    Records kind (m >>= next) s := by
  obtain ⟨made, checks, good⟩ := head
  cases ran : m s with
  | error e t =>
    rw [ran] at checks
    refine ⟨made, ?_, good⟩
    rw [estate_bind_of_error ran]
    exact checks
  | ok value between =>
    rw [ran] at checks
    obtain ⟨later, more, alsoGood⟩ := tail value between ran
    have first : between.checks = made ++ s.checks := checks
    refine ⟨later ++ made, ?_, List.forall_mem_append.mpr ⟨alsoGood, good⟩⟩
    rw [estate_bind_of_ok ran, more, first, List.append_assoc]

theorem get_bind {body : State → MachineM α} (each : Records kind (body s) s) :
    Records kind (get >>= body) s := by
  unfold Records
  rw [estate_get_bind]
  exact each

theorem ite {condition : Prop} [Decidable condition] {n : MachineM α} (yes : Records kind m s)
    (no : Records kind n s) : Records kind (if condition then m else n) s := by
  split
  · exact yes
  · exact no

end Records

theorem pop_records : Records kind pop s := by
  apply Records.of_same
  unfold pop
  cases s.stack <;> rfl

theorem popBelowOne_records (count : Nat) : Records kind (popBelowOne count) s := by
  apply Records.of_same
  unfold popBelowOne
  split <;> rfl

theorem countOperations_records (count : Nat) : Records kind (countOperations count) s := by
  apply Records.of_same
  rw [countOperations_eq]
  split <;> rfl

theorem popCount_records (maximum : Nat) (cause : ScriptError) :
    Records kind (popCount env maximum cause) s := by
  apply pop_records.bind
  intro bytes between _
  apply Records.of_same
  cases StackOp.operand env.flags.requiresMinimal bytes with
  | error e => rfl
  | ok n =>
    dsimp only
    split <;> rfl

theorem checks_checkStackSize (s : State) : (endState (checkStackSize s)).checks = s.checks := by
  rw [checkStackSize_eq]
  split <;> rfl

theorem checks_conclude (verify accepted : Bool) (cause : ScriptError) (s : State) :
    (endState (conclude verify accepted cause s)).checks = s.checks := by
  cases verify <;> cases accepted <;> rfl

/-! ### The checks of an instruction -/

/-- The signatures that an instruction takes, the top first. Those of a check of many lie below the
keys and two numbers. -/
def signatureOperands (s : State) : Instruction → List Bytes
  | .checkSig _ => (s.stack.drop 1).take 1
  | .checkMultiSig _ =>
    let belowKeys := s.stack.drop (1 + topNumber s)
    (belowKeys.drop 1).take (topNumber { s with stack := belowKeys })
  | _ => []

/-- The check is of one of the signatures, on the script that these commit to. -/
structure DecidedOn (env : Environment) (separator : Nat) (signatures : List Bytes)
    (check : SignatureCheck) : Prop where
  signature : check.signature ∈ signatures
  verdict : check.verdict =
    env.checkSignature (connectedScript env separator signatures) check.signature check.key

@[simp]
theorem endState_finish (result : Except Error α) (s : State) : endState (finish result s) = s := by
  cases result <;> rfl

theorem checkSig_records (verify : Bool) :
    Records (DecidedOn env s.separator (signatureOperands s (.checkSig verify)))
      (checkSig env) s := by
  cases taken : s.stack with
  | nil =>
    apply Records.of_same
    simp [checkSig, taken, endState]
  | cons key below =>
    cases below with
    | nil =>
      apply Records.of_same
      simp [checkSig, taken, endState]
    | cons signature rest =>
      have operands : signatureOperands s (.checkSig verify) = [signature] := by
        simp [signatureOperands, taken]
      let check : SignatureCheck := ⟨signature, key,
        env.checkSignature (connectedScript env s.separator [signature]) signature key⟩
      refine ⟨[check], ?_, ?_⟩
      · simp [checkSig, taken, checkRecorded_eq, check]
      · intro made mem
        obtain rfl := List.mem_singleton.mp mem
        rw [operands]
        exact ⟨List.mem_singleton.mpr rfl, rfl⟩

theorem decidedOn_of_inOrder {separator : Nat} {signatures keys : List Bytes}
    {made : List SignatureCheck} (inOrder : ChecksInOrder
      (env.checkSignature (connectedScript env separator signatures)) signatures keys made) :
    ∀ check ∈ made, DecidedOn env separator signatures check := by
  intro check mem
  obtain ⟨t, here⟩ := List.getElem?_of_mem mem
  obtain ⟨-, ofSignature, verdict⟩ := inOrder t check here
  exact ⟨List.mem_of_getElem? ofSignature, verdict⟩

/-- A walk along both lists checks signatures of the one with keys of the other. -/
theorem matchFrom_records (separator : Nat) (signatures keys : List Bytes) :
    Records (DecidedOn env separator signatures)
      (matchFrom (checkRecorded env (connectedScript env separator signatures)) signatures keys 0 0)
      s := by
  obtain ⟨made, inOrder, -, walk⟩ := @matchFrom_checkRecorded env
    (connectedScript env separator signatures) signatures keys s
  refine ⟨made.reverse, ?_, ?_⟩
  · rw [walk, endState_finish]
  · intro check mem
    exact decidedOn_of_inOrder inOrder check (List.mem_reverse.mp mem)

/-- The number that an operand was read as is the one on top of the stack. -/
theorem topNumber_of_operand {minimal : Bool} {bytes : Bytes} {rest : Stack} {count : Nat}
    (stack : s.stack = bytes :: rest)
    (reads : StackOp.operand minimal bytes = .ok (count : Int)) : topNumber s = count := by
  have number := (ScriptNumber.decode_eq_ok_iff.mp reads).2.2
  simp only [topNumber, stack, ← number, Int.toNat_natCast]

/-- The operands of a check of many signatures are where the two numbers say. -/
theorem signatureOperands_of_stack {minimal verify : Bool} {keyCount signatureCount : Bytes}
    {keys signatures : List Bytes} {below : Stack}
    (stack : s.stack = keyCount :: (keys ++ signatureCount :: (signatures ++ below)))
    (countsKeys : StackOp.operand minimal keyCount = .ok (keys.length : Int))
    (countsSignatures : StackOp.operand minimal signatureCount = .ok (signatures.length : Int)) :
    signatureOperands s (.checkMultiSig verify) = signatures := by
  have number := topNumber_of_operand stack countsKeys
  have belowKeys : s.stack.drop (1 + keys.length) = signatureCount :: (signatures ++ below) := by
    rw [stack, Nat.add_comm, List.drop_succ_cons, List.drop_left]
  have numberBelow :
      topNumber { s with stack := signatureCount :: (signatures ++ below) } = signatures.length :=
    topNumber_of_operand rfl countsSignatures
  simp only [signatureOperands, number, belowKeys, numberBelow]
  rw [List.drop_succ_cons, List.drop_zero, List.take_left]

/-- Once the operands are taken, the signatures are matched with the keys. -/
theorem matchOperands_records (signatures keys : List Bytes) (separator : Nat) :
    Records (DecidedOn env separator signatures) (matchOperands env signatures keys separator)
      s := by
  apply (matchFrom_records separator signatures keys).bind
  intro accepted _ _
  apply pop_records.bind
  intro dummy _ _
  exact .ite (.of_same rfl) (.of_same rfl)

theorem checkMultiSig_records (verify : Bool) :
    Records (DecidedOn env s.separator (signatureOperands s (.checkMultiSig verify)))
      (checkMultiSig env) s := by
  -- Up to the walk nothing is recorded: each action only says how the stack goes on.
  apply (popCount_records _ _).bind
  intro keyCount _ taken
  obtain ⟨keyBytes, belowCount, stack, countsKeys, -, rfl⟩ := popCount_eq_ok_iff.mp taken
  apply (countOperations_records _).bind
  intro _ _ counted
  obtain ⟨-, rfl⟩ := countOperations_eq_ok_iff.mp counted
  apply (popBelowOne_records _).bind
  intro keys _ taken
  obtain ⟨signatureBytes, belowKeys, keysOnTop, rfl, rfl⟩ := popBelowOne_eq_ok_iff.mp taken
  apply (popCount_records _ _).bind
  intro signatureCount _ taken
  obtain ⟨_, _, underKeys, countsSignatures, -, rfl⟩ := popCount_eq_ok_iff.mp taken
  cases underKeys
  apply (popBelowOne_records _).bind
  intro signatures _ taken
  obtain ⟨dummy, rest, signaturesOnTop, rfl, rfl⟩ := popBelowOne_eq_ok_iff.mp taken
  have underSignatures : belowKeys = signatures ++ dummy :: rest := signaturesOnTop
  have underCount : belowCount = keys ++ signatureBytes :: belowKeys := keysOnTop
  rw [underCount, underSignatures] at stack
  rw [signatureOperands_of_stack stack countsKeys countsSignatures]
  apply Records.get_bind
  exact matchOperands_records signatures keys s.separator

/-- The instruction checks signatures. -/
def ChecksSignatures (instruction : Instruction) : Prop :=
  ∃ verify, instruction = .checkSig verify ∨ instruction = .checkMultiSig verify

theorem execute_records {instruction : Instruction} (checks : ChecksSignatures instruction)
    (code : UInt8) (offset : Nat) :
    Records (DecidedOn env s.separator (signatureOperands s instruction))
      (execute env code offset instruction) s := by
  obtain ⟨verify, rfl | rfl⟩ := checks
  · apply (checkSig_records verify).bind
    intro accepted _ _
    exact .of_same (checks_conclude verify accepted _ _)
  · apply (checkMultiSig_records verify).bind
    intro accepted _ _
    exact .of_same (checks_conclude verify accepted _ _)

/-- Counting the code does not touch what the instruction takes. -/
theorem stepCode_records {code : UInt8} (checks : ChecksSignatures (Instruction.ofCode code))
    (offset : Nat) :
    Records (DecidedOn env s.separator (signatureOperands s (Instruction.ofCode code)))
      (stepCode env code offset) s := by
  -- The state behind the count differs in the number of operations alone.
  have behind (t : State) (operands : signatureOperands t (Instruction.ofCode code) =
        signatureOperands s (Instruction.ofCode code)) (separator : t.separator = s.separator) :
      Records (DecidedOn env s.separator (signatureOperands s (Instruction.ofCode code)))
        (get >>= fun s => if s.isActive || takesEffectWhenSkipped (Instruction.ofCode code)
          then execute env code offset (Instruction.ofCode code) else pure ()) t := by
    rw [← operands, ← separator]
    exact .get_bind (.ite (execute_records checks code offset) (.of_same rfl))
  unfold stepCode
  dsimp only
  split
  · apply (countOperations_records 1).bind
    intro _ _ counts
    obtain ⟨-, rfl⟩ := countOperations_eq_ok_iff.mp counts
    apply behind
    · obtain ⟨verify, same | same⟩ := checks
      · rw [same]
        rfl
      · rw [same]
        rfl
    · rfl
  · exact behind s rfl rfl

/-- Whatever the chunk does, the checks that it makes are of the signatures that it takes. -/
theorem step_records {code : UInt8} (checks : ChecksSignatures (Instruction.ofCode code))
    (offset : Nat) :
    Records (DecidedOn env s.separator (signatureOperands s (Instruction.ofCode code)))
      (step env ⟨.op code, offset⟩) s := by
  apply (stepCode_records checks offset).bind
  intro _ _ _
  exact .of_same (checks_checkStackSize _)

/-! ### The check of a single signature -/

/-- What follows an action records nothing more. -/
theorem checks_bind_of_keeps {m : MachineM α} {next : α → MachineM β}
    (keeps : ∀ value t, (endState (next value t)).checks = t.checks) :
    (endState ((m >>= next) s)).checks = (endState (m s)).checks := by
  cases ran : m s with
  | error e t => rw [estate_bind_of_error ran]; rfl
  | ok value between =>
    rw [estate_bind_of_ok ran]
    exact keeps value between

/-- Where it is executed with its operands there, the check of a single signature is made, also if
it fails the run. -/
theorem checks_step_checkSig {code : UInt8} {verify : Bool} {key signature : Bytes} {rest : Stack}
    (meaning : Instruction.ofCode code = .checkSig verify) (active : s.isActive = true)
    (within : s.operations + 1 ≤ Limits.operations) (stack : s.stack = key :: signature :: rest)
    (offset : Nat) :
    (endState (step env ⟨.op code, offset⟩ s)).checks =
      ⟨signature, key, env.checkSignature (connectedScript env s.separator [signature]) signature
        key⟩ :: s.checks := by
  have behindCode : (endState (step env ⟨.op code, offset⟩ s)).checks =
      (endState (stepCode env code offset s)).checks :=
    checks_bind_of_keeps fun _ => checks_checkStackSize
  have behindCheck :
      (endState (execute env code offset (.checkSig verify) (counted code s))).checks =
        (endState (checkSig env (counted code s))).checks :=
    checks_bind_of_keeps fun accepted => checks_conclude verify accepted _
  have operands : (counted code s).stack = key :: signature :: rest := stack
  rw [behindCode, stepCode_of_active active (Instruction.sixteen_lt_of_checkSig meaning) within,
    meaning, behindCheck]
  simp only [checkSig, operands, checkRecorded_eq, endState_finish]
  rfl

/-! ### Parsed scripts -/

/-- The edits that make what signatures commit to. -/
theorem connectedScript_eq_edit (separator : Nat) (signatures : List Bytes) :
    connectedScript env separator signatures = env.script.edit (.dropTo separator ::
      signatures.map fun signature => .remove (Chunk.encodeData signature)) := by
  rw [connectedScript, Script.edit, List.foldl_cons, List.foldl_map]
  rfl

/-- The last separator of a run over the chunks of a parsed script stands between chunks. -/
theorem isBoundary_lastSeparator {program : Bytes} {script : Script}
    (parsed : Script.parse program = .ok script) {initial : Stack} {before : List PlacedChunk}
    (placed : ∀ c ∈ before, c ∈ script.chunks) :
    script.IsBoundary (lastSeparator env { stack := initial } before) := by
  obtain ⟨chunks, -, -, rfl⟩ := Script.parse_eq_ok_iff.mp parsed
  obtain ⟨front, back, rfl, behind⟩ :=
    @exists_append_of_lastSeparator env chunks before initial placed
  rw [behind]
  exact Script.isBoundary_assemble_append front back

/-- The script that signatures are checked on is the one that the parser finds in its bytes. -/
theorem parse_connectedScript {program : Bytes} (parsed : Script.parse program = .ok env.script)
    {start : Nat} (boundary : env.script.IsBoundary start) (signatures : List Bytes) :
    Script.parse (connectedScript env start signatures).program =
      .ok (connectedScript env start signatures) := by
  have fits : env.script.EditsFit (.dropTo start ::
      signatures.map fun signature => .remove (Chunk.encodeData signature)) :=
    ⟨boundary, Script.editsFit_removals _ signatures Chunk.encodeData⟩
  rw [connectedScript_eq_edit]
  exact (Script.parse_edit parsed fits).1

/-- Whatever is cut off between chunks or removed from a parsed script, what is left is the script
that its own bytes parse to, made of some of the chunks. The last separator stands between chunks,
so the digests that a check of signatures is decided on are those of the bytes of the script that
the signatures commit to; and a check of a single signature is made when it is executed. -/
theorem edits_keep_scripts_aligned {program : Bytes} {script : Script}
    (parsed : Script.parse program = .ok script) :
    (∀ edits : List Script.Edit, script.EditsFit edits →
      Script.parse (script.edit edits).program = .ok (script.edit edits) ∧
        ((script.edit edits).chunks.map (·.chunk)).Sublist (script.chunks.map (·.chunk))) ∧
    ∀ (context : SpendContext) (flags : Flags) (initial : Stack) (before after : List PlacedChunk)
      (code : UInt8) (offset : Nat) (s : State),
      script.chunks = before ++ ⟨.op code, offset⟩ :: after →
      let env : Environment := ⟨some context, script, flags⟩
      steps env before { stack := initial } = .ok () s →
      ChecksSignatures (Instruction.ofCode code) →
      let start := lastSeparator env { stack := initial } before
      let signatures := signatureOperands s (Instruction.ofCode code)
      let connected := signatures.foldl
        (fun script signature => script.remove (Chunk.encodeData signature)) (script.dropTo start)
      let digestOf :=
        SignatureHash.digestOfProgram context.tx context.inputIndex connected.program
      script.IsBoundary start ∧ Script.parse connected.program = .ok connected ∧
      SignatureHash.digest context.tx context.inputIndex connected = digestOf ∧
      ∃ made : List SignatureCheck,
        (endState (step env ⟨.op code, offset⟩ s)).checks = made ++ s.checks ∧
        (∀ check ∈ made, check.signature ∈ signatures ∧
          check.verdict = env.checkSignatureBy digestOf check.signature check.key) ∧
        ∀ (verify : Bool) (key signature : Bytes) (rest : Stack),
          Instruction.ofCode code = .checkSig verify → s.isActive = true →
          s.operations + 1 ≤ Limits.operations → s.stack = key :: signature :: rest →
          made = [⟨signature, key, env.checkSignatureBy digestOf signature key⟩] := by
  refine ⟨fun edits => Script.parse_edit parsed, ?_⟩
  intro context flags initial before after code offset s stands env reached checks start
    signatures connected digestOf
  have placed : ∀ c ∈ before, c ∈ script.chunks := by
    intro c mem
    rw [stands]
    exact List.mem_append_left _ mem
  have boundary : script.IsBoundary start := isBoundary_lastSeparator parsed placed
  have aligned : Script.parse connected.program = .ok connected :=
    @parse_connectedScript env program parsed start boundary signatures
  have digests : SignatureHash.digest context.tx context.inputIndex connected = digestOf := by
    funext hashType
    exact (SignatureHash.digestOfProgram_eq aligned context.tx context.inputIndex hashType).symm
  refine ⟨boundary, aligned, digests, ?_⟩
  obtain ⟨made, recorded, decided⟩ := @step_records env s code checks offset
  have verdicts : ∀ check ∈ made, check.signature ∈ signatures ∧
      check.verdict = env.checkSignatureBy digestOf check.signature check.key := by
    intro check mem
    obtain ⟨among, verdict⟩ := decided check mem
    have separator : s.separator = start := separator_of_steps reached
    rw [separator] at verdict
    refine ⟨among, ?_⟩
    have known : env.context = some context := rfl
    rw [verdict, Environment.checkSignature_eq_checkSignatureBy known]
    exact congrArg (fun digestOf => env.checkSignatureBy digestOf check.signature check.key) digests
  refine ⟨made, recorded, verdicts, ?_⟩
  intro verify key signature rest meaning active within stack
  have single : made ++ s.checks = [⟨signature, key,
      env.checkSignature (connectedScript env s.separator [signature]) signature key⟩] ++
        s.checks := by
    rw [← recorded]
    exact checks_step_checkSig meaning active within stack offset
  obtain rfl := List.append_cancel_right single
  have verdict : env.checkSignature (connectedScript env s.separator [signature]) signature key =
      env.checkSignatureBy digestOf signature key :=
    (verdicts _ (List.mem_singleton_self _)).2
  rw [verdict]

/-- A signature and a key are pushed behind a separator, and the signature is accepted: it is one of
the push of the key and what follows. -/
theorem edits_keep_scripts_aligned_behind_separator :
    let signature : Bytes := (signatureOfNonceOne
      0x2f5f71e90260a201ec0fd236378d26939be43a7feb101c9bab332645c44cf5de).encode
    let pushes : List Chunk := [.op Opcode.codeSeparator, .push 71 signature, .push 33 firstKey]
    let script := Script.assemble (pushes ++ [.op Opcode.checkSig])
    let tx : Transaction :=
      ⟨1, [⟨⟨FixedBytes.zero 32, 0⟩, [], Input.finalSequence⟩], [], 0, none, none, none, none⟩
    let env : Environment := ⟨some ⟨tx, 0⟩, script, Flags.ofList []⟩
    let s : State := { stack := [firstKey, signature], operations := 1, separator := 1 }
    Script.parse script.program = .ok script ∧
      script.edit [.dropTo 1, .remove (71 :: signature), .removeCode 0xac] =
        ⟨[⟨.push 33 firstKey, 0⟩], 33 :: firstKey⟩ ∧
      Script.parse (33 :: firstKey) = .ok ⟨[⟨.push 33 firstKey, 0⟩], 33 :: firstKey⟩ ∧
      steps env (Script.place 0 pushes) { stack := [] } = .ok () s ∧
      (endState (step env ⟨.op Opcode.checkSig, 107⟩ s)).checks =
        [⟨signature, firstKey, .ok true⟩] ∧
      env.checkSignatureBy (SignatureHash.digestOfProgram tx 0 (33 :: firstKey ++ [0xac]))
        signature firstKey = .ok true := by
  intro signature pushes script tx env s
  have parsed : Script.parse script.program = .ok script := by
    have signed : signature.length = 71 := by decide +kernel
    have keyed : firstKey.length = 33 := by decide
    apply Script.parse_assemble
    simp only [pushes, List.cons_append, List.nil_append, List.forall_mem_cons]
    exact ⟨.op (by decide), .direct (by decide) signed, .direct (by decide) keyed,
      .op (by decide), by simp⟩
  have reached : steps env (Script.place 0 pushes) { stack := [] } = .ok () s := by cbv
  have edited : script.edit [.dropTo 1, .remove (71 :: signature), .removeCode 0xac] =
      ⟨[⟨.push 33 firstKey, 0⟩], 33 :: firstKey⟩ := by cbv
  have fit : script.EditsFit [.dropTo 1, .remove (71 :: signature), .removeCode 0xac] :=
    ⟨show script.IsBoundary 1 by decide, trivial, trivial, trivial⟩
  obtain ⟨aligned, decided⟩ := edits_keep_scripts_aligned parsed
  obtain ⟨reparsed, -⟩ := aligned _ fit
  rw [edited] at reparsed
  have behind : lastSeparator env { stack := [] } (Script.place 0 pushes) = 1 :=
    (separator_of_steps reached).symm
  have operands : signatureOperands s (Instruction.ofCode Opcode.checkSig) = [signature] := rfl
  let connected := Script.assemble [.push 33 firstKey, .op Opcode.checkSig]
  have stripped : [signature].foldl
      (fun script signature => script.remove (Chunk.encodeData signature)) (script.dropTo 1) =
        connected := by cbv
  have bytes : connected.program = 33 :: firstKey ++ [0xac] := rfl
  obtain ⟨-, -, digests, made, recorded, -, single⟩ :=
    decided ⟨tx, 0⟩ (Flags.ofList []) [] (Script.place 0 pushes) [] Opcode.checkSig 107 s
      (by cbv) reached ⟨false, .inl rfl⟩
  have only := single false firstKey signature [] rfl rfl (by decide) rfl
  rw [behind, operands, stripped] at digests
  rw [behind, operands, stripped, ← digests,
    ← Environment.checkSignature_eq_checkSignatureBy rfl] at only
  let digest : Hash256 := ⟨Bytes.bigEndian 32
    0x56e2279803c2a251be4fcb33f9ebce641c2ea58b966a5ac6baacb6ebf4f133cb, by decide⟩
  have digested : SignatureHash.digest tx 0 connected ⟨0x01⟩ = .ok digest :=
    SignatureHash.digest_of_hashed (by decide) (by decide +kernel)
  have accepted : env.checkSignature connected signature firstKey = .ok true :=
    Environment.checkSignature_encode rfl (by decide) (by decide) decode_firstKey digested
      (by decide +kernel)
  have byBytes : env.checkSignatureBy (SignatureHash.digestOfProgram tx 0 connected.program)
      signature firstKey = .ok true := by
    rw [← digests, ← Environment.checkSignature_eq_checkSignatureBy rfl]
    exact accepted
  rw [accepted] at only
  rw [only] at recorded
  rw [bytes] at byBytes
  exact ⟨parsed, edited, reparsed, reached, recorded, byBytes⟩

end Machine

end TokenLedger
