import TokenLedger.Proofs.Machine.MultiSig

/-!
# What instructions do

An instruction that does not fail takes its operands from the stack, and leaves its results there
and in the other parts of the state. Each case is said once here, with all that the state becomes;
what runs preserve is read off these cases.
-/

namespace TokenLedger.Machine

variable {env : Environment} {s s' : State}

/-! ### Taking operands -/

theorem pop_eq_ok_iff {top : Bytes} :
    pop s = .ok top s' ↔ ∃ rest, s.stack = top :: rest ∧ s' = { s with stack := rest } := by
  unfold pop
  cases s.stack with
  | nil => simp
  | cons first rest => simp [eq_comm]

theorem popBelowOne_eq_ok_iff {count : Nat} {taken : List Bytes} :
    popBelowOne count s = .ok taken s' ↔
      ∃ below rest, s.stack = taken ++ below :: rest ∧ taken.length = count ∧
        s' = { s with stack := below :: rest } := by
  constructor
  · intro popped
    unfold popBelowOne at popped
    split at popped
    · cases popped
    next enough =>
      cases popped
      have inside : count < s.stack.length := by omega
      have below := List.drop_eq_getElem_cons inside
      refine ⟨s.stack[count], s.stack.drop (count + 1), ?_, ?_, ?_⟩
      · rw [← below, List.take_append_drop]
      · rw [List.length_take]
        omega
      · rw [← below]
  · rintro ⟨below, rest, stack, rfl, rfl⟩
    exact popBelowOne_append stack

theorem popCount_eq_ok_iff {maximum count : Nat} {cause : ScriptError} :
    popCount env maximum cause s = .ok count s' ↔
      ∃ bytes rest, s.stack = bytes :: rest ∧
        StackOp.operand env.flags.requiresMinimal bytes = .ok (count : Int) ∧ count ≤ maximum ∧
        s' = { s with stack := rest } := by
  constructor
  · intro popped
    obtain ⟨bytes, _, taken, counted⟩ := estate_bind_eq_ok.mp popped
    obtain ⟨rest, stack, rfl⟩ := pop_eq_ok_iff.mp taken
    cases reads : StackOp.operand env.flags.requiresMinimal bytes with
    | error e =>
      rw [reads] at counted
      cases counted
    | ok n =>
      rw [reads] at counted
      dsimp only at counted
      by_cases inRange : 0 ≤ n ∧ n ≤ maximum
      · rw [if_pos inRange] at counted
        cases counted
        exact ⟨bytes, rest, stack, by rw [reads, Int.toNat_of_nonneg inRange.1], by omega, rfl⟩
      · rw [if_neg inRange] at counted
        cases counted
  · rintro ⟨bytes, rest, stack, reads, inRange, rfl⟩
    exact popCount_of_operand stack reads inRange

/-! ### Signature checks -/

theorem checkSig_eq_ok_iff {accepted : Bool} :
    checkSig env s = .ok accepted s' ↔
      ∃ key signature rest, s.stack = key :: signature :: rest ∧
        env.checkSignature (connectedScript env s.separator [signature]) signature key =
          .ok accepted ∧
        s' = { s with
          stack := rest
          checks := ⟨signature, key, .ok accepted⟩ :: s.checks } := by
  unfold checkSig
  rcases s.stack with _ | ⟨key, _ | ⟨signature, rest⟩⟩
  · simp
  · simp
  · simp only [checkRecorded_eq, List.cons.injEq]
    cases verdict : env.checkSignature (connectedScript env s.separator [signature]) signature
        key with
    | error e =>
      constructor
      · intro impossible
        cases impossible
      · rintro ⟨_, _, _, ⟨rfl, rfl, rfl⟩, checked, -⟩
        rw [verdict] at checked
        cases checked
    | ok decided =>
      constructor
      · intro checked
        cases checked
        exact ⟨key, signature, rest, ⟨rfl, rfl, rfl⟩, verdict, rfl⟩
      · rintro ⟨_, _, _, ⟨rfl, rfl, rfl⟩, checked, rfl⟩
        rw [verdict] at checked
        cases checked
        rfl

theorem finish_eq_ok_iff {α : Type} {result : Except Error α} {value : α} :
    finish result s = .ok value s' ↔ result = .ok value ∧ s' = s := by
  cases result with
  | error e => simp [finish]
  | ok value => simp [finish, eq_comm]

/-- A check of many signatures that does not fail: the operands on top of `rest`, and the checks of
the walk along both lists. -/
structure MultiSigWalk (env : Environment) (s : State) (operands : MultiSigOperands)
    (rest : Stack) (made : List SignatureCheck) (accepted : Bool) (s' : State) : Prop where
  stack : s.stack = operands.keyCount :: (operands.keys.reverse ++
    operands.signatureCount :: (operands.signatures.reverse ++ operands.dummy :: rest))
  countsKeys : StackOp.operand env.flags.requiresMinimal operands.keyCount =
    .ok (operands.keys.length : Int)
  countsSignatures : StackOp.operand env.flags.requiresMinimal operands.signatureCount =
    .ok (operands.signatures.length : Int)
  budget : s.operations + operands.keys.length ≤ Limits.operations
  inOrder : ChecksInOrder
    (env.checkSignature (connectedScript env s.separator operands.signatures.reverse))
    operands.signatures.reverse operands.keys.reverse made
  complete : accepted = true → made.countP (·.accepted) = operands.signatures.length
  after : s' = { s with
    stack := rest
    operations := s.operations + operands.keys.length
    checks := made.reverse ++ s.checks }

theorem exists_walk_of_checkMultiSig {accepted : Bool}
    (ran : checkMultiSig env s = .ok accepted s') :
    ∃ operands rest made, MultiSigWalk env s operands rest made accepted s' := by
  obtain ⟨keyCount, _, takenKeyCount, ran⟩ := estate_bind_eq_ok.mp ran
  obtain ⟨keyBytes, belowKeyCount, stack, countsKeys, -, rfl⟩ := popCount_eq_ok_iff.mp takenKeyCount
  obtain ⟨_, _, counted, ran⟩ := estate_bind_eq_ok.mp ran
  obtain ⟨budget, rfl⟩ := countOperations_eq_ok_iff.mp counted
  obtain ⟨keys, _, takenKeys, ran⟩ := estate_bind_eq_ok.mp ran
  obtain ⟨signatureBytes, belowCount, keysOnTop, rfl, rfl⟩ := popBelowOne_eq_ok_iff.mp takenKeys
  obtain ⟨signatureCount, _, takenSignatureCount, ran⟩ := estate_bind_eq_ok.mp ran
  obtain ⟨_, _, underKeys, countsSignatures, -, rfl⟩ :=
    popCount_eq_ok_iff.mp takenSignatureCount
  cases underKeys
  obtain ⟨signatures, _, takenSignatures, ran⟩ := estate_bind_eq_ok.mp ran
  obtain ⟨dummy, rest, signaturesOnTop, rfl, rfl⟩ := popBelowOne_eq_ok_iff.mp takenSignatures
  rw [estate_get_bind] at ran
  obtain ⟨decided, walked, matched, ran⟩ := estate_bind_eq_ok.mp ran
  obtain ⟨made, inOrder, complete, walk⟩ := @matchFrom_checkRecorded env _ signatures keys _
  rw [walk, finish_eq_ok_iff] at matched
  obtain ⟨decision, rfl⟩ := matched
  obtain ⟨_, _, takenDummy, ran⟩ := estate_bind_eq_ok.mp ran
  obtain ⟨_, ⟨⟩, rfl⟩ := pop_eq_ok_iff.mp takenDummy
  rw [estate_guard_eq_ok, estate_pure_eq_ok] at ran
  obtain ⟨-, rfl, rfl⟩ := ran
  let operands : MultiSigOperands :=
    { signatures := signatures.reverse
      keys := keys.reverse
      signatureCount := signatureBytes
      keyCount := keyBytes
      dummy := dummy }
  have underKeyCount : belowKeyCount = keys ++ signatureBytes :: belowCount := keysOnTop
  have underSignatureCount : belowCount = signatures ++ dummy :: rest := signaturesOnTop
  refine ⟨operands, rest, made, ?_, ?_, ?_, ?_, ?_, ?_, ?_⟩
  · simp only [operands, List.reverse_reverse, stack, underKeyCount, underSignatureCount]
  · simpa only [operands, List.length_reverse] using countsKeys
  · simpa only [operands, List.length_reverse] using countsSignatures
  · simpa only [operands, List.length_reverse] using budget
  · simpa only [operands, List.reverse_reverse] using inOrder
  · intro good
    rw [complete (by rw [decision, good])]
    simp only [operands, List.length_reverse]
  · simp only [operands, List.length_reverse]

/-- The operands of a check of many signatures that does not fail, and what it does with them. -/
structure MultiSigEffect (env : Environment) (s : State) (operands : MultiSigOperands)
    (rest : Stack) (made : List SignatureCheck) (s' : State) : Prop where
  stack : s.stack = operands.keyCount :: (operands.keys.reverse ++
    operands.signatureCount :: (operands.signatures.reverse ++ operands.dummy :: rest))
  countsKeys : StackOp.operand env.flags.requiresMinimal operands.keyCount =
    .ok (operands.keys.length : Int)
  budget : s.operations + operands.keys.length ≤ Limits.operations
  after : s' = { s with
    stack := rest
    operations := s.operations + operands.keys.length
    checks := made ++ s.checks }

theorem exists_effect_of_checkMultiSig {accepted : Bool}
    (ran : checkMultiSig env s = .ok accepted s') :
    ∃ operands rest made, MultiSigEffect env s operands rest made s' := by
  obtain ⟨operands, rest, made, walk⟩ := exists_walk_of_checkMultiSig ran
  exact ⟨operands, rest, made.reverse, walk.stack, walk.countsKeys, walk.budget, walk.after⟩

/-! ### Instructions -/

theorem conclude_eq_ok_iff {verify accepted : Bool} {cause : ScriptError} {value : Unit} :
    conclude verify accepted cause s = .ok value s' ↔
      (verify = true → accepted = true) ∧
        s' = { s with
          stack := if verify then s.stack else ScriptNumber.ofBool accepted :: s.stack } := by
  cases verify with
  | true =>
    cases accepted with
    | true =>
      constructor
      · intro ran
        cases ran
        exact ⟨fun _ => rfl, rfl⟩
      · rintro ⟨-, rfl⟩
        rfl
    | false => simp [conclude, fault, throw, throwThe, MonadExceptOf.throw, EStateM.throw]
  | false => simp [conclude, push, estate_modify_eq_ok]

theorem execute_checkSig_eq_ok_iff {code : UInt8} {offset : Nat} {verify : Bool} {value : Unit} :
    execute env code offset (.checkSig verify) s = .ok value s' ↔
      ∃ key signature rest accepted, s.stack = key :: signature :: rest ∧
        env.checkSignature (connectedScript env s.separator [signature]) signature key =
          .ok accepted ∧
        (verify = true → accepted = true) ∧
        s' = { s with
          stack := if verify then rest else ScriptNumber.ofBool accepted :: rest
          checks := ⟨signature, key, .ok accepted⟩ :: s.checks } := by
  rw [execute, estate_bind_eq_ok]
  constructor
  · rintro ⟨accepted, _, checked, concluded⟩
    obtain ⟨key, signature, rest, stack, verdict, rfl⟩ := checkSig_eq_ok_iff.mp checked
    obtain ⟨passed, rfl⟩ := conclude_eq_ok_iff.mp concluded
    exact ⟨key, signature, rest, accepted, stack, verdict, passed, rfl⟩
  · rintro ⟨key, signature, rest, accepted, stack, verdict, passed, rfl⟩
    exact ⟨accepted, _, checkSig_eq_ok_iff.mpr ⟨key, signature, rest, stack, verdict, rfl⟩,
      conclude_eq_ok_iff.mpr ⟨passed, rfl⟩⟩

/-- What an instruction does to the state when it does not fail. -/
inductive Effect (env : Environment) (offset : Nat) (s : State) : Instruction → State → Prop where
  | stack {op : StackOp} {stack : Stack}
      (applied : op.apply env.flags.requiresMinimal s.stack = .ok stack) :
      Effect env offset s (.stack op) { s with stack }
  | nop : Effect env offset s .nop s
  | reservedNop : Effect env offset s .reservedNop s
  | checkLockTime : Effect env offset s .checkLockTime s
  | skippedBranch {expected : Bool} (skipped : s.isActive = false) :
      Effect env offset s (.conditional (.branch expected))
        { s with branches := false :: s.branches }
  | branch {expected : Bool} {top : Bytes} {rest : Stack} (active : s.isActive = true)
      (taken : s.stack = top :: rest) :
      Effect env offset s (.conditional (.branch expected))
        { s with
          stack := rest
          branches := (ScriptNumber.isTrue top == expected) :: s.branches }
  | otherwise {inner : Bool} {outer : List Bool} (within : s.branches = inner :: outer) :
      Effect env offset s (.conditional .otherwise) { s with branches := (!inner) :: outer }
  | close {inner : Bool} {outer : List Bool} (within : s.branches = inner :: outer) :
      Effect env offset s (.conditional .close) { s with branches := outer }
  | toAltStack {top : Bytes} {rest : Stack} (taken : s.stack = top :: rest) :
      Effect env offset s .toAltStack { s with stack := rest, altStack := top :: s.altStack }
  | fromAltStack {top : Bytes} {rest : Stack} (taken : s.altStack = top :: rest) :
      Effect env offset s .fromAltStack { s with stack := top :: s.stack, altStack := rest }
  | codeSeparator : Effect env offset s .codeSeparator { s with separator := offset + 1 }
  | checkSig {verify accepted : Bool} {key signature : Bytes} {rest : Stack}
      (taken : s.stack = key :: signature :: rest)
      (checked : env.checkSignature (connectedScript env s.separator [signature]) signature key =
        .ok accepted)
      (passed : verify = true → accepted = true) :
      Effect env offset s (.checkSig verify)
        { s with
          stack := if verify then rest else ScriptNumber.ofBool accepted :: rest
          checks := ⟨signature, key, .ok accepted⟩ :: s.checks }
  | checkMultiSig {verify accepted : Bool} {operands : MultiSigOperands} {rest : Stack}
      {made : List SignatureCheck} {t : State} (ran : MultiSigEffect env s operands rest made t)
      (passed : verify = true → accepted = true) :
      Effect env offset s (.checkMultiSig verify)
        { t with stack := if verify then rest else ScriptNumber.ofBool accepted :: rest }

theorem effect_of_conditional {offset : Nat} {op : Conditional}
    (ran : conditional op s = .ok () s') : Effect env offset s (.conditional op) s' := by
  cases op with
  | branch expected =>
    unfold conditional at ran
    dsimp only at ran
    split at ran
    next skipped =>
      cases ran
      exact .skippedBranch (by simpa using skipped)
    next active =>
      split at ran
      next => cases ran
      next top rest taken =>
        cases ran
        exact .branch (by simpa using active) taken
  | otherwise =>
    unfold conditional at ran
    dsimp only at ran
    split at ran
    next => cases ran
    next inner outer within =>
      cases ran
      exact .otherwise within
  | close =>
    unfold conditional at ran
    dsimp only at ran
    split at ran
    next => cases ran
    next inner outer within =>
      cases ran
      exact .close within

theorem effect_of_execute {code : UInt8} {offset : Nat} {instruction : Instruction}
    (ran : execute env code offset instruction s = .ok () s') :
    Effect env offset s instruction s' := by
  cases instruction with
  | stack op =>
    obtain ⟨stack, applied, rfl⟩ := onStack_eq_ok_iff.mp ran
    exact .stack applied
  | nop =>
    obtain ⟨-, rfl⟩ := estate_pure_eq_ok.mp ran
    exact .nop
  | conditional op => exact effect_of_conditional ran
  | toAltStack =>
    obtain ⟨top, _, popped, moved⟩ := estate_bind_eq_ok.mp ran
    obtain ⟨rest, taken, rfl⟩ := pop_eq_ok_iff.mp popped
    obtain rfl := estate_modify_eq_ok.mp moved
    exact .toAltStack taken
  | fromAltStack =>
    simp only [execute] at ran
    split at ran
    next => cases ran
    next top rest taken =>
      cases ran
      exact .fromAltStack taken
  | codeSeparator =>
    obtain rfl := estate_modify_eq_ok.mp ran
    exact .codeSeparator
  | checkSig verify =>
    obtain ⟨key, signature, rest, accepted, taken, checked, passed, rfl⟩ :=
      execute_checkSig_eq_ok_iff.mp ran
    exact .checkSig taken checked passed
  | checkMultiSig verify =>
    obtain ⟨accepted, t, checked, concluded⟩ := estate_bind_eq_ok.mp ran
    obtain ⟨operands, rest, made, effect⟩ := exists_effect_of_checkMultiSig checked
    obtain ⟨passed, rfl⟩ := conclude_eq_ok_iff.mp concluded
    have left : t.stack = rest := by rw [effect.after]
    rw [left]
    exact .checkMultiSig effect passed
  | checkLockTime =>
    rw [execute] at ran
    split at ran
    next =>
      obtain ⟨-, rfl⟩ := onStack_checkLockTime_eq_ok_iff.mp ran
      exact .checkLockTime
    next =>
      rw [estate_guard_eq_ok, estate_pure_eq_ok] at ran
      obtain ⟨-, -, rfl⟩ := ran
      exact .checkLockTime
  | reservedNop =>
    rw [execute, estate_guard_eq_ok, estate_pure_eq_ok] at ran
    obtain ⟨-, -, rfl⟩ := ran
    exact .reservedNop
  | fail | disabled | forbidden | unknown => cases ran

end TokenLedger.Machine
