import Mathlib.Tactic.IntervalCases
import TokenLedger.Proofs.Script.Layout
import TokenLedger.Proofs.Script.Recognition
import TokenLedger.Proofs.Script.ShortestPush

/-!
# Standard scripts are recognised

The code that a script starts with leaves one kind open, so no script is of two kinds. What is built
as a standard script is of its kind, and its parts are found in it, as long as no key of it is built
into the code of a number: such a code is an operation, and no recogniser takes it for a key.
-/

namespace TokenLedger

/-! ### Kinds exclude each other -/

/-- The kind that a script which starts with the code can be of. -/
def ScriptKind.openedBy? (code : UInt8) : Option ScriptKind :=
  if code ≤ Opcode.pushData4 then some .key
  else if Opcode.one ≤ code ∧ code ≤ Opcode.sixteen then some .multisig
  else if code = Opcode.dup then some .keyHash
  else if code = Opcode.hash160 then some .scriptHash
  else if code = Opcode.ifTrue then some .paymentChannel
  else if code = Opcode.fail then some .dataCarrier
  else none

namespace Script

variable {s : Script} {chunks : List Chunk}

/-- The verdict of the recogniser of a kind. There is none of what is not standard. -/
def passes (s : Script) : ScriptKind → Bool
  | .keyHash => s.isKeyHash
  | .key => s.isKey
  | .scriptHash => s.isScriptHash
  | .multisig => s.isMultisig
  | .paymentChannel => s.isPaymentChannel
  | .dataCarrier => s.isDataCarrier
  | .nonStandard => false

/-- The kind that the first chunk leaves open. -/
def openKind? (chunks : List Chunk) : Option ScriptKind :=
  chunks.head?.bind fun chunk => ScriptKind.openedBy? chunk.code

theorem openKind?_cons (chunk : Chunk) (chunks : List Chunk) :
    openKind? (chunk :: chunks) = ScriptKind.openedBy? chunk.code := rfl

theorem openKind?_of_keyHash (passed : (assemble chunks).isKeyHash = true) :
    openKind? chunks = some .keyHash := by
  unfold isKeyHash keyHash? at passed
  rw [map_chunk_assemble] at passed
  split at passed
  next dup _ _ _ _ =>
    split at passed
    next codes =>
      rw [openKind?_cons, codes.1]
      rfl
    next => cases passed
  next => cases passed

theorem openKind?_of_key (passed : (assemble chunks).isKey = true) :
    openKind? chunks = some .key := by
  unfold isKey key? at passed
  rw [map_chunk_assemble] at passed
  split at passed
  next key _ =>
    split at passed
    next codes =>
      have announces : key.code ≤ Opcode.pushData4 := by simpa [Chunk.isOpcode] using codes.2
      rw [openKind?_cons, ScriptKind.openedBy?, if_pos announces]
    next => cases passed
  next => cases passed

/-- The first byte of a program is the code of its first chunk. -/
theorem openKind?_of_scriptHash (passed : (assemble chunks).isScriptHash = true) :
    openKind? chunks = some .scriptHash := by
  unfold isScriptHash scriptHash? at passed
  cases chunks with
  | nil => cases passed
  | cons chunk chunks =>
    obtain ⟨_, starts⟩ := chunk.encode_eq_code_cons
    rw [assemble, List.flatMap_cons, starts, List.cons_append] at passed
    split at passed
    next opening _ _ bytes =>
      split at passed
      next codes =>
        have first : chunk.code = Opcode.hash160 := by
          rw [← codes.1]
          exact (List.cons.inj bytes).1
        rw [openKind?_cons, first]
        rfl
      next => cases passed
    next => cases passed

theorem openKind?_of_multisig (passed : (assemble chunks).isMultisig = true) :
    openKind? chunks = some .multisig := by
  obtain ⟨found, same⟩ := Option.isSome_iff_exists.mp passed
  unfold multisig? at same
  rw [map_chunk_assemble] at same
  split at same
  next => cases same
  next threshold _ =>
    split at same
    next =>
      split at same
      next =>
        simp only [Option.bind_eq_bind, Option.bind_eq_some_iff] at same
        obtain ⟨required, counted, -⟩ := same
        unfold Chunk.keyCount? at counted
        split at counted
        next number =>
          have beyond : ¬ threshold.code ≤ Opcode.pushData4 := by
            have atLeast := UInt8.le_iff_toNat_le.mp number.1
            rw [UInt8.le_iff_toNat_le]
            exact Nat.not_le.mpr (Nat.lt_of_lt_of_le (by decide) atLeast)
          rw [openKind?_cons, ScriptKind.openedBy?, if_neg beyond, if_pos number]
        next => cases counted
      next => cases same
    next => cases same

theorem openKind?_of_paymentChannel (passed : (assemble chunks).isPaymentChannel = true) :
    openKind? chunks = some .paymentChannel := by
  unfold isPaymentChannel paymentChannel? at passed
  rw [map_chunk_assemble] at passed
  split at passed
  next =>
    split at passed
    next codes =>
      rw [openKind?_cons, codes.1]
      rfl
    next => cases passed
  next => cases passed

theorem openKind?_of_dataCarrier (passed : (assemble chunks).isDataCarrier = true) :
    openKind? chunks = some .dataCarrier := by
  unfold isDataCarrier assemble at passed
  cases chunks with
  | nil => cases passed
  | cons chunk chunks =>
    have first : chunk.code = Opcode.fail := by simpa [place, PlacedChunk.code] using passed
    rw [openKind?_cons, first]
    rfl

/-- A recogniser only accepts scripts that start with a code of its kind. -/
theorem openKind?_of_passes {kind : ScriptKind} (passed : (assemble chunks).passes kind = true) :
    openKind? chunks = some kind := by
  cases kind with
  | keyHash => exact openKind?_of_keyHash passed
  | key => exact openKind?_of_key passed
  | scriptHash => exact openKind?_of_scriptHash passed
  | multisig => exact openKind?_of_multisig passed
  | paymentChannel => exact openKind?_of_paymentChannel passed
  | dataCarrier => exact openKind?_of_dataCarrier passed
  | nonStandard => cases passed

theorem passes_unique {first second : ScriptKind}
    (passedFirst : (assemble chunks).passes first = true)
    (passedSecond : (assemble chunks).passes second = true) : first = second :=
  Option.some.inj ((openKind?_of_passes passedFirst).symm.trans (openKind?_of_passes passedSecond))

/-- The kinds in the order in which their recognisers are asked. -/
def standardKinds : List ScriptKind :=
  [.keyHash, .scriptHash, .key, .multisig, .paymentChannel, .dataCarrier]

theorem kind_eq_find (s : Script) :
    s.kind = (standardKinds.find? s.passes).getD .nonStandard := by
  simp only [kind, standardKinds, List.find?_cons, List.find?_nil, passes]
  cases s.isKeyHash <;> cases s.isScriptHash <;> cases s.isKey <;> cases s.isMultisig <;>
    cases s.isPaymentChannel <;> cases s.isDataCarrier <;> rfl

/-- The kind of a script is the one whose recogniser accepts it, whichever is asked first. -/
theorem kind_assemble_eq_iff {kind : ScriptKind} (standard : kind ∈ standardKinds) :
    (assemble chunks).kind = kind ↔ (assemble chunks).passes kind = true := by
  rw [kind_eq_find]
  cases found : standardKinds.find? (assemble chunks).passes with
  | none =>
    have rejected := List.find?_eq_none.mp found kind standard
    refine iff_of_false (fun same => ?_) rejected
    rw [← same] at standard
    exact absurd standard (by decide)
  | some first =>
    have passed := List.find?_some found
    rw [Option.getD_some]
    constructor
    · rintro rfl
      exact passed
    · exact passes_unique passed

end Script

/-! ### Keys and numbers of standard scripts -/

namespace BuildStep

variable {data : Bytes}

/-- The data is a number that has a code of its own, and is built into that. -/
def IsSmallNumber (data : Bytes) : Prop := ∃ b : UInt8, 1 ≤ b ∧ b ≤ 16 ∧ data = [b]

theorem isOpcode_dataChunk_iff : (dataChunk data).isOpcode = true ↔ IsSmallNumber data := by
  obtain ⟨same, other⟩ | ⟨n, pos, small, single, same⟩ := dataChunk_cases data
  · rw [same, Chunk.isOpcode, decide_eq_true_eq]
    refine iff_of_false (UInt8.not_lt.mpr (Chunk.pushCode_le _)) ?_
    rintro ⟨b, atLeast, atMost, isByte⟩
    exact other b isByte ⟨atLeast, atMost⟩
  · rw [same, Chunk.isOpcode, decide_eq_true_eq]
    refine iff_of_true (number_code pos small).1 ?_
    refine ⟨UInt8.ofNat n, ?_, ?_, single⟩ <;> interval_cases n <;> decide

theorem data?_dataChunk (plain : ¬ IsSmallNumber data) : (dataChunk data).data? = some data := by
  obtain ⟨same, -⟩ | ⟨n, pos, small, -, same⟩ := dataChunk_cases data
  · rw [same]
    rfl
  · rw [← isOpcode_dataChunk_iff, same] at plain
    exact absurd (decide_eq_true (number_code pos small).1) plain

theorem mapM_data?_dataChunk {keys : List Bytes} (plain : ∀ key ∈ keys, ¬ IsSmallNumber key) :
    (keys.map dataChunk).mapM Chunk.data? = some keys := by
  induction keys with
  | nil => rfl
  | cons key keys ih =>
    rw [List.forall_mem_cons] at plain
    simp [data?_dataChunk plain.1, ih plain.2]

/-- A number is built into a chunk that counts keys if it is such a count. -/
theorem keyCount?_number_eq_some_iff {n : Int64} {count : Nat} :
    (number n).chunk.keyCount? = some count ↔ 1 ≤ count ∧ count ≤ 16 ∧ n.toInt = count := by
  constructor
  · intro found
    have good : (number n).chunk.WellFormed := wellFormed_chunk trivial
    obtain ⟨pos, few, same⟩ := Chunk.keyCount?_eq_some good found
    have denotes : (number n).chunk.Denotes (ScriptNumber.encode n.toInt) := denotes_chunk rfl
    rw [same] at denotes
    obtain ⟨pushed, meaning, encoded, -⟩ := denotes.exists_number
    -- The chunk is a code that pushes both numbers, and what is written tells numbers apart.
    have counted := (number_code pos few).2.2.2.symm.trans meaning
    simp only [Instruction.number, Instruction.stack.injEq, StackOp.push.injEq] at counted
    rw [← counted, ScriptNumber.encode_inj] at encoded
    exact ⟨pos, few, encoded⟩
  · rintro ⟨pos, few, same⟩
    rw [chunk, same]
    interval_cases count <;> rfl

end BuildStep

namespace Script

open BuildStep (IsSmallNumber)

/-! ### Paying to hashes and to a key -/

section

variable (hash : Hash160)

theorem keyHash?_payToKeyHash : (payToKeyHash hash).keyHash? = some hash.val := by
  have length : hash.val.length = 20 := hash.property
  have chunks : (payToKeyHash hash).chunks.map (·.chunk) =
      [.op Opcode.dup, .op Opcode.hash160, BuildStep.dataChunk hash.val, .op Opcode.equalVerify,
        .op Opcode.checkSig] := map_chunk_build _
  unfold keyHash?
  rw [chunks, BuildStep.dataChunk_hash160]
  simp [Chunk.code, Chunk.data?, length]

theorem scriptHash?_payToScriptHash : (payToScriptHash hash).scriptHash? = some hash.val := by
  have front : (hash.val ++ [Opcode.equal]).take 20 = hash.val := List.take_left' hash.property
  have behind : (hash.val ++ [Opcode.equal]).drop 20 = [Opcode.equal] :=
    List.drop_left' hash.property
  simp [scriptHash?, program_payToScriptHash, front, behind]

theorem isScriptHash_payToScriptHash : (payToScriptHash hash).isScriptHash = true := by
  rw [isScriptHash, scriptHash?_payToScriptHash, Option.isSome_some]

theorem parse_payToKeyHash : parse (payToKeyHash hash).program = .ok (payToKeyHash hash) := by
  have short : hash.val.length < 2 ^ 32 := by
    rw [hash.property]
    decide
  refine parse_build ?_
  simp only [List.forall_mem_cons, List.not_mem_nil, false_implies, implies_true, and_true,
    BuildStep.Fits]
  exact ⟨.inr (by decide), .inr (by decide), short, .inr (by decide), .inr (by decide)⟩

/-- The program of the script is parsed into the script itself. -/
theorem parse_payToScriptHash :
    parse (payToScriptHash hash).program = .ok (payToScriptHash hash) := by
  have short : hash.val.length < 2 ^ 32 := by
    rw [hash.property]
    decide
  refine parse_build ?_
  simp only [List.forall_mem_cons, List.not_mem_nil, false_implies, implies_true, and_true,
    BuildStep.Fits]
  exact ⟨.inr (by decide), short, .inr (by decide)⟩

end

/-- A key of one byte is not taken for a key, whether it is built into a code or not. -/
theorem key?_payToKey (key : Bytes) :
    (payToKey key).key? = if 1 < key.length then some key else none := by
  have chunks : (payToKey key).chunks.map (·.chunk) =
      [BuildStep.dataChunk key, .op Opcode.checkSig] := map_chunk_build _
  unfold key?
  rw [chunks]
  dsimp only
  by_cases small : IsSmallNumber key
  · have operation := BuildStep.isOpcode_dataChunk_iff.mpr small
    obtain ⟨b, -, -, rfl⟩ := small
    rw [if_neg (fun codes => codes.2 operation), if_neg (by simp)]
  · have plain := mt BuildStep.isOpcode_dataChunk_iff.mp small
    rw [if_pos ⟨rfl, plain⟩, BuildStep.data?_dataChunk small, Option.filter_some]
    simp

theorem parse_payToKey {key : Bytes} (short : key.length < 2 ^ 32) :
    parse (payToKey key).program = .ok (payToKey key) := by
  refine parse_build ?_
  simp only [List.forall_mem_cons, List.not_mem_nil, false_implies, implies_true, and_true,
    BuildStep.Fits]
  exact ⟨short, .inr (by decide)⟩

/-! ### Paying to many keys -/

section

variable {threshold : Nat} {keys : List Bytes}

theorem map_chunk_multisig :
    (multisig threshold keys).chunks.map (·.chunk) =
      (BuildStep.number (Int64.ofNat threshold)).chunk :: (keys.map BuildStep.dataChunk ++
        [(BuildStep.number (Int64.ofNat keys.length)).chunk, .op Opcode.checkMultiSig]) := by
  have check : (BuildStep.op Opcode.checkMultiSig).chunk = .op Opcode.checkMultiSig := rfl
  have data : keys.map (BuildStep.chunk ∘ BuildStep.data) = keys.map BuildStep.dataChunk := rfl
  rw [multisig, map_chunk_build]
  simp only [List.map_cons, List.map_append, List.map_map, List.map_nil, List.cons_append, check,
    data]

/-- What is counted by a number of 64 bits. -/
theorem toInt_ofNat_eq_iff {n count : Nat} (fits : n < 2 ^ 64) (few : count ≤ 16) :
    (Int64.ofNat n).toInt = count ↔ n = count := by
  rw [Int64.toInt_ofNat', Int.bmod_def, Int64.size]
  split <;> omega

/-- The script is taken for one of many keys if its numbers are small and no key is a number. -/
theorem multisig?_multisig_eq_some_iff (fits : threshold < 2 ^ 64) {found : Nat × List Chunk} :
    (multisig threshold keys).multisig? = some found ↔
      (1 ≤ threshold ∧ threshold ≤ keys.length ∧ keys.length ≤ 16 ∧
        ∀ key ∈ keys, ¬ IsSmallNumber key) ∧
      found = (threshold, keys.map BuildStep.dataChunk) := by
  have agrees {count : Nat} :
      ((keys.map BuildStep.dataChunk).reverse.length = count ∧ threshold ≤ count ∧
        ¬ (keys.map BuildStep.dataChunk).reverse.any Chunk.isOpcode = true) ↔
      keys.length = count ∧ threshold ≤ count ∧ ∀ key ∈ keys, ¬ IsSmallNumber key := by
    simp [← BuildStep.isOpcode_dataChunk_iff]
  have ofCheck : (Chunk.op Opcode.checkMultiSig).code = Opcode.checkMultiSig := rfl
  unfold multisig?
  rw [map_chunk_multisig]
  simp only [List.reverse_append, List.reverse_cons, List.reverse_nil, List.nil_append,
    List.cons_append, ofCheck, true_or, if_true, Option.bind_eq_bind, Option.bind_eq_some_iff,
    BuildStep.keyCount?_number_eq_some_iff, List.reverse_reverse]
  constructor
  · rintro ⟨required, ⟨pos, small, ofThreshold⟩, count, ⟨-, few, -⟩, _, guarded, same⟩
    rw [toInt_ofNat_eq_iff fits small] at ofThreshold
    subst ofThreshold
    unfold guard at guarded
    split at guarded
    next accepted =>
      obtain ⟨rfl, enough, noNumber⟩ := agrees.mp accepted
      exact ⟨⟨pos, enough, few, noNumber⟩, (Option.some.inj same).symm⟩
    next => cases guarded
  · rintro ⟨⟨pos, enough, few, noNumber⟩, rfl⟩
    have small : threshold ≤ 16 := Nat.le_trans enough few
    refine ⟨threshold, ⟨pos, small, (toInt_ofNat_eq_iff fits small).mpr rfl⟩, keys.length,
      ⟨Nat.le_trans pos enough, few, (toInt_ofNat_eq_iff (by omega) few).mpr rfl⟩, (), ?_, rfl⟩
    exact if_pos (agrees.mpr ⟨rfl, enough, noNumber⟩)

theorem parse_multisig_of_short (short : ∀ key ∈ keys, key.length < 2 ^ 32) :
    parse (multisig threshold keys).program = .ok (multisig threshold keys) := by
  refine parse_build fun step mem => ?_
  simp only [List.cons_append, List.mem_cons, List.mem_append, List.mem_map, List.not_mem_nil,
    or_false] at mem
  rcases mem with rfl | ⟨key, among, rfl⟩ | rfl | rfl
  · trivial
  · exact short key among
  · trivial
  · exact .inr (by decide)

end

/-! ### Payment channels -/

section

variable {sender recipient : Bytes} {expiry : Int64}

/-- The script is taken for a payment channel unless a key of it is a number. -/
theorem paymentChannel?_paymentChannel_eq_some_iff {found : Channel} :
    (paymentChannel sender recipient expiry).paymentChannel? = some found ↔
      (¬ IsSmallNumber sender ∧ ¬ IsSmallNumber recipient) ∧
      found = ⟨BuildStep.dataChunk recipient,
        BuildStep.dataChunk (ScriptNumber.encode expiry.toInt), BuildStep.dataChunk sender⟩ := by
  have chunks : (paymentChannel sender recipient expiry).chunks.map (·.chunk) =
      [.op Opcode.ifTrue, BuildStep.dataChunk recipient, .op Opcode.checkSigVerify,
        .op Opcode.otherwise, BuildStep.dataChunk (ScriptNumber.encode expiry.toInt),
        .op Opcode.checkLockTimeVerify, .op Opcode.drop, .op Opcode.endIf,
        BuildStep.dataChunk sender, .op Opcode.checkSig] := map_chunk_build _
  have pushed := BuildStep.isPush_dataChunk (ScriptNumber.encode expiry.toInt)
  unfold paymentChannel?
  rw [chunks]
  dsimp only
  constructor
  · intro same
    split at same
    next codes =>
      obtain ⟨-, ofRecipient, -, -, -, -, -, -, ofSender, -⟩ := codes
      rw [BuildStep.isOpcode_dataChunk_iff] at ofRecipient ofSender
      exact ⟨⟨ofSender, ofRecipient⟩, (Option.some.inj same).symm⟩
    next => cases same
  · rintro ⟨⟨ofSender, ofRecipient⟩, rfl⟩
    rw [← BuildStep.isOpcode_dataChunk_iff] at ofRecipient ofSender
    exact if_pos ⟨rfl, ofRecipient, rfl, rfl, pushed, rfl, rfl, rfl, ofSender, rfl⟩

/-- The expiry as it is read from the chunk it was built into. -/
theorem readExpiry_dataChunk (n : Int) :
    (match (BuildStep.dataChunk (ScriptNumber.encode n)).data? with
      | some bytes => (ScriptNumber.decode ScriptNumber.lockTimeWidth false bytes).toOption
      | none => (BuildStep.dataChunk (ScriptNumber.encode n)).number?) =
      if n.natAbs < 2 ^ 39 then some n else none := by
  obtain ⟨same, -⟩ | ⟨count, pos, few, single, same⟩ :=
    BuildStep.dataChunk_cases (ScriptNumber.encode n)
  · rw [same]
    dsimp only [Chunk.ofData, Chunk.data?]
    by_cases small : n.natAbs < 2 ^ 39
    · have read : ScriptNumber.decode ScriptNumber.lockTimeWidth false (ScriptNumber.encode n) =
          .ok n := by
        rw [ScriptNumber.decode_encode_eq_ok_iff, ScriptNumber.lockTimeWidth]
        exact ⟨by omega, rfl⟩
      rw [if_pos small, read]
      rfl
    · rw [if_neg small]
      cases read : ScriptNumber.decode ScriptNumber.lockTimeWidth false (ScriptNumber.encode n) with
      | error => rfl
      | ok m =>
        rw [ScriptNumber.decode_encode_eq_ok_iff, ScriptNumber.lockTimeWidth] at read
        omega
  -- A small number is a code, and is read from the code and not from data.
  · have value : n = count := by
      rw [← ScriptNumber.encode_inj, single, ScriptNumber.encode_of_lt pos (by omega)]
    have number : Opcode.number? (Opcode.one + UInt8.ofNat count - 1) = some (count : Int) := by
      interval_cases count <;> rfl
    rw [same, if_pos (by omega), value]
    exact number

theorem parse_paymentChannel (senderShort : sender.length < 2 ^ 32)
    (recipientShort : recipient.length < 2 ^ 32) :
    parse (paymentChannel sender recipient expiry).program =
      .ok (paymentChannel sender recipient expiry) := by
  have expiryShort := ScriptNumber.length_encode_toInt_le expiry
  refine parse_build ?_
  simp only [List.forall_mem_cons, List.not_mem_nil, false_implies, implies_true, and_true,
    BuildStep.Fits]
  exact ⟨.inr (by decide), recipientShort, .inr (by decide), .inr (by decide), by omega,
    .inr (by decide), .inr (by decide), .inr (by decide), senderShort, .inr (by decide)⟩

end

/-! ### Kinds and parts of standard scripts -/

theorem kind_build_eq_iff {steps : List BuildStep} {kind : ScriptKind}
    (standard : kind ∈ standardKinds) :
    (build steps).kind = kind ↔ (build steps).passes kind = true :=
  kind_assemble_eq_iff standard

theorem kind_payToKeyHash (hash : Hash160) : (payToKeyHash hash).kind = .keyHash := by
  refine (kind_build_eq_iff (by decide)).mpr (Option.isSome_iff_exists.mpr ⟨hash.val, ?_⟩)
  exact keyHash?_payToKeyHash hash

theorem kind_payToScriptHash (hash : Hash160) : (payToScriptHash hash).kind = .scriptHash :=
  (kind_build_eq_iff (by decide)).mpr (isScriptHash_payToScriptHash hash)

theorem kind_payToKey_eq_iff (key : Bytes) : (payToKey key).kind = .key ↔ 1 < key.length := by
  have verdict : (payToKey key).isKey = decide (1 < key.length) := by
    rw [isKey, key?_payToKey]
    split <;> simp [*]
  refine (kind_build_eq_iff (by decide)).trans ?_
  rw [← decide_eq_true_eq (p := 1 < key.length), ← verdict]
  rfl

theorem kind_multisig_eq_iff {threshold : Nat} {keys : List Bytes} (fits : threshold < 2 ^ 64) :
    (multisig threshold keys).kind = .multisig ↔
      1 ≤ threshold ∧ threshold ≤ keys.length ∧ keys.length ≤ 16 ∧
        ∀ key ∈ keys, ¬ IsSmallNumber key := by
  refine (kind_build_eq_iff (by decide)).trans (Option.isSome_iff_exists.trans ?_)
  constructor
  · rintro ⟨found, same⟩
    exact ((multisig?_multisig_eq_some_iff fits).mp same).1
  · intro standard
    exact ⟨_, (multisig?_multisig_eq_some_iff fits).mpr ⟨standard, rfl⟩⟩

theorem kind_paymentChannel_eq_iff {sender recipient : Bytes} {expiry : Int64} :
    (paymentChannel sender recipient expiry).kind = .paymentChannel ↔
      ¬ IsSmallNumber sender ∧ ¬ IsSmallNumber recipient := by
  refine (kind_build_eq_iff (by decide)).trans (Option.isSome_iff_exists.trans ?_)
  constructor
  · rintro ⟨found, same⟩
    exact (paymentChannel?_paymentChannel_eq_some_iff.mp same).1
  · intro standard
    exact ⟨_, paymentChannel?_paymentChannel_eq_some_iff.mpr ⟨standard, rfl⟩⟩

/-- The threshold and the keys are found in a script for many keys. -/
theorem parts_of_multisig {threshold : Nat} {keys : List Bytes} (fits : threshold < 2 ^ 64)
    (standard : (multisig threshold keys).kind = .multisig) :
    (multisig threshold keys).requiredSignatures? = some threshold ∧
      (multisig threshold keys).multisigKeys? = some keys := by
  have conditions := (kind_multisig_eq_iff fits).mp standard
  have found := (multisig?_multisig_eq_some_iff fits).mpr ⟨conditions, rfl⟩
  have keysFound := BuildStep.mapM_data?_dataChunk conditions.2.2.2
  constructor
  · rw [requiredSignatures?, found]
  · rw [multisigKeys?, found]
    exact keysFound

/-- The keys are found in a payment channel, and the expiry unless it is too wide for a lock
time. -/
theorem parts_of_paymentChannel {sender recipient : Bytes} {expiry : Int64}
    (standard : (paymentChannel sender recipient expiry).kind = .paymentChannel) :
    (paymentChannel sender recipient expiry).channelSender? = some sender ∧
      (paymentChannel sender recipient expiry).channelRecipient? = some recipient ∧
      (paymentChannel sender recipient expiry).channelExpiry? =
        if expiry.toInt.natAbs < 2 ^ 39 then some expiry.toInt else none := by
  have conditions := kind_paymentChannel_eq_iff.mp standard
  have found : (paymentChannel sender recipient expiry).paymentChannel? = some _ :=
    paymentChannel?_paymentChannel_eq_some_iff.mpr ⟨conditions, rfl⟩
  refine ⟨?_, ?_, ?_⟩
  · rw [channelSender?, found]
    exact BuildStep.data?_dataChunk conditions.1
  · rw [channelRecipient?, found]
    exact BuildStep.data?_dataChunk conditions.2
  · rw [channelExpiry?, found]
    exact readExpiry_dataChunk expiry.toInt

/-- One recogniser accepts a script at most. What is built as a standard script is recognised, and
its parts are found in it, under the conditions that its keys and numbers have to meet; and it is
read back from its program, if the lengths of the keys can be written. -/
theorem recognisers_find_what_was_built :
    (∀ s : Script, ((∃ program, parse program = .ok s) ∨ ∃ chunks, s = assemble chunks) →
      ∀ first second, s.passes first = true → s.passes second = true → first = second) ∧
    (∀ hash : Hash160,
      (payToKeyHash hash).kind = .keyHash ∧ (payToKeyHash hash).payeeHash? = some hash.val ∧
      parse (payToKeyHash hash).program = .ok (payToKeyHash hash) ∧
      (payToScriptHash hash).kind = .scriptHash ∧
      (payToScriptHash hash).payeeHash? = some hash.val ∧
      parse (payToScriptHash hash).program = .ok (payToScriptHash hash)) ∧
    (∀ key : Bytes,
      ((payToKey key).kind = .key ↔ 1 < key.length) ∧
      ((payToKey key).key? = if 1 < key.length then some key else none) ∧
      (key.length < 2 ^ 32 → parse (payToKey key).program = .ok (payToKey key))) ∧
    (∀ (threshold : Nat) (keys : List Bytes), threshold < 2 ^ 64 →
      ((multisig threshold keys).kind = .multisig ↔
        1 ≤ threshold ∧ threshold ≤ keys.length ∧ keys.length ≤ 16 ∧
          ∀ key ∈ keys, ¬ IsSmallNumber key) ∧
      ((multisig threshold keys).kind = .multisig →
        (multisig threshold keys).requiredSignatures? = some threshold ∧
        (multisig threshold keys).multisigKeys? = some keys) ∧
      ((∀ key ∈ keys, key.length < 2 ^ 32) →
        parse (multisig threshold keys).program = .ok (multisig threshold keys))) ∧
    (∀ (sender recipient : Bytes) (expiry : Int64),
      ((paymentChannel sender recipient expiry).kind = .paymentChannel ↔
        ¬ IsSmallNumber sender ∧ ¬ IsSmallNumber recipient) ∧
      ((paymentChannel sender recipient expiry).kind = .paymentChannel →
        (paymentChannel sender recipient expiry).channelSender? = some sender ∧
        (paymentChannel sender recipient expiry).channelRecipient? = some recipient ∧
        (paymentChannel sender recipient expiry).channelExpiry? =
          if expiry.toInt.natAbs < 2 ^ 39 then some expiry.toInt else none) ∧
      (sender.length < 2 ^ 32 → recipient.length < 2 ^ 32 →
        parse (paymentChannel sender recipient expiry).program =
          .ok (paymentChannel sender recipient expiry))) := by
  refine ⟨fun s origin first second passedFirst passedSecond => ?_, fun hash => ?_,
    fun key => ⟨kind_payToKey_eq_iff key, key?_payToKey key, parse_payToKey⟩,
    fun threshold keys fits =>
      ⟨kind_multisig_eq_iff fits, parts_of_multisig fits, parse_multisig_of_short⟩,
    fun sender recipient expiry =>
      ⟨kind_paymentChannel_eq_iff, parts_of_paymentChannel, parse_paymentChannel⟩⟩
  · have assembled : ∃ chunks, s = assemble chunks := by
      rcases origin with ⟨program, parsed⟩ | assembled
      · exact (eq_assemble_of_parse parsed).2
      · exact assembled
    obtain ⟨chunks, rfl⟩ := assembled
    exact passes_unique passedFirst passedSecond
  · have other : (payToScriptHash hash).keyHash? = none := by
      have rejected : ¬ (payToScriptHash hash).passes .keyHash = true := by
        intro passed
        have kind := (kind_build_eq_iff (by decide)).mpr passed
        cases (kind_payToScriptHash hash).symm.trans kind
      simpa [passes, isKeyHash] using rejected
    refine ⟨kind_payToKeyHash hash, ?_, parse_payToKeyHash hash, kind_payToScriptHash hash, ?_,
      parse_payToScriptHash hash⟩
    · rw [payeeHash?, keyHash?_payToKeyHash]
      rfl
    · rw [payeeHash?, other, scriptHash?_payToScriptHash]
      rfl

/-- Keys of the usual length are found; a key that is a number, or a single byte, is not taken for
one. -/
theorem recognisers_find_what_was_built_two_keys :
    let keys : List Bytes := [List.replicate 33 2, List.replicate 33 3]
    let wallet := multisig 2 keys
    let channel := paymentChannel (List.replicate 33 2) (List.replicate 33 3) 600000
    2 < 2 ^ 64 ∧ (∀ key ∈ keys, key.length < 2 ^ 32) ∧ wallet.isMultisig = true ∧
      wallet.requiredSignatures? = some 2 ∧ wallet.multisigKeys? = some keys ∧
      parse wallet.program = .ok wallet ∧
      (∀ kind, wallet.passes kind = true → kind = .multisig) ∧
      (multisig 1 [[16], [17]]).kind ≠ .multisig ∧ (payToKey [17]).kind ≠ .key ∧
      parse channel.program = .ok channel ∧ channel.kind = .paymentChannel ∧
      channel.channelExpiry? = some 600000 := by
  intro keys wallet channel
  obtain ⟨exclusive, -, ofKey, ofKeys, ofChannel⟩ := recognisers_find_what_was_built
  have fits : 2 < 2 ^ 64 := by decide
  have short : ∀ key ∈ keys, key.length < 2 ^ 32 := by decide
  have long {key : Bytes} (length : key.length = 33) : ¬ IsSmallNumber key := by
    rintro ⟨b, -, -, rfl⟩
    cases length
  obtain ⟨recognised, parts, readBack⟩ := ofKeys 2 keys fits
  have standard : wallet.kind = .multisig := by
    refine recognised.mpr ⟨by decide, by decide, by decide, ?_⟩
    simp only [keys, List.forall_mem_cons, List.not_mem_nil, false_implies, implies_true, and_true]
    exact ⟨long rfl, long rfl⟩
  have passed : wallet.isMultisig = true := (kind_build_eq_iff (by decide)).mp standard
  have parsed : parse wallet.program = .ok wallet := readBack short
  obtain ⟨recognisedChannel, partsOfChannel, readBackChannel⟩ :=
    ofChannel (List.replicate 33 2) (List.replicate 33 3) 600000
  have standardChannel : channel.kind = .paymentChannel :=
    recognisedChannel.mpr ⟨long rfl, long rfl⟩
  refine ⟨fits, short, passed, (parts standard).1, (parts standard).2, parsed,
    fun kind other => exclusive wallet (.inl ⟨_, parsed⟩) kind .multisig other passed, ?_, ?_,
    readBackChannel (by decide) (by decide), standardChannel, (partsOfChannel standardChannel).2.2⟩
  · intro kind
    obtain ⟨-, -, -, noNumber⟩ := (ofKeys 1 [[16], [17]] (by decide)).1.mp kind
    exact noNumber [16] (by decide) ⟨16, by decide, by decide, rfl⟩
  · intro kind
    exact absurd ((ofKey [17]).1.mp kind) (by decide)

end Script

end TokenLedger
