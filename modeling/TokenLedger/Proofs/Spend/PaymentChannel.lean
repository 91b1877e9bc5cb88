import Mathlib
import TokenLedger.Proofs.Machine.Execution
import TokenLedger.Proofs.Machine.Limits
import TokenLedger.Proofs.Spend.MultiSig
import TokenLedger.Proofs.Spend.Relaxation

/-!
# Closing a payment channel

A payment channel is closed by both parties at any time, and by the sender alone once the
transaction is locked until the expiry. Which of the two a spend wants to do is the truth of the top
of the stack. Both ways through the script are executed here, the skipped chunks included.
-/

namespace TokenLedger

theorem Instruction.ofCode_ifTrue :
    ofCode Opcode.ifTrue = .conditional (.branch true) := rfl

namespace Script

variable {sender recipient : Bytes} {expiry : Int64}

/-- Where both parties close the channel, the recipient signs. -/
def recipientChunks (recipient : Bytes) : List Chunk :=
  [.op Opcode.ifTrue, BuildStep.dataChunk recipient, .op Opcode.checkSigVerify]

/-- Otherwise the expiry has to have passed. -/
def expiryChunks (expiry : Int) : List Chunk :=
  [.op Opcode.otherwise, BuildStep.dataChunk (ScriptNumber.encode expiry),
    .op Opcode.checkLockTimeVerify, .op Opcode.drop, .op Opcode.endIf]

/-- The sender signs in any case. -/
def senderChunks (sender : Bytes) : List Chunk := [BuildStep.dataChunk sender, .op Opcode.checkSig]

/-- The chunks of a payment channel. -/
def channelChunks (sender recipient : Bytes) (expiry : Int) : List Chunk :=
  recipientChunks recipient ++ (expiryChunks expiry ++ senderChunks sender)

theorem paymentChannel_eq :
    paymentChannel sender recipient expiry =
      assemble (channelChunks sender recipient expiry.toInt) := rfl

section

variable (senderSmall : sender.length ≤ Limits.elementSize)
  (recipientSmall : recipient.length ≤ Limits.elementSize)

include senderSmall recipientSmall

theorem wellFormed_channelChunks :
    ∀ chunk ∈ channelChunks sender recipient expiry.toInt, chunk.WellFormed := by
  have small := ScriptNumber.length_encode_toInt_le expiry
  unfold Limits.elementSize at senderSmall recipientSmall
  simp only [channelChunks, recipientChunks, expiryChunks, senderChunks, List.forall_mem_append,
    List.forall_mem_cons, List.not_mem_nil, false_implies, implies_true, and_true]
  exact ⟨⟨.op (by decide), BuildStep.wellFormed_dataChunk (by omega), .op (by decide)⟩,
    ⟨.op (by decide), BuildStep.wellFormed_dataChunk (by omega), .op (by decide), .op (by decide),
      .op (by decide)⟩, BuildStep.wellFormed_dataChunk (by omega), .op (by decide)⟩

theorem length_paymentChannel_le :
    (paymentChannel sender recipient expiry).length ≤ Limits.scriptSize := by
  have senderLength := BuildStep.encodedLength_dataChunk_le sender
  have recipientLength := BuildStep.encodedLength_dataChunk_le recipient
  have expiryLength := BuildStep.encodedLength_dataChunk_le (ScriptNumber.encode expiry.toInt)
  have small := ScriptNumber.length_encode_toInt_le expiry
  unfold Limits.elementSize at senderSmall recipientSmall
  unfold Limits.scriptSize
  have single (code : UInt8) : (Chunk.op code).encodedLength = 1 := rfl
  rw [paymentChannel_eq, length_assemble]
  simp only [channelChunks, recipientChunks, expiryChunks, senderChunks, List.cons_append,
    List.nil_append, List.map_cons, List.map_nil, List.sum_cons, List.sum_nil, single]
  omega

end

theorem isScriptHash_paymentChannel :
    (paymentChannel sender recipient expiry).isScriptHash = false :=
  isScriptHash_of_start (show _ = some Opcode.ifTrue from rfl) (by decide)

/-! ### Both ways through the script -/

section

variable {env : Environment} {s : State} {offset : Nat} {below : Stack} {selector : Bytes}
  {checks : List SignatureCheck} {lockTime : Int}
  (room : below.length + 1 ≤ Limits.stackSize)

include room

/-- In the end the sender signs, whoever wants to close the channel. -/
theorem steps_senderChunks_iff (free : env.flags.requiresMinimal = false)
    (senderSmall : sender.length ≤ Limits.elementSize) :
    Machine.steps env (place offset (senderChunks sender))
        { stack := below, operations := 6, checks } = .ok () s ↔
      ∃ signature rest accepted, below = signature :: rest ∧
        env.checkSignature (Machine.connectedScript env 0 [signature]) signature sender =
          .ok accepted ∧
        s = { stack := ScriptNumber.ofBool accepted :: rest, operations := 7
              checks := ⟨signature, sender, .ok accepted⟩ :: checks } := by
  simp only [senderChunks, place]
  rw [Machine.steps_dataChunk_cons_iff rfl, Machine.steps_checkSig_cons_iff (by decide) rfl rfl]
  simp only [Machine.steps_nil_eq_ok_iff, List.length_nil, Nat.add_zero, free, Bool.false_eq_true,
    false_implies, true_and, if_false]
  constructor
  · rintro ⟨-, -, -, _, signature, rest, accepted, ⟨⟩, verdict, -, rfl⟩
    exact ⟨signature, rest, accepted, rfl, verdict, rfl⟩
  · rintro ⟨signature, rest, accepted, rfl, verdict, rfl⟩
    rw [List.length_cons] at room
    refine ⟨senderSmall, room, by decide, sender, signature, rest, accepted, rfl, verdict, ?_, rfl⟩
    rw [List.length_cons]
    omega

/-- A true selector has the recipient sign. -/
theorem steps_recipientChunks_iff_of_true (free : env.flags.requiresMinimal = false)
    (recipientSmall : recipient.length ≤ Limits.elementSize)
    (both : ScriptNumber.isTrue selector = true) :
    Machine.steps env (place offset (recipientChunks recipient)) { stack := selector :: below } =
        .ok () s ↔
      ∃ signature rest, below = signature :: rest ∧
        env.checkSignature (Machine.connectedScript env 0 [signature]) signature recipient =
          .ok true ∧
        s = { stack := rest, branches := [true], operations := 2
              checks := [⟨signature, recipient, .ok true⟩] } := by
  simp only [recipientChunks, place]
  rw [Machine.steps_branch_cons_iff (by decide) Instruction.ofCode_ifTrue rfl rfl, both,
    Machine.steps_dataChunk_cons_iff rfl, Machine.steps_checkSig_cons_iff (by decide) rfl rfl]
  simp only [Machine.steps_nil_eq_ok_iff, List.length_nil, Nat.add_zero, free, Bool.false_eq_true,
    false_implies, true_and, if_true, true_implies]
  constructor
  · rintro ⟨-, -, -, -, -, _, signature, rest, _, ⟨⟩, verdict, rfl, -, rfl⟩
    exact ⟨signature, rest, rfl, verdict, rfl⟩
  · rintro ⟨signature, rest, rfl, verdict, rfl⟩
    rw [List.length_cons] at room
    refine ⟨by decide, ?_, recipientSmall, room, by decide, recipient, signature, rest, true, rfl,
      verdict, rfl, ?_, rfl⟩
    · rw [List.length_cons]
      omega
    · omega

/-- A false selector skips the recipient. -/
theorem steps_recipientChunks_iff_of_false (recipientSmall : recipient.length ≤ Limits.elementSize)
    (alone : ScriptNumber.isTrue selector = false) :
    Machine.steps env (place offset (recipientChunks recipient)) { stack := selector :: below } =
        .ok () s ↔
      s = { stack := below, branches := [false], operations := 2 } := by
  have fits : below.length ≤ Limits.stackSize := by omega
  simp only [recipientChunks, place]
  rw [Machine.steps_branch_cons_iff (by decide) Instruction.ofCode_ifTrue rfl rfl, alone,
    Machine.steps_dataChunk_cons_iff_of_skipped rfl,
    Machine.steps_op_cons_iff_of_skipped (by decide) rfl, Machine.steps_nil_eq_ok_iff]
  simp [Limits.operations, fits, recipientSmall]

/-- Where the recipient has signed the expiry is skipped. -/
theorem steps_expiryChunks_iff_of_true
    (expirySmall : (ScriptNumber.encode lockTime).length ≤ Limits.elementSize) :
    Machine.steps env (place offset (expiryChunks lockTime))
        { stack := below, branches := [true], operations := 2, checks } = .ok () s ↔
      s = { stack := below, operations := 6, checks } := by
  have fits : below.length ≤ Limits.stackSize := by omega
  simp only [expiryChunks, place]
  rw [Machine.steps_otherwise_cons_iff rfl, Machine.steps_dataChunk_cons_iff_of_skipped rfl,
    Machine.steps_op_cons_iff_of_skipped (by decide) rfl,
    Machine.steps_op_cons_iff_of_skipped (by decide) rfl, Machine.steps_close_cons_iff rfl,
    Machine.steps_nil_eq_ok_iff]
  simp [Limits.operations, fits, expirySmall]

/-- Otherwise the expiry has to have passed. -/
theorem steps_expiryChunks_iff_of_false (free : env.flags.requiresMinimal = false)
    (enforced : env.flags.has .checkLockTime = true)
    (expirySmall : (ScriptNumber.encode lockTime).length ≤ Limits.elementSize) :
    Machine.steps env (place offset (expiryChunks lockTime))
        { stack := below, branches := [false], operations := 2, checks } = .ok () s ↔
      env.checkLockTime (ScriptNumber.encode lockTime :: below) = .ok () ∧
        s = { stack := below, operations := 6, checks } := by
  have fits : below.length ≤ Limits.stackSize := by omega
  simp only [expiryChunks, place]
  rw [Machine.steps_otherwise_cons_iff rfl, Machine.steps_dataChunk_cons_iff rfl,
    Machine.steps_checkLockTime_cons_iff enforced rfl,
    Machine.steps_stackOp_cons_iff (by decide) rfl rfl rfl, Machine.steps_close_cons_iff rfl,
    Machine.steps_nil_eq_ok_iff]
  simp [Limits.operations, fits, expirySmall, free, room]

end

section

variable {env : Environment} {s : State} {below : Stack} {selector : Bytes} {lockTime : Int}
  (free : env.flags.requiresMinimal = false) (senderSmall : sender.length ≤ Limits.elementSize)
  (recipientSmall : recipient.length ≤ Limits.elementSize)
  (expirySmall : (ScriptNumber.encode lockTime).length ≤ Limits.elementSize)
  (room : below.length + 1 ≤ Limits.stackSize)

include free senderSmall recipientSmall expirySmall room

theorem steps_channelChunks_iff_of_true (both : ScriptNumber.isTrue selector = true) :
    Machine.steps env (place 0 (channelChunks sender recipient lockTime))
        { stack := selector :: below } = .ok () s ↔
      ∃ recipientSignature senderSignature rest accepted,
        below = recipientSignature :: senderSignature :: rest ∧
        env.checkSignature (Machine.connectedScript env 0 [recipientSignature])
          recipientSignature recipient = .ok true ∧
        env.checkSignature (Machine.connectedScript env 0 [senderSignature])
          senderSignature sender = .ok accepted ∧
        s = { stack := ScriptNumber.ofBool accepted :: rest, operations := 7
              checks := [⟨senderSignature, sender, .ok accepted⟩,
                ⟨recipientSignature, recipient, .ok true⟩] } := by
  rw [channelChunks, place_append, place_append, Machine.steps_append_eq_ok_iff]
  simp only [Machine.steps_append_eq_ok_iff,
    steps_recipientChunks_iff_of_true room free recipientSmall both]
  constructor
  · rintro ⟨_, ⟨recipientSignature, under, rfl, recipientSigned, rfl⟩, _, expired, signed⟩
    rw [List.length_cons] at room
    rw [steps_expiryChunks_iff_of_true (by omega) expirySmall] at expired
    subst expired
    obtain ⟨senderSignature, rest, accepted, rfl, senderSigned, rfl⟩ :=
      (steps_senderChunks_iff (by omega) free senderSmall).mp signed
    exact ⟨recipientSignature, senderSignature, rest, accepted, rfl, recipientSigned, senderSigned,
      rfl⟩
  · rintro ⟨recipientSignature, senderSignature, rest, accepted, rfl, recipientSigned,
      senderSigned, rfl⟩
    simp only [List.length_cons] at room
    have left : (senderSignature :: rest).length + 1 ≤ Limits.stackSize := by
      rw [List.length_cons]
      omega
    exact ⟨_, ⟨recipientSignature, _, rfl, recipientSigned, rfl⟩, _,
      (steps_expiryChunks_iff_of_true left expirySmall).mpr rfl,
      (steps_senderChunks_iff left free senderSmall).mpr
        ⟨senderSignature, rest, accepted, rfl, senderSigned, rfl⟩⟩

theorem steps_channelChunks_iff_of_false (enforced : env.flags.has .checkLockTime = true)
    (alone : ScriptNumber.isTrue selector = false) :
    Machine.steps env (place 0 (channelChunks sender recipient lockTime))
        { stack := selector :: below } = .ok () s ↔
      env.checkLockTime (ScriptNumber.encode lockTime :: below) = .ok () ∧
      ∃ signature rest accepted, below = signature :: rest ∧
        env.checkSignature (Machine.connectedScript env 0 [signature]) signature sender =
          .ok accepted ∧
        s = { stack := ScriptNumber.ofBool accepted :: rest, operations := 7
              checks := [⟨signature, sender, .ok accepted⟩] } := by
  rw [channelChunks, place_append, place_append, Machine.steps_append_eq_ok_iff]
  simp only [Machine.steps_append_eq_ok_iff,
    steps_recipientChunks_iff_of_false room recipientSmall alone]
  constructor
  · rintro ⟨_, rfl, _, expired, signed⟩
    obtain ⟨satisfied, rfl⟩ :=
      (steps_expiryChunks_iff_of_false room free enforced expirySmall).mp expired
    exact ⟨satisfied, (steps_senderChunks_iff room free senderSmall).mp signed⟩
  · rintro ⟨satisfied, signed⟩
    exact ⟨_, rfl, _,
      (steps_expiryChunks_iff_of_false room free enforced expirySmall).mpr ⟨satisfied, rfl⟩,
      (steps_senderChunks_iff room free senderSmall).mpr signed⟩

end

/-- No channel is closed without a selector. -/
theorem exists_selector_of_steps {env : Environment} {stack : Stack} {s : State} {lockTime : Int}
    (ran : Machine.steps env (place 0 (channelChunks sender recipient lockTime)) { stack } =
      .ok () s) : ∃ selector below, stack = selector :: below := by
  cases stack with
  | nil =>
    exact absurd ran
      (Machine.steps_branch_cons_ne_ok (by decide) Instruction.ofCode_ifTrue rfl rfl)
  | cons selector below => exact ⟨selector, below, rfl⟩

end Script

/-- The transaction cannot be included before the lock time, which takes five bytes at most, and
its input does not switch that off. -/
structure LockedUntil (tx : Transaction) (index : Nat) (lockTime : Int) : Prop where
  nonneg : 0 ≤ lockTime
  narrow : lockTime < 2 ^ 39
  notBefore : lockTime ≤ tx.lockTime.toNat
  sameKind : lockTime < 500000000 ↔ tx.lockTime.toNat < 500000000
  notFinal : ∃ input, tx.inputs[index]? = some input ∧ input.sequence ≠ 0xffffffff

theorem LockTime.satisfies_iff {lockTime : Nat} {required : Int} :
    satisfies lockTime required = true ↔
      (required < 500000000 ↔ lockTime < 500000000) ∧ required ≤ lockTime := by
  have bound : (threshold : Int) = 500000000 := rfl
  have natBound : threshold = 500000000 := rfl
  rw [satisfies, bound, natBound, Bool.and_eq_true, decide_eq_true_eq, beq_iff_eq, decide_eq_decide]
  tauto

theorem Environment.checkLockTime_encode_iff {env : Environment} {context : SpendContext}
    {lockTime : Int} {below : Stack} (free : env.flags.requiresMinimal = false)
    (known : env.context = some context) :
    env.checkLockTime (ScriptNumber.encode lockTime :: below) = .ok () ↔
      LockedUntil context.tx context.inputIndex lockTime := by
  have width : (256 : Nat) ^ ScriptNumber.lockTimeWidth = 2 * 2 ^ 39 := rfl
  rw [checkLockTime_eq_ok_iff, free]
  constructor
  · rintro ⟨_, _, required, same, input, ⟨⟩, decoded, nonneg, here, satisfied, found, final⟩
    obtain rfl : context = same := Option.some.inj (known.symm.trans here)
    obtain ⟨narrow, rfl⟩ := ScriptNumber.decode_encode_eq_ok_iff.mp decoded
    obtain ⟨sameKind, notBefore⟩ := LockTime.satisfies_iff.mp satisfied
    rw [width] at narrow
    exact ⟨nonneg, by omega, notBefore, sameKind, input, found,
      by simpa [Input.isFinal, Input.finalSequence] using final⟩
  · rintro ⟨nonneg, narrow, notBefore, sameKind, input, found, notFinal⟩
    refine ⟨_, below, lockTime, context, input, rfl, ?_, nonneg, known,
      LockTime.satisfies_iff.mpr ⟨sameKind, notBefore⟩, found,
      by simpa [Input.isFinal, Input.finalSequence] using notFinal⟩
    rw [ScriptNumber.decode_encode_eq_ok_iff, width]
    omega

/-- The stacks that close a channel: signatures of both parties under a true value, or one of the
sender under a false value once the channel has expired. Anything may lie below. -/
inductive ClosesChannel (accepts : Bytes → Bytes → Prop) (sender recipient : Bytes)
    (expired : Prop) : Stack → Prop where
  | together {selector recipientSignature senderSignature : Bytes} {rest : Stack}
      (both : ScriptNumber.isTrue selector = true)
      (recipientSigned : accepts recipientSignature recipient)
      (senderSigned : accepts senderSignature sender) :
      ClosesChannel accepts sender recipient expired
        (selector :: recipientSignature :: senderSignature :: rest)
  | alone {selector senderSignature : Bytes} {rest : Stack}
      (one : ScriptNumber.isTrue selector = false) (senderSigned : accepts senderSignature sender)
      (late : expired) :
      ClosesChannel accepts sender recipient expired (selector :: senderSignature :: rest)

namespace ClosesChannel

variable {accepts accepts' : Bytes → Bytes → Prop} {sender recipient : Bytes} {expired : Prop}
  {stack : Stack}

/-- Only the signatures on the stack matter. -/
theorem imp (closes : ClosesChannel accepts sender recipient expired stack)
    (weaker : ∀ signature ∈ stack, ∀ key, accepts signature key → accepts' signature key) :
    ClosesChannel accepts' sender recipient expired stack := by
  cases closes with
  | together both recipientSigned senderSigned =>
    exact .together both (weaker _ (by simp) _ recipientSigned) (weaker _ (by simp) _ senderSigned)
  | alone one senderSigned late => exact .alone one (weaker _ (by simp) _ senderSigned) late

/-- Before the expiry the recipient has signed. -/
theorem recipientSigned (closes : ClosesChannel accepts sender recipient expired stack)
    (early : ¬ expired) :
    ∃ selector signature rest, stack = selector :: signature :: rest ∧
      accepts signature recipient := by
  cases closes with
  | together both recipientSigned senderSigned => exact ⟨_, _, _, rfl, recipientSigned⟩
  | alone one senderSigned late => exact absurd late early

end ClosesChannel

/-- The script leaves true on the stacks that close the channel. -/
theorem Script.exists_true_paymentChannel_iff {sender recipient : Bytes} {expiry : Int64}
    {context : SpendContext} {stack : Stack} (senderSmall : sender.length ≤ Limits.elementSize)
    (recipientSmall : recipient.length ≤ Limits.elementSize)
    (room : stack.length ≤ Limits.stackSize) :
    let locking := paymentChannel sender recipient expiry
    let env : Environment := ⟨some context, locking, .standard⟩
    (∃ final, locking.execute (some context) .standard stack = .ok final ∧
        final.isTrue = true) ↔
      ClosesChannel
        (fun signature key => env.checkSignature (Machine.connectedScript env 0 [signature])
          signature key = .ok true)
        sender recipient (LockedUntil context.tx context.inputIndex expiry.toInt) stack := by
  intro locking env
  have free : env.flags.requiresMinimal = false := show Flags.standard.requiresMinimal = _ by decide
  have enforced : env.flags.has .checkLockTime = true := show Flags.standard.has _ = _ by decide
  have expirySmall : (ScriptNumber.encode expiry.toInt).length ≤ Limits.elementSize :=
    Nat.le_trans (ScriptNumber.length_encode_toInt_le expiry) (by decide)
  have chunks : locking.chunks = place 0 (channelChunks sender recipient expiry.toInt) := rfl
  simp only [execute_eq_ok_iff, chunks]
  constructor
  · rintro ⟨_, ⟨s, ran, -, rfl⟩, good⟩
    obtain ⟨selector, below, rfl⟩ := exists_selector_of_steps ran
    cases selected : ScriptNumber.isTrue selector with
    | true =>
      obtain ⟨_, _, rest, accepted, rfl, recipientSigned, senderSigned, rfl⟩ :=
        (steps_channelChunks_iff_of_true free senderSmall recipientSmall expirySmall room
          selected).mp ran
      rw [Stack.isTrue_ofBool_cons] at good
      subst good
      exact .together selected recipientSigned senderSigned
    | false =>
      obtain ⟨satisfied, _, rest, accepted, rfl, senderSigned, rfl⟩ :=
        (steps_channelChunks_iff_of_false free senderSmall recipientSmall expirySmall room
          enforced selected).mp ran
      rw [Stack.isTrue_ofBool_cons] at good
      subst good
      exact .alone selected senderSigned
        ((Environment.checkLockTime_encode_iff free rfl).mp satisfied)
  · intro closes
    cases closes with
    | together both recipientSigned senderSigned =>
      have ran := (steps_channelChunks_iff_of_true free senderSmall recipientSmall expirySmall room
        both).mpr ⟨_, _, _, true, rfl, recipientSigned, senderSigned, rfl⟩
      exact ⟨_, ⟨_, ran, rfl, rfl⟩, Stack.isTrue_ofBool_cons _ _⟩
    | alone one senderSigned late =>
      have satisfied (below : Stack) :
          env.checkLockTime (ScriptNumber.encode expiry.toInt :: below) = .ok () :=
        (Environment.checkLockTime_encode_iff free rfl).mpr late
      have ran := (steps_channelChunks_iff_of_false free senderSmall recipientSmall expirySmall room
        enforced one).mpr ⟨satisfied _, _, _, true, rfl, senderSigned, rfl⟩
      exact ⟨_, ⟨_, ran, rfl, rfl⟩, Stack.isTrue_ofBool_cons _ _⟩

namespace Spend

/-- Under the standard rules a payment channel is closed exactly by a script that leaves a stack
which closes it. Signatures are read leniently, and each commits to the channel's script without its
own pushes. The sender alone never closes a channel early. -/
theorem spends_paymentChannel_iff {sender recipient : Bytes} {expiry : Int64} {unlocking : Script}
    {tx : Transaction} {index : Nat} (senderSmall : sender.length ≤ 520)
    (recipientSmall : recipient.length ≤ 520) (small : unlocking.length ≤ 10000)
    (inRange : index < tx.inputs.length) :
    let locking := Script.paymentChannel sender recipient expiry
    let stripped (signature : Bytes) := Script.assemble
      ((locking.chunks.map (·.chunk)).filter (· ≠ Chunk.ofData signature))
    let signs (signature key : Bytes) : Prop :=
      ∃ decoded publicKey digest,
        TransactionSignature.decode false false signature = .ok decoded ∧
        PublicKey.decode? key = some publicKey ∧
        SignatureHash.digest tx index (stripped signature) decoded.hashType = .ok digest ∧
        Ecdsa.verify publicKey digest decoded.ecdsa = true
    let left := unlocking.execute (some ⟨tx, index⟩) .standard []
    let verdict := verify unlocking tx index locking .standard
    let expired := LockedUntil tx index expiry.toInt
    (verdict = .ok () ↔
      ∃ stack, left = .ok stack ∧ ClosesChannel signs sender recipient expired stack) ∧
    (verdict = .ok () → ¬ expired →
      ∃ selector signature rest, left = .ok (selector :: signature :: rest) ∧
        signs signature recipient) := by
  intro locking stripped signs left verdict expired
  let env : Environment := ⟨some ⟨tx, index⟩, locking, .standard⟩
  have lockingSmall : locking.length ≤ Limits.scriptSize :=
    Script.length_paymentChannel_le senderSmall recipientSmall
  have plain : locking.isScriptHash = false := Script.isScriptHash_paymentChannel
  have lax : Flags.standard.requiresCanonical = false := by decide
  have anyPushes : Flags.standard.has .pushOnly = false := by decide
  have unclean : Flags.standard.has .cleanStack = false := by decide
  have accepts {signature key : Bytes} (short : signature.length ≤ Limits.elementSize) :
      env.checkSignature (Machine.connectedScript env 0 [signature]) signature key = .ok true ↔
        signs signature key := by
    have assembled : env.script = .assemble (Script.channelChunks sender recipient expiry.toInt) :=
      Script.paymentChannel_eq
    exact (Machine.checkSignature_single_iff rfl assembled
      (Script.wellFormed_channelChunks senderSmall recipientSmall) short).trans
      (Environment.passesCheck_iff_of_lax lax)
  -- what the unlocking script left keeps the limits, so that the locking script has room
  have closes {stack : Stack} (unlocked : left = .ok stack) :
      (∃ final, locking.execute (some ⟨tx, index⟩) .standard stack = .ok final ∧
        final.isTrue = true) ↔ ClosesChannel signs sender recipient expired stack := by
    obtain ⟨room, elements⟩ := Script.withinLimits_of_execute_nil unlocked
    refine (Script.exists_true_paymentChannel_iff senderSmall recipientSmall room).trans ?_
    constructor
    · exact fun closed => closed.imp fun signature mem _ => (accepts (elements signature mem)).mp
    · exact fun closed => closed.imp fun signature mem _ => (accepts (elements signature mem)).mpr
  have authorized : verdict = .ok () ↔
      ∃ stack, left = .ok stack ∧ ClosesChannel signs sender recipient expired stack := by
    rw [verify_eq_ok_iff_of_plain plain]
    simp only [anyPushes, unclean, Bool.false_eq_true, false_implies, implies_true, and_true,
      true_and]
    constructor
    · rintro ⟨-, -, -, stack, final, unlocked, ran, good⟩
      exact ⟨stack, unlocked, (closes unlocked).mp ⟨final, ran, good⟩⟩
    · rintro ⟨stack, unlocked, closed⟩
      obtain ⟨final, ran, good⟩ := (closes unlocked).mpr closed
      exact ⟨inRange, small, lockingSmall, stack, final, unlocked, ran, good⟩
  refine ⟨authorized, fun spent early => ?_⟩
  obtain ⟨stack, unlocked, closed⟩ := authorized.mp spent
  obtain ⟨selector, signature, rest, rfl, signed⟩ := closed.recipientSigned early
  exact ⟨selector, signature, rest, unlocked, signed⟩

/-- A holder who is both parties closes a channel that expires at height five: alone at height 500,
and together with itself at any time. -/
theorem spends_paymentChannel_iff_holder :
    let locking := Script.paymentChannel holderKey holderKey 5
    let alone := Script.build [.data holderSignature, .data []]
    let together := Script.build [.data holderSignature, .data holderSignature, .data [1]]
    holderKey.length ≤ 520 ∧ alone.length ≤ 10000 ∧ together.length ≤ 10000 ∧
      0 < heightLocked.inputs.length ∧ 0 < plainSpend.inputs.length ∧
      verify alone heightLocked 0 locking .standard = .ok () ∧
      verify together plainSpend 0 locking .standard = .ok () := by
  intro locking alone together
  have keySmall : holderKey.length ≤ 520 := by decide +kernel
  have aloneSmall : alone.length ≤ 10000 := by decide +kernel
  have togetherSmall : together.length ≤ 10000 := by decide +kernel
  have lockedInput : 0 < heightLocked.inputs.length := by decide
  have plainInput : 0 < plainSpend.inputs.length := by decide
  have lockedDigest (script : Script) :
      SignatureHash.digest heightLocked 0 script ⟨0x03⟩ = .ok SignatureHash.withoutOutput := by cbv
  have plainDigest (script : Script) :
      SignatureHash.digest plainSpend 0 script ⟨0x03⟩ = .ok SignatureHash.withoutOutput := by cbv
  have leftAlone : alone.execute (some ⟨heightLocked, 0⟩) .standard [] =
      .ok [[], holderSignature] := by cbv
  have leftTogether : together.execute (some ⟨plainSpend, 0⟩) .standard [] =
      .ok [[1], holderSignature, holderSignature] := by cbv
  have late : LockedUntil heightLocked 0 (5 : Int64).toInt :=
    ⟨by decide, by decide, by decide, by decide, _, rfl, by decide⟩
  refine ⟨keySmall, aloneSmall, togetherSmall, lockedInput, plainInput, ?_, ?_⟩
  · exact (spends_paymentChannel_iff keySmall keySmall aloneSmall lockedInput).1.mpr
      ⟨_, leftAlone, .alone (by decide) (holder_signs false lockedDigest _) late⟩
  · exact (spends_paymentChannel_iff keySmall keySmall togetherSmall plainInput).1.mpr
      ⟨_, leftTogether, .together (by decide) (holder_signs false plainDigest _)
        (holder_signs false plainDigest _)⟩

end Spend

end TokenLedger
