import TokenLedger.Proofs.Block.Lists
import TokenLedger.Proofs.SignatureHash.Commitment

/-!
# Declared counts

Whatever number a list declares, its reader ends with the last element or fails behind as many as
the list says. An accepted list has the room that was made for it, and one whose number is too high
for its buffer ends early, whatever number that is.
-/

namespace TokenLedger

/-! ### Lists that end early -/

/-- Where the reader of a transaction fails, with the lists that it has come to by then. -/
inductive Transaction.StopsAt (policy : CodecPolicy) (c : Cursor) (e : DecodeError)
    (stop : Cursor) : List ListReading → Prop
  /-- Before the inputs are counted. -/
  | inputCount (failed : readInputCount policy c = .error e stop) : StopsAt policy c e stop []
  /-- At an input behind others, of which there are fewer than were declared. -/
  | input {inputCount : Nat} {atInputs before : Cursor} {inputs : List Input}
      (counted : readInputCount policy c = .ok inputCount atInputs)
      (ran : readMany (Input.read policy.strictness) inputs.length atInputs = .ok inputs before)
      (more : inputs.length < inputCount)
      (failed : Input.read policy.strictness before = .error e stop) :
      StopsAt policy c e stop [⟨inputCount, atInputs.remaining, 41, inputs.length⟩]
  /-- Behind all inputs, before the outputs are counted. -/
  | outputCount {atInputs before : Cursor} {inputs : List Input}
      (counted : readInputCount policy c = .ok inputs.length atInputs)
      (ran : readMany (Input.read policy.strictness) inputs.length atInputs = .ok inputs before)
      (failed : readCount policy.strictness policy.maximumCount "tx.output_count" before =
        .error e stop) :
      StopsAt policy c e stop [⟨inputs.length, atInputs.remaining, 41, inputs.length⟩]
  /-- At an output behind others, of which there are fewer than were declared. -/
  | output {inputCount outputCount : Nat} {atInputs atOutputs before : Cursor}
      {outputs : List Output}
      (counted : readInputCount policy c = .ok inputCount atInputs)
      (turned : readOutputCount policy inputCount atInputs = .ok outputCount atOutputs)
      (ran : readMany (Output.read policy.strictness) outputs.length atOutputs =
        .ok outputs before)
      (more : outputs.length < outputCount)
      (failed : Output.read policy.strictness before = .error e stop) :
      StopsAt policy c e stop [⟨inputCount, atInputs.remaining, 41, inputCount⟩,
        ⟨outputCount, atOutputs.remaining, 3, outputs.length⟩]
  /-- Behind all outputs. -/
  | tail {inputCount : Nat} {atInputs atOutputs before : Cursor} {outputs : List Output}
      (counted : readInputCount policy c = .ok inputCount atInputs)
      (turned : readOutputCount policy inputCount atInputs = .ok outputs.length atOutputs)
      (ran : readMany (Output.read policy.strictness) outputs.length atOutputs =
        .ok outputs before)
      (failed : readTail before = .error e stop) :
      StopsAt policy c e stop [⟨inputCount, atInputs.remaining, 41, inputCount⟩,
        ⟨outputs.length, atOutputs.remaining, 3, outputs.length⟩]

/-- A transaction that cannot be read is given up where its lists end. -/
theorem Transaction.stopsAt_of_read {policy : CodecPolicy} {c stop : Cursor} {e : DecodeError}
    (failed : read policy c = .error e stop) : StopsAt policy c e stop (lists policy c) := by
  have parts : (do let _ ← read policy) c = .error e stop :=
    estate_bind_eq_error.mpr (.inl failed)
  rw [read_in_parts] at parts
  rcases estate_bind_eq_error.mp parts with uncounted | ⟨inputCount, atInputs, counted, parts⟩
  · rw [lists_of_uncounted uncounted]
    exact .inputCount uncounted
  rcases estate_bind_eq_error.mp parts with stopped | ⟨outputCount, atOutputs, turned, parts⟩
  · rw [lists_of_inputCount counted stopped]
    rcases estate_bind_eq_error.mp stopped with atInput | ⟨inputs, before, ran, uncounted⟩
    · obtain ⟨inputs, before, ran, number, more, last⟩ := ReadM.exists_of_readMany_eq_error atInput
      rw [ListReading.ofLoop, ← number]
      exact .input counted ran more last
    · obtain ⟨rfl, all⟩ := ReadM.iterations_of_readMany_eq_ok ran
      rw [ListReading.ofLoop, all]
      exact .outputCount counted ran uncounted
  -- All inputs were read, as their list is behind them.
  obtain ⟨inputs, behind, inputs_ran, -⟩ := estate_bind_eq_ok.mp turned
  have allInputs := (ReadM.iterations_of_readMany_eq_ok inputs_ran).2
  rw [lists_of_outputCount counted turned, ListReading.ofLoop, ListReading.ofLoop, allInputs]
  rcases estate_bind_eq_error.mp parts with atOutput | ⟨outputs, before, ran, last⟩
  · obtain ⟨outputs, before, ran, number, more, last⟩ := ReadM.exists_of_readMany_eq_error atOutput
    rw [← number]
    exact .output counted turned ran more last
  · obtain ⟨rfl, all⟩ := ReadM.iterations_of_readMany_eq_ok ran
    rw [all]
    exact .tail counted turned ran last

/-- Where the decoder of a block fails, with the lists that it has come to by then. -/
inductive Block.StopsAt (policy : CodecPolicy) (buffer : Bytes) :
    Error → List ListReading → Prop
  /-- Before the transactions are counted. -/
  | transactionCount {e : DecodeError} {stop : Cursor}
      (failed : readTransactionCount policy (.ofBuffer buffer 0) = .error e stop) :
      StopsAt policy buffer (.decode e) []
  /-- At a transaction behind others, of which there are fewer than were declared. -/
  | transaction {count : Nat} {behind before stop : Cursor} {txs : List Transaction}
      {e : DecodeError} {complete lists : List ListReading}
      (counted : readTransactionCount policy (.ofBuffer buffer 0) = .ok count behind)
      (ran : readMany (Transaction.read policy) txs.length behind = .ok txs before)
      (room : complete.map ListReading.reserved =
        txs.flatMap fun tx => [tx.inputs.length, tx.outputs.length])
      (more : txs.length < count) (failed : Transaction.StopsAt policy before e stop lists) :
      StopsAt policy buffer (.malformedBlock before.position (.undecodable txs.length count e))
        (⟨count, behind.remaining, 14, txs.length⟩ :: (complete ++ lists))
  /-- Behind all transactions, before the end of the buffer. -/
  | rest {behind before : Cursor} {txs : List Transaction} {complete : List ListReading}
      (counted : readTransactionCount policy (.ofBuffer buffer 0) = .ok txs.length behind)
      (ran : readMany (Transaction.read policy) txs.length behind = .ok txs before)
      (room : complete.map ListReading.reserved =
        txs.flatMap fun tx => [tx.inputs.length, tx.outputs.length])
      (more : before.atEnd = false) :
      StopsAt policy buffer
        (.malformedBlock before.position (.trailingBytes before.remaining txs.length))
        (⟨txs.length, behind.remaining, 14, txs.length⟩ :: complete)

namespace Block

variable {policy : CodecPolicy} {buffer : Bytes}

/-- A block that cannot be decoded is given up where its lists end. -/
theorem stopsAt_of_decode {e : Error} (failed : decode policy buffer = .error e) :
    StopsAt policy buffer e (lists policy buffer) := by
  rcases exists_of_decode_eq_error failed with ⟨cause, stop, uncounted, rfl⟩ |
    ⟨count, behind, counted, others⟩
  · rw [lists, uncounted]
    exact .transactionCount uncounted
  obtain ⟨txs, before, ran, short⟩ := readMany_of_decodeTransactions_eq_error others
  obtain ⟨complete, room, whole⟩ := transactionLists_of_readMany ran
  have read := ReadM.iterations_add_of_readMany ran
  rw [lists_of_count counted, ListReading.ofLoop]
  rcases short with ⟨more, cause, stop, last, rfl⟩ | ⟨rfl, more, rfl⟩
  · obtain ⟨left, rfl⟩ := Nat.exists_eq_add_of_lt more
    rw [Nat.zero_add, Nat.zero_add, Nat.add_assoc, read (left + 1), whole (left + 1),
      ReadM.iterations_succ_of_error last, transactionLists, last, List.append_nil, Nat.add_zero]
    exact .transaction counted ran room more (Transaction.stopsAt_of_read last)
  · have all := read 0
    have completed := whole 0
    rw [Nat.add_zero, ReadM.iterations, Nat.add_zero] at all
    rw [Nat.add_zero, transactionLists, List.append_nil] at completed
    rw [Nat.zero_add, all, completed]
    exact .rest counted ran room more

/-- The list of a block whose transactions end early was read up to the one that fails. -/
theorem head?_lists_of_undecodable {position i n : Nat} {cause : DecodeError}
    (failed : decode policy buffer = .error (.malformedBlock position (.undecodable i n cause))) :
    (lists policy buffer).head?.map (fun l => (l.declared, l.read)) = some (n, i) := by
  have stops := stopsAt_of_decode failed
  generalize lists policy buffer = read at stops
  cases stops
  rfl

end Block

/-- A transaction that is accepted takes 14 bytes, 41 more for each of its inputs and 3 for each of
its outputs; an accepted block has 161 bytes, and 14 for each of its transactions. So there is room
for every list that is accepted. What is not accepted fails where its lists end. Of any list in any
buffer, whatever number was declared, no more elements are read than there is room for, and there
is room for no more than its bytes can hold. -/
theorem declared_counts_fit_buffer (policy : CodecPolicy) (buffer : Bytes) (offset : Nat) :
    (∀ tx taken, Transaction.decodeAt policy buffer offset = .ok (tx, taken) →
      14 + 41 * tx.inputs.length + 3 * tx.outputs.length ≤ taken ∧
      (Transaction.lists policy (.ofBuffer buffer offset)).map ListReading.reserved =
        [tx.inputs.length, tx.outputs.length]) ∧
    (∀ e, Transaction.decodeAt policy buffer offset = .error e →
      ∃ stop, Transaction.StopsAt policy (.ofBuffer buffer offset) e stop
        (Transaction.lists policy (.ofBuffer buffer offset))) ∧
    (∀ block, Block.decode policy buffer = .ok block →
      161 + 14 * block.transactions.length ≤ buffer.length ∧
      (Block.lists policy buffer).map ListReading.reserved =
        block.transactions.length ::
          block.transactions.flatMap fun tx => [tx.inputs.length, tx.outputs.length]) ∧
    (∀ e, Block.decode policy buffer = .error e →
      Block.StopsAt policy buffer e (Block.lists policy buffer)) ∧
    (∀ position i n cause,
      Block.decode policy buffer = .error (.malformedBlock position (.undecodable i n cause)) →
        (Block.lists policy buffer).head?.map (fun l => (l.declared, l.read)) = some (n, i)) ∧
    (∀ l ∈ Transaction.lists policy (.ofBuffer buffer offset),
      l.FitsIn (buffer.length - offset)) ∧
    ∀ l ∈ Block.lists policy buffer, l.FitsIn buffer.length := by
  refine ⟨fun tx taken decoded => ?_, fun e failed => ?_, fun block => Block.of_decode,
    fun e => Block.stopsAt_of_decode, fun _ _ _ _ => Block.head?_lists_of_undecodable, ?_,
    Block.lists_fitIn policy buffer⟩
  · unfold Transaction.decodeAt ReadM.decodeAt at decoded
    split at decoded
    next value after ran =>
      obtain ⟨rfl, rfl⟩ := Prod.mk.inj (Except.ok.inj decoded)
      obtain ⟨n, few, rfl⟩ := (Transaction.read_bounded policy).ok _ _ _ ran
      have price := Transaction.read_costs policy _ _ _ ran
      rw [Cursor.remaining_advance] at price
      refine ⟨?_, Transaction.reserved_of_read ran⟩
      show 14 + 41 * value.inputs.length + 3 * value.outputs.length ≤ offset + n - offset
      dsimp only at price
      omega
    next => cases decoded
  · unfold Transaction.decodeAt ReadM.decodeAt at failed
    split at failed
    next => cases failed
    next cause stop stopped =>
      cases failed
      exact ⟨stop, Transaction.stopsAt_of_read stopped⟩
  · have fits := Transaction.lists_fitIn policy (.ofBuffer buffer offset)
    rwa [Cursor.remaining_ofBuffer] at fits

/-- A block of two payments, each with two inputs and two outputs. -/
def pairBlock : Block where
  header := Block.emptyBlock.header
  transactions := [SignatureHash.pairPayment, SignatureHash.pairPayment]

theorem tailFits_pairPayment :
    TailFits SignatureHash.pairPayment.memo SignatureHash.pairPayment.dataClassName
      SignatureHash.pairPayment.data SignatureHash.pairPayment.dataSignature := by
  constructor <;> simp [SignatureHash.pairPayment, OptionalTextFits, OptionalBytesFit]

theorem fits_pairBlock : pairBlock.Fits 1000000 := by
  have members {p : Transaction → Prop} (payment : p SignatureHash.pairPayment) :
      ∀ tx ∈ pairBlock.transactions, p tx :=
    List.forall_mem_cons.mpr ⟨payment, List.forall_mem_singleton.mpr payment⟩
  constructor
  · decide
  · exact members SignatureHash.sized_pairPayment
  · exact members tailFits_pairPayment
  · exact members (by decide)
  · exact members (by decide)

/-- Two payments in a block, and two lists of which more elements are declared than any memory has
room for: two inputs are there, and two transactions. -/
theorem declared_counts_fit_buffer_pairBlock :
    let all : CodecPolicy := { maximumCount := 0xffffffffffffffff }
    let payment := SignatureHash.pairPayment
    let endless : Bytes := [0xff, 0xff, 0xff, 0xff, 0xff, 0xff, 0xff, 0xff, 0xff]
    let inputs : Bytes := [1, 0, 0, 0] ++ endless ++ payment.inputs.flatMap Input.encode
    let transactions : Bytes := Block.emptyBlock.header.encode ++
      (endless ++ (Block.emptyBlock.transactions ++ Block.emptyBlock.transactions).flatMap
        Transaction.encode)
    (Transaction.decodeAt {} (0xaa :: payment.encode) 1 = .ok (payment, payment.encode.length) ∧
      (Transaction.lists {} (.ofBuffer (0xaa :: payment.encode) 1)).map ListReading.reserved =
        [2, 2]) ∧
    (Transaction.decodeAt all inputs 0 = .error (.truncated "input.prevout.hash" 96 32 0) ∧
      Transaction.lists all (.ofBuffer inputs 0) = [⟨0xffffffffffffffff, 83, 41, 2⟩] ∧
      (∃ stop, Transaction.StopsAt all (.ofBuffer inputs 0)
        (.truncated "input.prevout.hash" 96 32 0) stop [⟨0xffffffffffffffff, 83, 41, 2⟩]) ∧
      ListReading.FitsIn ⟨0xffffffffffffffff, 83, 41, 2⟩ 96) ∧
    (Block.decode {} pairBlock.encode = .ok pairBlock ∧
      (Block.lists {} pairBlock.encode).map ListReading.reserved = [2, 2, 2, 2, 2]) ∧
    Block.decode all transactions = .error (.malformedBlock 197
        (.undecodable 2 0xffffffffffffffff (.truncated "tx.version" 197 4 0))) ∧
      (Block.lists all transactions).head?.map (fun l => (l.declared, l.read)) =
        some (0xffffffffffffffff, 2) := by
  intro all payment endless inputs transactions
  have form : ∃ f : Transaction.Form, f.Allowed {} ∧ f.bytes = payment.encode ∧ f.toTransaction = payment :=
    Transaction.exists_form_of_encode SignatureHash.sized_pairPayment tailFits_pairPayment
      (by decide) (by decide)
  have onPayment : Transaction.decodeAt {} (0xaa :: payment.encode) 1 =
      .ok (payment, payment.encode.length) :=
    ((Transaction.read_accepts {}).decodeAt_eq_ok_iff (by simp)).mpr
      ⟨payment.encode, [], form, (List.append_nil _).symm, rfl⟩
  have onInputs : Transaction.decodeAt all inputs 0 =
      .error (.truncated "input.prevout.hash" 96 32 0) := by cbv
  have found : Transaction.lists all (.ofBuffer inputs 0) =
      [⟨0xffffffffffffffff, 83, 41, 2⟩] := by cbv
  have length : inputs.length = 96 := by cbv
  have onBlock : Block.decode {} pairBlock.encode = .ok pairBlock :=
    Block.decode_encode fits_pairBlock
  have onTransactions : Block.decode all transactions = .error (.malformedBlock 197
      (.undecodable 2 0xffffffffffffffff (.truncated "tx.version" 197 4 0))) := by
    rw [Block.decode_of_header]
    cbv
  obtain ⟨accepted, -⟩ := declared_counts_fit_buffer {} (0xaa :: payment.encode) 1
  obtain ⟨-, refused, -, -, -, room, -⟩ := declared_counts_fit_buffer all inputs 0
  obtain ⟨-, -, blocks, -⟩ := declared_counts_fit_buffer {} pairBlock.encode 0
  obtain ⟨-, -, -, -, undecodable, -⟩ := declared_counts_fit_buffer all transactions 0
  have stops := refused _ onInputs
  rw [found] at stops room
  rw [length] at room
  exact ⟨⟨onPayment, (accepted _ _ onPayment).2⟩,
    ⟨onInputs, found, stops, room _ List.mem_cons_self⟩,
    ⟨onBlock, (blocks _ onBlock).2⟩, onTransactions, undecodable _ _ _ _ onTransactions⟩

end TokenLedger
