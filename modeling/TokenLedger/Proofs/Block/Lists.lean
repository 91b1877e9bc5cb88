import TokenLedger.Proofs.Block.Exactness
import TokenLedger.Proofs.ReadSession
import TokenLedger.Proofs.Wire.Costs

/-!
# Lists in transactions and blocks

A list says how many elements it has before the first of them is there, and room is made for so
many, but never for more than could stand in the bytes that remain. That is room enough, for an
element has a least number of bytes. The lists of a buffer are found by its readers, each up to the
element that fails.
-/

namespace TokenLedger

/-! ### What elements cost -/

theorem Input.read_costs (strictness : Strictness) :
    (Input.read strictness).Costs fun _ => 41 :=
  (readFixed_costs _ 32).bind fun _ => (readNumber_costs _).bind fun _ =>
  (readVarBytes_costs strictness _).bind fun _ => (readNumber_costs _).bind fun _ => .pure rfl

theorem Output.read_costs (strictness : Strictness) :
    (Output.read strictness).Costs fun _ => 3 := by
  refine .bind_get fun start => (readVarBytes_costs strictness _).bind fun valueBytes => ?_
  have behind (value : Nat) : ReadM.Costs (do
      let tokenId ← readVarBytes strictness "output.token_id"
      let lockingScript ← readVarBytes strictness "output.script_pubkey"
      return ({ value, tokenId, lockingScript } : Output)) fun _ => 2 :=
    (readVarBytes_costs strictness _).bind fun _ =>
      (readVarBytes_costs strictness _).bind fun _ => .pure rfl
  split
  next value _ => exact behind value
  next e _ => exact (ReadM.Costs.throw (fun _ => 0) e).bind behind

/-- A transaction pays for its own fields, and for every input and output. -/
theorem Transaction.read_costs (policy : CodecPolicy) :
    (Transaction.read policy).Costs
      fun tx => 14 + 41 * tx.inputs.length + 3 * tx.outputs.length := by
  refine (readNumber_costs _).bind fun version =>
    (readCount_costs _ _ _).bind fun inputCount =>
    (readMany_costs (Input.read_costs _) _).bind fun inputs =>
    (readCount_costs _ _ _).bind fun outputCount =>
    (readMany_costs (Output.read_costs _) _).bind fun outputs =>
    (readNumber_costs _).bind fun lockTime =>
    (readOptionalText_costs _).bind fun memo =>
    (readOptionalText_costs _).bind fun className =>
    (readOptionalBytes_costs _).bind fun data =>
    (readOptionalBytes_costs _).bind fun signature => .pure ?_
  dsimp only
  omega

theorem Header.read_costs : Header.read.Costs fun _ => 160 :=
  (readNumber_costs _).bind fun _ => (readFixed_costs _ 32).bind fun _ =>
  (readFixed_costs _ 32).bind fun _ => (readFixed_costs _ 32).bind fun _ =>
  (readNumber_costs _).bind fun _ => (readNumber_costs _).bind fun _ =>
  (readNumber_costs _).bind fun _ => (readNumber_costs _).bind fun _ =>
  (readFixed_costs _ 20).bind fun _ => (readNumber_costs _).bind fun _ =>
  (readNumber_costs _).bind fun _ => .pure rfl

/-! ### Lists -/

/-- A list whose number was declared, as its reader deals with it. -/
structure ListReading where
  declared : Nat
  /-- The bytes that remain behind the number. -/
  available : Nat
  /-- The fewest bytes that an element can have. -/
  least : Nat
  /-- The number of elements that are read before the list ends or one of them fails. -/
  read : Nat
  deriving DecidableEq, Repr

namespace ListReading

variable {α : Type} {read : ReadM α} {l : ListReading} {n : Nat}

/-- The list that is read at a cursor, just behind its number. -/
def ofLoop (read : ReadM α) (least declared : Nat) (c : Cursor) : ListReading :=
  ⟨declared, c.remaining, least, read.iterations declared c⟩

/-- The number of elements for which room is made before the first is read. -/
def reserved (l : ListReading) : Nat := min l.declared (l.available / l.least)

/-- Whatever is read has its room, and there is room for no more than so many bytes can hold. -/
structure FitsIn (l : ListReading) (n : Nat) : Prop where
  read : l.read ≤ l.reserved
  reserved : l.reserved * l.least ≤ l.available
  available : l.available ≤ n

theorem FitsIn.mono {m : Nat} (fits : l.FitsIn n) (more : n ≤ m) : l.FitsIn m :=
  ⟨fits.read, fits.reserved, Nat.le_trans fits.available more⟩

theorem fitsIn_ofLoop {least : Nat} (costs : read.Costs fun _ => least) (pos : 0 < least)
    (declared : Nat) (c : Cursor) : (ofLoop read least declared c).FitsIn c.remaining where
  read := Nat.le_min.mpr ⟨read.iterations_le declared c,
    (Nat.le_div_iff_mul_le pos).mpr (costs.iterations_mul_le declared c)⟩
  reserved := Nat.le_trans (Nat.mul_le_mul_right least (Nat.min_le_right _ _))
    (Nat.div_mul_le_self _ _)
  available := Nat.le_refl _

/-- A list that is read as a whole has the room that it needs, and no more. -/
theorem FitsIn.reserved_eq (fits : l.FitsIn n) (complete : l.read = l.declared) :
    l.reserved = l.declared :=
  Nat.le_antisymm (Nat.min_le_left _ _) (complete ▸ fits.read)

end ListReading

namespace Transaction

/-! #### The reader in four parts, cut where a list begins or ends -/

/-- Up to the number of inputs. -/
def readInputCount (policy : CodecPolicy) : ReadM Nat := do
  let _ ← readUInt32 "tx.version"
  readCount policy.strictness policy.maximumCount "tx.input_count"

/-- The inputs, and the number of outputs. -/
def readOutputCount (policy : CodecPolicy) (inputCount : Nat) : ReadM Nat := do
  let _ ← readMany (Input.read policy.strictness) inputCount
  readCount policy.strictness policy.maximumCount "tx.output_count"

/-- What stands behind the outputs. -/
def readTail : ReadM Unit := do
  let _ ← readUInt32 "tx.lock_time"
  let _ ← readOptionalText "tx.memo"
  let _ ← readOptionalText "tx.data_class_name"
  let _ ← readOptionalBytes "tx.data"
  let _ ← readOptionalBytes "tx.data_signature"

theorem read_in_parts (policy : CodecPolicy) :
    (do let _ ← read policy) = (do
      let inputCount ← readInputCount policy
      let outputCount ← readOutputCount policy inputCount
      let _ ← readMany (Output.read policy.strictness) outputCount
      readTail) := by
  simp only [read, readInputCount, readOutputCount, readTail, bind_assoc, pure_bind]

/-- The lists of the transaction at a cursor, as far as its reader comes to them. -/
def lists (policy : CodecPolicy) (c : Cursor) : List ListReading :=
  match readInputCount policy c with
  | .error _ _ => []
  | .ok inputCount c =>
    let inputs := .ofLoop (Input.read policy.strictness) 41 inputCount c
    match readOutputCount policy inputCount c with
    | .error _ _ => [inputs]
    | .ok outputCount c => [inputs, .ofLoop (Output.read policy.strictness) 3 outputCount c]

section

variable {policy : CodecPolicy} {c stop atInputs atOutputs : Cursor} {e : DecodeError}
  {inputCount outputCount : Nat}

theorem lists_of_uncounted (failed : readInputCount policy c = .error e stop) :
    lists policy c = [] := by
  rw [lists, failed]

theorem lists_of_inputCount (counted : readInputCount policy c = .ok inputCount atInputs)
    (failed : readOutputCount policy inputCount atInputs = .error e stop) :
    lists policy c = [.ofLoop (Input.read policy.strictness) 41 inputCount atInputs] := by
  rw [lists, counted]
  dsimp only
  rw [failed]

theorem lists_of_outputCount (counted : readInputCount policy c = .ok inputCount atInputs)
    (turned : readOutputCount policy inputCount atInputs = .ok outputCount atOutputs) :
    lists policy c = [.ofLoop (Input.read policy.strictness) 41 inputCount atInputs,
      .ofLoop (Output.read policy.strictness) 3 outputCount atOutputs] := by
  rw [lists, counted]
  dsimp only
  rw [turned]

end

end Transaction

namespace Block

/-- The lists of the transactions from a cursor on, `left` of them, up to the first that fails. -/
def transactionLists (policy : CodecPolicy) : Nat → Cursor → List ListReading
  | 0, _ => []
  | left + 1, c =>
    Transaction.lists policy c ++
      match Transaction.read policy c with
      | .ok _ after => transactionLists policy left after
      | .error _ _ => []

/-- Up to the number of transactions. -/
def readTransactionCount (policy : CodecPolicy) : ReadM Nat := do
  let _ ← Header.read
  readCount policy.strictness policy.maximumCount "block.tx_count"

/-- The list of the transactions of a block, and the lists of these. -/
def lists (policy : CodecPolicy) (buffer : Bytes) : List ListReading :=
  match readTransactionCount policy (.ofBuffer buffer 0) with
  | .error _ _ => []
  | .ok count c => .ofLoop (Transaction.read policy) 14 count c :: transactionLists policy count c

end Block

/-! ### Room for every list -/

theorem Transaction.lists_fitIn (policy : CodecPolicy) (c : Cursor) :
    ∀ l ∈ lists policy c, l.FitsIn c.remaining := by
  unfold lists
  dsimp only
  split
  next => exact List.forall_mem_nil _
  next inputCount atInputs opened =>
    have forward := ReadM.Bounded.remaining_le
      ((readNumber_bounded _).bind fun _ => readCount_bounded _ _ _) opened
    have inputs := (ListReading.fitsIn_ofLoop (Input.read_costs policy.strictness) (by decide)
      inputCount atInputs).mono forward
    split
    next => exact List.forall_mem_singleton.mpr inputs
    next outputCount atOutputs turned =>
      have further := ReadM.Bounded.remaining_le
        ((readMany_bounded (Input.read_bounded _) _).bind fun _ => readCount_bounded _ _ _) turned
      have outputs := (ListReading.fitsIn_ofLoop (Output.read_costs policy.strictness) (by decide)
        outputCount atOutputs).mono (Nat.le_trans further forward)
      exact List.forall_mem_cons.mpr ⟨inputs, List.forall_mem_singleton.mpr outputs⟩

namespace Block

theorem transactionLists_fitIn (policy : CodecPolicy) (left : Nat) (c : Cursor) :
    ∀ l ∈ transactionLists policy left c, l.FitsIn c.remaining := by
  induction left generalizing c with
  | zero => exact List.forall_mem_nil _
  | succ left ih =>
    rw [transactionLists]
    refine List.forall_mem_append.mpr ⟨Transaction.lists_fitIn policy c, ?_⟩
    split
    next tx after ran =>
      have forward := (Transaction.read_bounded policy).remaining_le ran
      exact fun l mem => (ih after l mem).mono forward
    next => exact List.forall_mem_nil _

theorem lists_fitIn (policy : CodecPolicy) (buffer : Bytes) :
    ∀ l ∈ lists policy buffer, l.FitsIn buffer.length := by
  unfold lists
  split
  next => exact List.forall_mem_nil _
  next count c opened =>
    have forward := ReadM.Bounded.remaining_le
      (Header.read_bounded.bind fun _ => readCount_bounded _ _ _) opened
    rw [Cursor.remaining_ofBuffer, Nat.sub_zero] at forward
    have transactions : (Transaction.read policy).Costs fun _ => 14 :=
      (Transaction.read_costs policy).mono fun _ => by omega
    refine List.forall_mem_cons.mpr ⟨?_, fun l mem => ?_⟩
    · exact (ListReading.fitsIn_ofLoop transactions (by decide) count c).mono forward
    · exact (transactionLists_fitIn policy count c l mem).mono forward

end Block

/-! ### Lists that are accepted -/

/-- The lists of a transaction that is read are read as a whole. -/
theorem Transaction.lists_of_read {policy : CodecPolicy} {c after : Cursor} {tx : Transaction}
    (ran : read policy c = .ok tx after) :
    ∃ atInputs atOutputs, lists policy c =
      [⟨tx.inputs.length, atInputs, 41, tx.inputs.length⟩,
        ⟨tx.outputs.length, atOutputs, 3, tx.outputs.length⟩] := by
  obtain ⟨version, c₁, version_ran, ran⟩ := estate_bind_eq_ok.mp ran
  obtain ⟨inputCount, atInputs, counted, ran⟩ := estate_bind_eq_ok.mp ran
  obtain ⟨inputs, c₂, inputs_ran, ran⟩ := estate_bind_eq_ok.mp ran
  obtain ⟨outputCount, atOutputs, counted', ran⟩ := estate_bind_eq_ok.mp ran
  obtain ⟨outputs, c₃, outputs_ran, ran⟩ := estate_bind_eq_ok.mp ran
  obtain ⟨_, c₄, -, ran⟩ := estate_bind_eq_ok.mp ran
  obtain ⟨_, c₅, -, ran⟩ := estate_bind_eq_ok.mp ran
  obtain ⟨_, c₆, -, ran⟩ := estate_bind_eq_ok.mp ran
  obtain ⟨_, c₇, -, ran⟩ := estate_bind_eq_ok.mp ran
  obtain ⟨_, c₈, -, ran⟩ := estate_bind_eq_ok.mp ran
  obtain ⟨rfl, -⟩ := estate_pure_eq_ok.mp ran
  obtain ⟨rfl, allInputs⟩ := ReadM.iterations_of_readMany_eq_ok inputs_ran
  obtain ⟨rfl, allOutputs⟩ := ReadM.iterations_of_readMany_eq_ok outputs_ran
  refine ⟨atInputs.remaining, atOutputs.remaining, ?_⟩
  rw [lists_of_outputCount (estate_bind_eq_ok.mpr ⟨version, c₁, version_ran, counted⟩)
    (estate_bind_eq_ok.mpr ⟨inputs, c₂, inputs_ran, counted'⟩)]
  simp only [ListReading.ofLoop, allInputs, allOutputs]

/-- The room that is made for the lists of a transaction. -/
theorem Transaction.reserved_of_read {policy : CodecPolicy} {c after : Cursor} {tx : Transaction}
    (ran : read policy c = .ok tx after) :
    (lists policy c).map ListReading.reserved = [tx.inputs.length, tx.outputs.length] := by
  have fits := lists_fitIn policy c
  obtain ⟨atInputs, atOutputs, found⟩ := lists_of_read ran
  rw [found, List.forall_mem_cons, List.forall_mem_singleton] at fits
  rw [found, List.map_cons, List.map_singleton, fits.1.reserved_eq rfl, fits.2.reserved_eq rfl]

namespace Block

variable {policy : CodecPolicy}

/-- The lists of transactions that are read, and of those behind them. -/
theorem transactionLists_of_readMany {n : Nat} {c between : Cursor} {txs : List Transaction}
    (ran : readMany (Transaction.read policy) n c = .ok txs between) :
    ∃ front : List ListReading,
      front.map ListReading.reserved =
        txs.flatMap (fun tx => [tx.inputs.length, tx.outputs.length]) ∧
      ∀ m, transactionLists policy (n + m) c = front ++ transactionLists policy m between := by
  induction n generalizing c txs with
  | zero =>
    obtain ⟨rfl, rfl⟩ := estate_pure_eq_ok.mp ran
    exact ⟨[], rfl, fun m => by rw [Nat.zero_add, List.nil_append]⟩
  | succ n ih =>
    obtain ⟨tx, after, head, tail⟩ := estate_bind_eq_ok.mp ran
    obtain ⟨others, stop, further, last⟩ := estate_bind_eq_ok.mp tail
    obtain ⟨rfl, rfl⟩ := estate_pure_eq_ok.mp last
    obtain ⟨front, reserved, whole⟩ := ih further
    refine ⟨Transaction.lists policy c ++ front, ?_, fun m => ?_⟩
    · rw [List.map_append, Transaction.reserved_of_read head, reserved, List.flatMap_cons]
    · rw [Nat.succ_add, transactionLists, head, List.append_assoc]
      exact congrArg _ (whole m)

theorem readMany_of_decodeTransactions {index left : Nat} {c : Cursor} {txs : List Transaction}
    (decoded : decodeTransactions policy index left c = .ok txs) :
    ∃ after, readMany (Transaction.read policy) left c = .ok txs after := by
  induction left generalizing index c txs with
  | zero =>
    unfold decodeTransactions at decoded
    split at decoded
    next =>
      cases decoded
      exact ⟨c, rfl⟩
    next => cases decoded
  | succ left ih =>
    unfold decodeTransactions at decoded
    split at decoded
    next tx after ran =>
      obtain ⟨others, further, rfl⟩ := except_map_eq_ok.mp decoded
      obtain ⟨stop, rest⟩ := ih further
      exact ⟨stop, estate_bind_eq_ok.mpr ⟨tx, after, ran,
        estate_bind_eq_ok.mpr ⟨others, stop, rest, rfl⟩⟩⟩
    next => cases decoded

/-- Transactions that are not all there end with one that cannot be read, or before the buffer
does. -/
theorem readMany_of_decodeTransactions_eq_error {index left : Nat} {c : Cursor} {e : Error}
    (failed : decodeTransactions policy index left c = .error e) :
    ∃ txs before, readMany (Transaction.read policy) txs.length c = .ok txs before ∧
      (txs.length < left ∧ (∃ cause stop, Transaction.read policy before = .error cause stop ∧
          e = .malformedBlock before.position
            (.undecodable (index + txs.length) (index + left) cause)) ∨
        txs.length = left ∧ before.atEnd = false ∧
          e = .malformedBlock before.position
            (.trailingBytes before.remaining (index + left))) := by
  induction left generalizing index c with
  | zero =>
    unfold decodeTransactions at failed
    split at failed
    next => cases failed
    next more =>
      cases failed
      exact ⟨[], c, rfl, .inr ⟨rfl, Bool.eq_false_iff.mpr more, rfl⟩⟩
  | succ left ih =>
    unfold decodeTransactions at failed
    split at failed
    next tx after ran =>
      obtain ⟨others, before, rest, short⟩ := ih (except_map_eq_error.mp failed)
      refine ⟨tx :: others, before, ?_, ?_⟩
      · exact estate_bind_eq_ok.mpr ⟨tx, after, ran,
          estate_bind_eq_ok.mpr ⟨others, before, rest, rfl⟩⟩
      · have number : index + 1 + others.length = index + (others.length + 1) := by omega
        have total : index + 1 + left = index + (left + 1) := by omega
        rw [number, total] at short
        rcases short with ⟨more, found⟩ | ⟨all, found⟩
        · exact .inl ⟨Nat.succ_lt_succ more, found⟩
        · exact .inr ⟨congrArg Nat.succ all, found⟩
    next cause stop ran =>
      cases failed
      exact ⟨[], c, rfl, .inl ⟨Nat.succ_pos left, cause, stop, ran, rfl⟩⟩

section

variable {header : Header} {count : Nat} {buffer : Bytes} {behind : Cursor} {block : Block}
  {e : Error}

theorem readTransactionCount_costs (policy : CodecPolicy) :
    (readTransactionCount policy).Costs fun _ => 161 :=
  Header.read_costs.bind fun _ => readCount_costs _ _ _

/-- The number is read as the decoder does, which keeps the header too. -/
theorem readTransactionCount_eq (policy : CodecPolicy) :
    readTransactionCount policy = Prod.snd <$> (do
      let header ← Header.read
      let count ← readCount policy.strictness policy.maximumCount "block.tx_count"
      return (header, count)) := by
  simp only [readTransactionCount, map_eq_pure_bind, bind_assoc, pure_bind, bind_pure]

theorem exists_of_decode_eq_ok (decoded : decode policy buffer = .ok block) :
    ∃ count behind, readTransactionCount policy (.ofBuffer buffer 0) = .ok count behind ∧
      decodeTransactions policy 0 count behind = .ok block.transactions := by
  unfold decode at decoded
  dsimp only at decoded
  split at decoded
  next => cases decoded
  next header count behind opened =>
    obtain ⟨txs, others, whole⟩ := except_bind_eq_ok.mp decoded
    obtain rfl := except_pure_eq_ok.mp whole
    refine ⟨count, behind, ?_, others⟩
    rw [readTransactionCount_eq, map_eq_pure_bind, estate_bind_of_ok opened]
    rfl

theorem exists_of_decode_eq_error (failed : decode policy buffer = .error e) :
    (∃ cause stop, readTransactionCount policy (.ofBuffer buffer 0) = .error cause stop ∧
      e = .decode cause) ∨
    ∃ count behind, readTransactionCount policy (.ofBuffer buffer 0) = .ok count behind ∧
      decodeTransactions policy 0 count behind = .error e := by
  unfold decode at failed
  dsimp only at failed
  split at failed
  next cause stop stopped =>
    cases failed
    refine .inl ⟨cause, stop, ?_, rfl⟩
    rw [readTransactionCount_eq, map_eq_pure_bind, estate_bind_of_error stopped]
  next header count behind opened =>
    refine .inr ⟨count, behind, ?_, ?_⟩
    · rw [readTransactionCount_eq, map_eq_pure_bind, estate_bind_of_ok opened]
      rfl
    · rcases except_bind_eq_error.mp failed with others | ⟨_, -, impossible⟩
      · exact others
      · cases impossible

theorem lists_of_count
    (counted : readTransactionCount policy (.ofBuffer buffer 0) = .ok count behind) :
    lists policy buffer =
      .ofLoop (Transaction.read policy) 14 count behind ::
        transactionLists policy count behind := by
  rw [lists, counted]

/-- A block pays for its header, its number of transactions and each of these, and room is made for
what it holds. -/
theorem of_decode (decoded : decode policy buffer = .ok block) :
    161 + 14 * block.transactions.length ≤ buffer.length ∧
      (lists policy buffer).map ListReading.reserved =
        block.transactions.length ::
          block.transactions.flatMap fun tx => [tx.inputs.length, tx.outputs.length] := by
  obtain ⟨count, behind, counted, others⟩ := exists_of_decode_eq_ok decoded
  obtain ⟨after, ran⟩ := readMany_of_decodeTransactions others
  obtain ⟨rfl, all⟩ := ReadM.iterations_of_readMany_eq_ok ran
  obtain ⟨front, reserved, whole⟩ := transactionLists_of_readMany ran
  have opening := readTransactionCount_costs _ _ _ _ counted
  rw [Cursor.remaining_ofBuffer, Nat.sub_zero] at opening
  have fits := lists_fitIn policy buffer
  rw [lists_of_count counted, List.forall_mem_cons] at fits
  have room := fits.1.reserved_eq all
  have paid := fits.1.reserved
  rw [room] at paid
  simp only [ListReading.ofLoop] at paid
  refine ⟨by dsimp only at opening; omega, ?_⟩
  rw [lists_of_count counted, List.map_cons, room, ← reserved]
  congr 2
  exact (whole 0).trans (List.append_nil front)

end

end Block

end TokenLedger
