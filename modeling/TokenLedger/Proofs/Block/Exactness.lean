import Mathlib
import TokenLedger.Proofs.Block.Header
import TokenLedger.Proofs.Transaction.RoundTrip

/-!
# Well-formed blocks

A buffer is read as a block exactly if it is a header, a number that the policy accepts, and so many
transactions back to back. Where it is not, the failure says which of the three is broken, and where
the transactions end that are not.
-/

namespace TokenLedger

/-- The integer is a number of elements that the policy accepts. -/
structure CodecPolicy.AcceptsCount (policy : CodecPolicy) (count : VarInt) : Prop where
  form : count.IsForm
  canonical : policy.strictness = .strict → count.isCanonical = true
  bound : count.value ≤ policy.maximumCount

/-- Each of the byte strings is a transaction as a whole. -/
def Transaction.DecodesEach (policy : CodecPolicy) (parts : List Bytes) (txs : List Transaction) :
    Prop :=
  List.Forall₂ (fun part tx => Transaction.decode policy part = .ok tx) parts txs

namespace Block

variable {policy : CodecPolicy}

/-! ### The transactions -/

/-- A transaction is read where its bytes stand. -/
theorem read_eq_ok_iff {c c' : Cursor} {tx : Transaction} (inside : c.beyond = 0) :
    Transaction.read policy c = .ok tx c' ↔
      ∃ part, Transaction.decode policy part = .ok tx ∧ c.rest = part ++ c'.rest ∧
        c'.position = c.position + part.length ∧ c'.beyond = 0 := by
  have accepts := Transaction.read_accepts policy
  rw [accepts _ _ _ inside]
  simp only [Transaction.decode, accepts.decodeAll_eq_ok_iff]

theorem decodeTransactions_eq_ok_iff {index left : Nat} {c : Cursor} {txs : List Transaction}
    (inside : c.beyond = 0) :
    decodeTransactions policy index left c = .ok txs ↔
      ∃ parts, parts.length = left ∧ Transaction.DecodesEach policy parts txs ∧
        c.rest = parts.flatten := by
  induction left generalizing index c txs with
  | zero =>
    unfold decodeTransactions
    constructor
    · intro decoded
      split at decoded
      next ended =>
        cases decoded
        exact ⟨[], rfl, .nil, by simpa [Cursor.atEnd] using ended⟩
      next => cases decoded
    · intro found
      obtain ⟨parts, none_left, each, rest⟩ := found
      obtain rfl := List.length_eq_zero_iff.mp none_left
      cases each
      have ended : c.atEnd = true := by
        rw [Cursor.atEnd, rest]
        rfl
      rw [if_pos ended]
  | succ left ih =>
    unfold decodeTransactions
    constructor
    · intro decoded
      cases ran : Transaction.read policy c with
      | error cause stop =>
        rw [ran] at decoded
        cases decoded
      | ok tx c' =>
        rw [ran] at decoded
        obtain ⟨others, further, rfl⟩ := except_map_eq_ok.mp decoded
        obtain ⟨part, whole, rest, -, inside⟩ := (read_eq_ok_iff inside).mp ran
        obtain ⟨parts, length, each, rest'⟩ := (ih inside).mp further
        refine ⟨part :: parts, by rw [List.length_cons, length], .cons whole each, ?_⟩
        rw [rest, rest', List.flatten_cons]
    · intro found
      obtain ⟨parts, length, each, rest⟩ := found
      cases each with
      | nil => cases length
      | @cons part tx parts txs whole each =>
        have ran : Transaction.read policy c =
            .ok tx ⟨c.position + part.length, parts.flatten, 0⟩ :=
          (read_eq_ok_iff inside).mpr ⟨part, whole, by rw [rest, List.flatten_cons], rfl, rfl⟩
        rw [ran]
        exact except_map_eq_ok.mpr
          ⟨txs, (ih rfl).mpr ⟨parts, Nat.succ.inj length, each, rfl⟩, rfl⟩

/-- How the transactions of a block fall short behind those that are there: the next one cannot be
read, or bytes are left over. -/
def FallsShort (policy : CodecPolicy) (index count position : Nat) (rest : Bytes) (e : Error) :
    Prop :=
  index < count ∧ (∃ cause stop, Transaction.read policy ⟨position, rest, 0⟩ = .error cause stop ∧
      e = .malformedBlock position (.undecodable index count cause)) ∨
    index = count ∧ rest ≠ [] ∧ e = .malformedBlock position (.trailingBytes rest.length count)

theorem decodeTransactions_eq_error {index left : Nat} {c : Cursor} {e : Error}
    (inside : c.beyond = 0) (failed : decodeTransactions policy index left c = .error e) :
    ∃ parts txs rest, Transaction.DecodesEach policy parts txs ∧ c.rest = parts.flatten ++ rest ∧
      FallsShort policy (index + parts.length) (index + left) (c.position + parts.flatten.length)
        rest e := by
  -- On the number of transactions to come; the position and the index move with each that is read.
  induction left generalizing index c with
  | zero =>
    unfold decodeTransactions at failed
    split at failed
    next => cases failed
    next more =>
      cases failed
      refine ⟨[], [], c.rest, .nil, rfl, .inr ⟨rfl, ?_, rfl⟩⟩
      simpa [Cursor.atEnd] using more
  | succ left ih =>
    unfold decodeTransactions at failed
    cases ran : Transaction.read policy c with
    | error cause stop =>
      rw [ran] at failed
      cases failed
      have here : c = ⟨c.position, c.rest, 0⟩ := by rw [← inside]
      rw [here] at ran
      exact ⟨[], [], c.rest, .nil, rfl, .inl ⟨by simp, cause, stop, ran, rfl⟩⟩
    | ok tx c' =>
      rw [ran] at failed
      obtain ⟨part, whole, rest, position, inside⟩ := (read_eq_ok_iff inside).mp ran
      obtain ⟨parts, txs, rest', each, found, short⟩ := ih inside (except_map_eq_error.mp failed)
      refine ⟨part :: parts, tx :: txs, rest', .cons whole each, ?_, ?_⟩
      · rw [rest, found, List.flatten_cons, List.append_assoc]
      · have place : c'.position + parts.flatten.length =
            c.position + (part :: parts).flatten.length := by
          rw [position, List.flatten_cons, List.length_append, Nat.add_assoc]
        have number : index + 1 + parts.length = index + (part :: parts).length := by
          rw [List.length_cons, Nat.add_assoc, Nat.add_comm 1]
        have total : index + 1 + left = index + (left + 1) := by omega
        rwa [place, number, total] at short

/-! ### Header and number -/

theorem decode_of_short {buffer : Bytes} (few : buffer.length < 160) :
    ∃ front field n back, Header.layout = front ++ (field, n) :: back ∧
      Layout.width front ≤ buffer.length ∧ buffer.length < Layout.width front + n ∧
      decode policy buffer = .error (.decode
        (.truncated field (Layout.width front) n (buffer.length - Layout.width front))) := by
  obtain ⟨front, field, n, back, stop, split, begins, ends, failed⟩ :=
    @Header.exists_field_of_short (.ofBuffer buffer 0) (Nat.zero_sub _) few
  refine ⟨front, field, n, back, split, begins, ends, ?_⟩
  unfold decode
  dsimp only
  rw [estate_bind_of_error failed]
  simp only [Cursor.ofBuffer, Cursor.remaining, Nat.zero_add, List.drop_zero]

/-- Behind a header the number is read. -/
theorem decode_of_header (header : Header) (rest : Bytes) :
    decode policy (header.encode ++ rest) =
      match readCount policy.strictness policy.maximumCount "block.tx_count" ⟨160, rest, 0⟩ with
      | .error cause _ => .error (.decode cause)
      | .ok count c =>
        (decodeTransactions policy 0 count c).map fun transactions => { header, transactions } := by
  have ran : Header.read (.ofBuffer (header.encode ++ rest) 0) = .ok header ⟨160, rest, 0⟩ := by
    apply (Header.read_accepts _ _ _ (Nat.zero_sub _)).mpr
    refine ⟨header.encode, rfl, rfl, ?_, rfl⟩
    rw [header.length_encode]
    rfl
  unfold decode
  dsimp only
  rw [estate_bind_of_ok ran]
  cases counted : readCount policy.strictness policy.maximumCount "block.tx_count"
      ⟨160, rest, 0⟩ with
  | error cause stop => rw [estate_bind_of_error counted]
  | ok count c =>
    rw [estate_bind_of_ok counted]
    rfl

/-- A number that the policy accepts stands there. -/
def HasCount (policy : CodecPolicy) (bytes : Bytes) : Prop :=
  ∃ count rest, policy.AcceptsCount count ∧ bytes = count.bytes ++ rest

theorem readCount_eq_ok_iff {rest : Bytes} {n : Nat} {c : Cursor} :
    readCount policy.strictness policy.maximumCount "block.tx_count" ⟨160, rest, 0⟩ = .ok n c ↔
      ∃ count, policy.AcceptsCount count ∧ rest = count.bytes ++ c.rest ∧
        c.position = 160 + count.bytes.length ∧ c.beyond = 0 ∧ count.value.toNat = n := by
  rw [readCount_accepts _ _ _ _ _ _ rfl]
  constructor
  · intro taken
    obtain ⟨_, ⟨count, form, canonical, bound, rfl, rfl⟩, found, position, inside⟩ := taken
    exact ⟨count, ⟨form, canonical, bound⟩, found, position, inside, rfl⟩
  · intro taken
    obtain ⟨count, accepted, found, position, inside, rfl⟩ := taken
    exact ⟨count.bytes, ⟨count, accepted.form, accepted.canonical, accepted.bound, rfl, rfl⟩, found,
      position, inside⟩

theorem decode_of_badCount (header : Header) {rest : Bytes} (bad : ¬ HasCount policy rest) :
    ∃ cause, cause.field = "block.tx_count" ∧
      decode policy (header.encode ++ rest) = .error (.decode cause) := by
  rw [decode_of_header]
  cases counted : readCount policy.strictness policy.maximumCount "block.tx_count"
      ⟨160, rest, 0⟩ with
  | error cause stop => exact ⟨cause, readCount_names_field counted, rfl⟩
  | ok n c =>
    obtain ⟨count, accepted, found, -⟩ := readCount_eq_ok_iff.mp counted
    exact absurd ⟨count, c.rest, accepted, found⟩ bad

theorem decode_of_count (header : Header) {count : VarInt} (accepted : policy.AcceptsCount count)
    (rest : Bytes) :
    decode policy (header.encode ++ (count.bytes ++ rest)) =
      (decodeTransactions policy 0 count.value.toNat ⟨160 + count.bytes.length, rest, 0⟩).map
        fun transactions => { header, transactions } := by
  have counted : readCount policy.strictness policy.maximumCount "block.tx_count"
      ⟨160, count.bytes ++ rest, 0⟩ =
        .ok count.value.toNat ⟨160 + count.bytes.length, rest, 0⟩ :=
    readCount_eq_ok_iff.mpr ⟨count, accepted, rfl, rfl, rfl, rfl⟩
  rw [decode_of_header, counted]

/-- A buffer of 160 bytes or more begins with a header. -/
theorem exists_header {buffer : Bytes} (enough : 160 ≤ buffer.length) :
    ∃ header : Header, buffer = header.encode ++ buffer.drop 160 := by
  have length : (buffer.take 160).length = 160 := by
    rw [List.length_take, Nat.min_eq_left enough]
  obtain ⟨header, first, -⟩ := Header.exists_unique_encode length
  exact ⟨header, by rw [first, List.take_append_drop]⟩

/-! ### Blocks -/

theorem decode_eq_ok_iff {buffer : Bytes} {block : Block} :
    decode policy buffer = .ok block ↔
      ∃ count parts, policy.AcceptsCount count ∧ count.value.toNat = parts.length ∧
        Transaction.DecodesEach policy parts block.transactions ∧
        buffer = block.header.encode ++ (count.bytes ++ parts.flatten) := by
  constructor
  · intro decoded
    by_cases few : buffer.length < 160
    · obtain ⟨_, _, _, _, -, -, -, failed⟩ := @decode_of_short policy buffer few
      rw [failed] at decoded
      cases decoded
    obtain ⟨header, whole⟩ := exists_header (Nat.not_lt.mp few)
    by_cases counts : HasCount policy (buffer.drop 160)
    · obtain ⟨count, rest, accepted, found⟩ := counts
      rw [found] at whole
      rw [whole, decode_of_count header accepted rest] at decoded
      obtain ⟨txs, others, rfl⟩ := except_map_eq_ok.mp decoded
      obtain ⟨parts, length, each, rfl⟩ := (decodeTransactions_eq_ok_iff rfl).mp others
      exact ⟨count, parts, accepted, length.symm, each, whole⟩
    · obtain ⟨cause, -, failed⟩ := decode_of_badCount header counts
      rw [whole, failed] at decoded
      cases decoded
  · intro found
    obtain ⟨count, parts, accepted, length, each, rfl⟩ := found
    rw [decode_of_count block.header accepted]
    exact except_map_eq_ok.mpr
      ⟨_, (decodeTransactions_eq_ok_iff rfl).mpr ⟨parts, length.symm, each, rfl⟩, rfl⟩

/-- The block can be written, and no list in it is longer than the maximum. -/
structure Fits (maximum : UInt64) (block : Block) : Prop where
  count : block.transactions.length ≤ maximum.toNat
  sized : ∀ tx ∈ block.transactions, tx.Sized
  tail : ∀ tx ∈ block.transactions, TailFits tx.memo tx.dataClassName tx.data tx.dataSignature
  inputs : ∀ tx ∈ block.transactions, tx.inputs.length ≤ maximum.toNat
  outputs : ∀ tx ∈ block.transactions, tx.outputs.length ≤ maximum.toNat

theorem decode_encode {block : Block} (fits : block.Fits policy.maximumCount) :
    decode policy block.encode = .ok block := by
  have bound : block.transactions.length < 2 ^ 64 :=
    Nat.lt_of_le_of_lt fits.count policy.maximumCount.toNat_lt
  have number : (UInt64.ofNat block.transactions.length).toNat = block.transactions.length :=
    UInt64.toNat_ofNat_of_lt' bound
  apply decode_eq_ok_iff.mpr
  refine ⟨.ofValue (.ofNat block.transactions.length), block.transactions.map Transaction.encode,
    ⟨VarInt.isForm_ofValue _, fun _ => VarInt.isCanonical_ofValue _, ?_⟩, ?_, ?_, ?_⟩
  · rw [UInt64.le_iff_toNat_le]
    exact number.trans_le fits.count
  · rw [List.length_map]
    exact number
  · apply List.forall₂_map_left_iff.mpr
    apply List.forall₂_same.mpr
    intro tx mem
    exact (Transaction.read_accepts policy).decodeAll_eq_ok_iff.mpr
      (Transaction.exists_form_of_encode (fits.sized tx mem) (fits.tail tx mem)
        (fits.inputs tx mem) (fits.outputs tx mem))
  · rw [VarInt.bytes_ofValue, ← List.flatMap_def]
    simp only [encode, encodeCount, List.append_assoc]

/-- A buffer with a header and a number fails in its transactions. -/
theorem decode_eq_error_of_count {buffer : Bytes} {e : Error}
    (failed : decode policy buffer = .error e) (enough : 160 ≤ buffer.length)
    (counts : HasCount policy (buffer.drop 160)) :
    ∃ count parts txs rest, policy.AcceptsCount count ∧
      buffer.drop 160 = count.bytes ++ (parts.flatten ++ rest) ∧
      Transaction.DecodesEach policy parts txs ∧
      FallsShort policy parts.length count.value.toNat
        (160 + count.bytes.length + parts.flatten.length) rest e := by
  obtain ⟨header, whole⟩ := exists_header enough
  obtain ⟨count, behind, accepted, found⟩ := counts
  rw [found] at whole
  rw [whole, decode_of_count header accepted behind] at failed
  obtain ⟨parts, txs, rest, each, same, short⟩ :=
    decodeTransactions_eq_error rfl (except_map_eq_error.mp failed)
  have split : behind = parts.flatten ++ rest := same
  rw [Nat.zero_add, Nat.zero_add] at short
  exact ⟨count, parts, txs, rest, accepted, by rw [found, split], each, short⟩

/-! ### What failures name -/

theorem header_name_ne (name : String) : "block.header." ++ name ≠ "block.tx_count" := by
  intro same
  have chars := congrArg String.toList same
  rw [String.toList_append] at chars
  simp at chars

/-- A failure is one of three kinds. -/
theorem cases_of_decode_eq_error {buffer : Bytes} {e : Error}
    (failed : decode policy buffer = .error e) :
    (buffer.length < 160 ∧ ∃ name start needed available,
        e = .decode (.truncated ("block.header." ++ name) start needed available)) ∨
      (160 ≤ buffer.length ∧ ¬ HasCount policy (buffer.drop 160) ∧
        ∃ cause, cause.field = "block.tx_count" ∧ e = .decode cause) ∨
      (160 ≤ buffer.length ∧ HasCount policy (buffer.drop 160) ∧
        ∃ offset reason, e = .malformedBlock offset reason) := by
  by_cases few : buffer.length < 160
  · obtain ⟨front, field, n, back, split, -, -, same⟩ := @decode_of_short policy buffer few
    have mem : (field, n) ∈ Header.layout := by
      rw [split]
      exact List.mem_append_right _ List.mem_cons_self
    obtain ⟨name, rfl⟩ := Header.exists_name_of_mem_layout _ mem
    rw [failed] at same
    exact .inl ⟨few, name, _, _, _, Except.error.inj same⟩
  have enough := Nat.not_lt.mp few
  by_cases counts : HasCount policy (buffer.drop 160)
  · obtain ⟨_, _, _, _, -, -, -, short⟩ := decode_eq_error_of_count failed enough counts
    refine .inr (.inr ⟨enough, counts, ?_⟩)
    rcases short with ⟨-, _, _, -, same⟩ | ⟨-, -, same⟩
    · exact ⟨_, _, same⟩
    · exact ⟨_, _, same⟩
  · obtain ⟨header, whole⟩ := exists_header enough
    obtain ⟨cause, named, same⟩ := decode_of_badCount header counts
    rw [← whole, failed] at same
    exact .inr (.inl ⟨enough, counts, cause, named, Except.error.inj same⟩)

theorem names_header_iff {buffer : Bytes} {e : Error} (failed : decode policy buffer = .error e) :
    (∃ name start needed available,
      e = .decode (.truncated ("block.header." ++ name) start needed available)) ↔
      buffer.length < 160 := by
  constructor
  · intro named
    obtain ⟨name, start, needed, available, rfl⟩ := named
    rcases cases_of_decode_eq_error failed with ⟨few, -⟩ | ⟨-, -, cause, other, same⟩ |
      ⟨-, -, _, _, impossible⟩
    · exact few
    · cases same
      exact absurd other (header_name_ne name)
    · cases impossible
  · intro few
    rcases cases_of_decode_eq_error failed with ⟨-, named⟩ | ⟨enough, -⟩ | ⟨enough, -⟩
    · exact named
    · omega
    · omega

theorem names_count_iff {buffer : Bytes} {e : Error} (failed : decode policy buffer = .error e) :
    (∃ cause, cause.field = "block.tx_count" ∧ e = .decode cause) ↔
      160 ≤ buffer.length ∧ ¬ HasCount policy (buffer.drop 160) := by
  constructor
  · intro named
    obtain ⟨cause, named, rfl⟩ := named
    rcases cases_of_decode_eq_error failed with ⟨-, name, _, _, _, same⟩ | ⟨enough, bad, -⟩ |
      ⟨-, -, _, _, impossible⟩
    · cases same
      exact absurd named (header_name_ne name)
    · exact ⟨enough, bad⟩
    · cases impossible
  · intro bad
    rcases cases_of_decode_eq_error failed with ⟨few, -⟩ | ⟨-, -, named⟩ | ⟨-, counts, -⟩
    · omega
    · exact named
    · exact absurd counts bad.2

/-- Exactly a header, an accepted number and so many transactions are a block. Every block that fits
the policy is read from its own bytes, and any 160 bytes are the one header that is written so. A
failure names a field of the header if and only if bytes are missing there, and the number if and
only if there is none that is accepted; any other is at the offset behind the transactions that are
there, where the next one is not or too many bytes are. -/
theorem decode_accepts_exactly_blocks (policy : CodecPolicy) (buffer : Bytes) :
    (∀ block : Block, decode policy buffer = .ok block ↔
      ∃ count parts, policy.AcceptsCount count ∧ count.value.toNat = parts.length ∧
        Transaction.DecodesEach policy parts block.transactions ∧
        buffer = block.header.encode ++ (count.bytes ++ parts.flatten)) ∧
    (∀ header : Header, header.encode.length = 160) ∧
    (∀ bytes : Bytes, bytes.length = 160 → ∃! header : Header, header.encode = bytes) ∧
    (∀ block : Block, block.Fits policy.maximumCount → ∀ strictness : Strictness,
      decode { policy with strictness } block.encode = .ok block) ∧
    ∀ e : Error, decode policy buffer = .error e →
      ((∃ name start needed available,
          e = .decode (.truncated ("block.header." ++ name) start needed available)) ↔
        buffer.length < 160) ∧
      (buffer.length < 160 → ∃ front field n back, Header.layout = front ++ (field, n) :: back ∧
        Layout.width front ≤ buffer.length ∧ buffer.length < Layout.width front + n ∧
        e = .decode
          (.truncated field (Layout.width front) n (buffer.length - Layout.width front))) ∧
      ((∃ cause, cause.field = "block.tx_count" ∧ e = .decode cause) ↔
        160 ≤ buffer.length ∧ ¬ HasCount policy (buffer.drop 160)) ∧
      (160 ≤ buffer.length → HasCount policy (buffer.drop 160) →
        ∃ count parts txs rest, policy.AcceptsCount count ∧
          buffer.drop 160 = count.bytes ++ (parts.flatten ++ rest) ∧
          Transaction.DecodesEach policy parts txs ∧
          let offset := 160 + count.bytes.length + parts.flatten.length
          let n := count.value.toNat
          (parts.length < n ∧ ∃ cause, Transaction.decodeAt policy buffer offset = .error cause ∧
              e = .malformedBlock offset (.undecodable parts.length n cause)) ∨
            (parts.length = n ∧ rest ≠ [] ∧
              e = .malformedBlock offset (.trailingBytes rest.length n))) := by
  refine ⟨fun _ => decode_eq_ok_iff, Header.length_encode, fun _ => Header.exists_unique_encode,
    ?_, ?_⟩
  · intro block fits strictness
    exact @decode_encode { policy with strictness } block fits
  · intro e failed
    refine ⟨names_header_iff failed, ?_, names_count_iff failed, ?_⟩
    · intro few
      obtain ⟨front, field, n, back, split, begins, ends, same⟩ :=
        @decode_of_short policy buffer few
      rw [failed] at same
      exact ⟨front, field, n, back, split, begins, ends, Except.error.inj same⟩
    · intro enough counts
      obtain ⟨count, parts, txs, rest, accepted, found, each, short⟩ :=
        decode_eq_error_of_count failed enough counts
      refine ⟨count, parts, txs, rest, accepted, found, each, ?_⟩
      rcases short with ⟨fewer, cause, stop, ran, same⟩ | ⟨all, more, same⟩
      · refine .inl ⟨fewer, cause, ?_, same⟩
        have place : Cursor.ofBuffer buffer (160 + count.bytes.length + parts.flatten.length) =
            ⟨160 + count.bytes.length + parts.flatten.length, rest, 0⟩ := by
          have length := congrArg List.length found
          simp only [List.length_drop, List.length_append] at length
          rw [Cursor.ofBuffer, ← List.drop_drop, ← List.drop_drop, found, List.drop_left,
            List.drop_left, Nat.sub_eq_zero_of_le (by omega)]
        rw [Transaction.decodeAt, ReadM.decodeAt, place, ran]
      · exact .inr ⟨all, more, same⟩

/-- A block of one transaction that spends and makes nothing. -/
def emptyBlock : Block where
  header :=
    { version := 0
      previousBlock := FixedBytes.zero 32
      previousBranchBlock := FixedBytes.zero 32
      merkleRoot := FixedBytes.zero 32
      time := 0
      difficultyTarget := 0
      lastMiningRewardBlock := 0
      nonce := 0
      minerAddress := FixedBytes.zero 20
      blockType := 0
      height := 0 }
  transactions := [⟨1, [], [], 0, none, none, none, none⟩]

theorem fits_emptyBlock : emptyBlock.Fits 1 := by
  constructor
  · decide
  · intro tx mem
    obtain rfl := List.mem_singleton.mp mem
    exact ⟨by decide, by decide, by simp, by simp⟩
  · intro tx mem
    obtain rfl := List.mem_singleton.mp mem
    constructor <;> simp [OptionalTextFits, OptionalBytesFit]
  · intro tx mem
    obtain rfl := List.mem_singleton.mp mem
    decide
  · intro tx mem
    obtain rfl := List.mem_singleton.mp mem
    decide

/-- The block is read back, and three broken buffers fail in their header, their number and their
transactions. -/
theorem decode_accepts_exactly_blocks_emptyBlock :
    let policy : CodecPolicy := ⟨.strict, 1⟩
    let zeros : Bytes := List.replicate 160 0
    decode policy emptyBlock.encode = .ok emptyBlock ∧
      (∃! header : Header, header.encode = zeros) ∧
      decode policy (zeros.take 100) = .error (.decode (.truncated "block.header.time" 100 8 0)) ∧
      (∃ front back, Header.layout = front ++ ("block.header.time", 8) :: back) ∧
      decode policy (zeros ++ [2]) =
        .error (.decode (.malformed "block.tx_count" 160 (.countAboveMaximum 2 1))) ∧
      ¬ HasCount policy [2] ∧
      ∃ cause, Transaction.decodeAt policy (zeros ++ [1, 7]) 161 = .error cause ∧
        decode policy (zeros ++ [1, 7]) =
          .error (.malformedBlock 161 (.undecodable 0 1 cause)) := by
  intro policy zeros
  have first : emptyBlock.header.encode = zeros := by cbv
  have short : decode policy (zeros.take 100) =
      .error (.decode (.truncated "block.header.time" 100 8 0)) := by cbv
  have excessive : decode policy (zeros ++ [2]) =
      .error (.decode (.malformed "block.tx_count" 160 (.countAboveMaximum 2 1))) := by
    rw [← first, decode_of_header]
    cbv
  have broken : decode policy (zeros ++ [1, 7]) = .error (.malformedBlock 161
      (.undecodable 0 1 (.truncated "tx.version" 161 4 1))) := by
    rw [← first, decode_of_header]
    cbv
  have counts : HasCount policy ((zeros ++ [1, 7]).drop 160) :=
    ⟨⟨1, 1⟩, [7], ⟨.inl ⟨rfl, by decide⟩, fun _ => by decide, by decide⟩, rfl⟩
  obtain ⟨-, -, headers, blocks, onShort⟩ := decode_accepts_exactly_blocks policy (zeros.take 100)
  obtain ⟨-, -, -, -, onExcessive⟩ := decode_accepts_exactly_blocks policy (zeros ++ [2])
  obtain ⟨-, -, -, -, onBroken⟩ := decode_accepts_exactly_blocks policy (zeros ++ [1, 7])
  obtain ⟨-, named, -⟩ := onShort _ short
  obtain ⟨-, -, count, -⟩ := onExcessive _ excessive
  obtain ⟨-, -, -, transactions⟩ := onBroken _ broken
  obtain ⟨front, _, _, back, split, -, -, same⟩ := named (by simp [zeros])
  obtain ⟨rfl, -, rfl, -⟩ := DecodeError.truncated.inj (Error.decode.inj same)
  refine ⟨blocks _ fits_emptyBlock .strict, headers _ rfl, short, ⟨front, back, split⟩, excessive,
    (count.mp ⟨_, rfl, rfl⟩).2, ?_⟩
  have enough : 160 ≤ (zeros ++ [1, 7]).length := by
    rw [← first, List.length_append, Header.length_encode]
    exact Nat.le_add_right _ _
  obtain ⟨_, _, _, _, -, -, -, ends⟩ := transactions enough counts
  rcases ends with ⟨-, cause, undecodable, same⟩ | ⟨-, -, same⟩
  · obtain ⟨place, reason⟩ := Error.malformedBlock.inj same
    obtain ⟨-, -, rfl⟩ := BlockFault.undecodable.inj reason
    rw [← place] at undecodable
    exact ⟨_, undecodable, broken⟩
  · obtain ⟨-, impossible⟩ := Error.malformedBlock.inj same
    cases impossible

end Block

end TokenLedger
