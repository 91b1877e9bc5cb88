import TokenLedger.Proofs.Wire.Bounds

/-!
# What reading costs

Whatever is read is paid for in bytes: for each of its values a reader takes at least so many of
them. Prices add up along a sequence, so a list costs what its elements cost together, and of a list
whose number was declared no more elements are ever read than the bytes that remain can pay for.
-/

namespace TokenLedger

namespace ReadM

variable {α β : Type} {read : ReadM α} {price price' : α → Nat}

/-- For each value the reader takes at least so many bytes. -/
def Costs (read : ReadM α) (price : α → Nat) : Prop :=
  ∀ c value after, read c = .ok value after → price value + after.remaining ≤ c.remaining

/-- Readers that stay in their buffers may be free. -/
theorem Bounded.costs (bounded : read.Bounded) (free : ∀ value, price value = 0) :
    read.Costs price := by
  intro c value after ran
  rw [free, Nat.zero_add]
  exact bounded.remaining_le ran

namespace Costs

theorem pure {value : α} (free : price value = 0) : Costs (Pure.pure value) price := by
  intro c _ _ ran
  obtain ⟨rfl, rfl⟩ := estate_pure_eq_ok.mp ran
  rw [free, Nat.zero_add]

theorem throw (price : α → Nat) (failure : DecodeError) :
    Costs (throw failure : ReadM α) price := by
  intro c value after ran
  cases ran

theorem mono (costs : read.Costs price) (cheaper : ∀ value, price' value ≤ price value) :
    read.Costs price' := fun c value after ran =>
  Nat.le_trans (Nat.add_le_add_right (cheaper value) _) (costs c value after ran)

/-- What the first part takes need not be taken by the second. -/
theorem bind {next : α → ReadM β} {total : β → Nat} (head : read.Costs price)
    (tail : ∀ value, (next value).Costs fun result => total result - price value) :
    (read >>= next).Costs total := by
  intro c result after ran
  obtain ⟨value, between, ran, ran'⟩ := estate_bind_eq_ok.mp ran
  have first := head c value between ran
  have second := tail value between result after ran'
  dsimp only at second
  omega

theorem bind_get {body : Cursor → ReadM α} (costs : ∀ c, (body c).Costs price) :
    (get >>= body).Costs price := fun c => costs c c

theorem ite {condition : Prop} [Decidable condition] {read' : ReadM α} (yes : read.Costs price)
    (no : read'.Costs price) : (if condition then read else read').Costs price := by
  split
  · exact yes
  · exact no

end Costs

/-! ### Lists -/

/-- The number of elements that are read one after the other before the list ends or one of them
fails. -/
def iterations (read : ReadM α) : Nat → Cursor → Nat
  | 0, _ => 0
  | n + 1, c =>
    match read c with
    | .ok _ after => iterations read n after + 1
    | .error _ _ => 0

theorem iterations_succ_of_ok {c after : Cursor} {value : α} (ran : read c = .ok value after)
    (n : Nat) : read.iterations (n + 1) c = read.iterations n after + 1 := by
  rw [iterations, ran]

theorem iterations_succ_of_error {c stop : Cursor} {e : DecodeError}
    (failed : read c = .error e stop) (n : Nat) : read.iterations (n + 1) c = 0 := by
  rw [iterations, failed]

theorem iterations_le (read : ReadM α) (n : Nat) (c : Cursor) : read.iterations n c ≤ n := by
  induction n generalizing c with
  | zero => exact Nat.le_refl 0
  | succ n ih =>
    cases ran : read c with
    | ok value after =>
      rw [iterations_succ_of_ok ran]
      exact Nat.succ_le_succ (ih after)
    | error e stop =>
      rw [iterations_succ_of_error ran]
      exact Nat.zero_le _

/-- Whatever number was declared, the elements that are read are paid for. -/
theorem Costs.iterations_mul_le {least : Nat} (costs : read.Costs fun _ => least) (n : Nat)
    (c : Cursor) : read.iterations n c * least ≤ c.remaining := by
  induction n generalizing c with
  | zero =>
    rw [iterations, Nat.zero_mul]
    exact Nat.zero_le _
  | succ n ih =>
    cases ran : read c with
    | ok value after =>
      have element : least + after.remaining ≤ c.remaining := costs c value after ran
      have others := ih after
      rw [iterations_succ_of_ok ran, Nat.succ_mul]
      omega
    | error e stop =>
      rw [iterations_succ_of_error ran, Nat.zero_mul]
      exact Nat.zero_le _

/-- Behind elements that were read, the list goes on. -/
theorem iterations_add_of_readMany {n : Nat} {c between : Cursor} {values : List α}
    (ran : readMany read n c = .ok values between) (m : Nat) :
    read.iterations (n + m) c = n + read.iterations m between := by
  induction n generalizing c values with
  | zero =>
    obtain ⟨-, rfl⟩ := estate_pure_eq_ok.mp ran
    rw [Nat.zero_add, Nat.zero_add]
  | succ n ih =>
    obtain ⟨first, after, head, tail⟩ := estate_bind_eq_ok.mp ran
    obtain ⟨rest, stop, others, last⟩ := estate_bind_eq_ok.mp tail
    obtain ⟨-, rfl⟩ := estate_pure_eq_ok.mp last
    rw [Nat.succ_add, iterations_succ_of_ok head, ih others, Nat.succ_add]

/-- A list that was read has its number of elements, and has read them all. -/
theorem iterations_of_readMany_eq_ok {n : Nat} {c after : Cursor} {values : List α}
    (ran : readMany read n c = .ok values after) :
    values.length = n ∧ read.iterations n c = n := by
  refine ⟨?_, iterations_add_of_readMany ran 0⟩
  induction n generalizing c values with
  | zero =>
    obtain ⟨rfl, -⟩ := estate_pure_eq_ok.mp ran
    rfl
  | succ n ih =>
    obtain ⟨first, between, head, tail⟩ := estate_bind_eq_ok.mp ran
    obtain ⟨rest, stop, others, last⟩ := estate_bind_eq_ok.mp tail
    obtain ⟨rfl, rfl⟩ := estate_pure_eq_ok.mp last
    rw [List.length_cons, ih others]

/-- A list that is not read as a whole fails with the element behind those that were read. -/
theorem exists_of_readMany_eq_error {n : Nat} {c stop : Cursor} {e : DecodeError}
    (failed : readMany read n c = .error e stop) :
    ∃ values before, readMany read values.length c = .ok values before ∧
      values.length = read.iterations n c ∧ values.length < n ∧ read before = .error e stop := by
  induction n generalizing c with
  | zero => exact absurd failed estate_pure_ne_error
  | succ n ih =>
    rcases estate_bind_eq_error.mp failed with first | ⟨value, between, head, tail⟩
    · exact ⟨[], c, rfl, (iterations_succ_of_error first n).symm, Nat.succ_pos n, first⟩
    · rcases estate_bind_eq_error.mp tail with others | ⟨_, _, -, impossible⟩
      · obtain ⟨values, before, ran, length, more, last⟩ := ih others
        refine ⟨value :: values, before, ?_, ?_, Nat.succ_lt_succ more, last⟩
        · exact estate_bind_eq_ok.mpr ⟨value, between, head,
            estate_bind_eq_ok.mpr ⟨values, before, ran, rfl⟩⟩
        · rw [List.length_cons, length, iterations_succ_of_ok head]
      · exact absurd impossible estate_pure_ne_error

end ReadM

/-! ### Fixed widths -/

theorem readFixed_costs (field : String) (n : Nat) : (readFixed field n).Costs fun _ => n := by
  intro c value after ran
  unfold readFixed at ran
  split at ran
  next enough =>
    split at ran
    next =>
      cases ran
      rw [Cursor.remaining_advance]
      exact Nat.le_of_eq (Nat.add_sub_of_le enough)
    next => cases ran
  next => cases ran

theorem readBytes_costs (field : String) (n : Nat) : (readBytes field n).Costs fun _ => n :=
  (readFixed_costs field n).bind fun _ => .pure (Nat.sub_self n)

theorem readNumber_costs {α : Type} {width : Nat} {ofBytes : Bytes → α} (field : String) :
    (readNumber width ofBytes field).Costs fun _ => width :=
  (readBytes_costs field width).bind fun _ => .pure (Nat.sub_self width)

/-! ### Compact integers and what follows them -/

/-- The least width of a compact integer is one byte. -/
theorem readVarInt_costs (strictness : Strictness) (field : String) :
    (readVarInt strictness field).Costs fun _ => 1 := by
  intro c value after ran
  unfold readVarInt at ran
  split at ran
  next v decoded =>
    obtain ⟨form, -, rest, found⟩ := VarInt.form_of_decode decoded
    cases ran
    have width : 1 ≤ v.width := by
      rcases form with ⟨one, -⟩ | ⟨wide, -⟩ <;> omega
    have enough : v.width ≤ c.remaining := by
      rw [Cursor.remaining, found, List.length_append, VarInt.length_bytes form]
      exact Nat.le_add_right _ _
    show 1 + (c.advance v.width).remaining ≤ c.remaining
    rw [Cursor.remaining_advance]
    omega
  next => cases ran

theorem readVarBytes_costs (strictness : Strictness) (field : String) :
    (readVarBytes strictness field).Costs fun _ => 1 :=
  (readVarInt_costs strictness field).bind fun _ => (readBytes_bounded field _).costs fun _ => rfl

theorem readCount_costs (strictness : Strictness) (maximum : UInt64) (field : String) :
    (readCount strictness maximum field).Costs fun _ => 1 :=
  .bind_get fun _ => (readVarInt_costs strictness field).bind fun _ =>
    .ite ((ReadM.Costs.throw (fun _ => 0) _).bind fun _ => .pure rfl) (.pure rfl)

theorem readMany_costs {α : Type} {read : ReadM α} {least : Nat}
    (costs : read.Costs fun _ => least) (n : Nat) :
    (readMany read n).Costs fun values => values.length * least := by
  induction n with
  | zero => exact .pure (Nat.zero_mul _)
  | succ n ih =>
    refine costs.bind fun first => ih.bind fun rest => .pure ?_
    rw [List.length_cons, Nat.succ_mul, Nat.add_sub_cancel, Nat.sub_self]

/-! ### Optional fields -/

/-- The flag alone is one byte. -/
theorem readOptionalBytes_costs (field : String) :
    (readOptionalBytes field).Costs fun _ => 1 := by
  refine .bind_get fun start => (readNumber_costs field).bind fun flag => ?_
  split
  next => exact .pure rfl
  next =>
    have behind : ReadM.Bounded (do
        return some (← readBytes field (← readUInt32 field).toNat)) :=
      (readNumber_bounded field).bind fun _ => (readBytes_bounded field _).bind fun _ => .pure _
    exact behind.costs fun _ => rfl
  next => exact .throw _ _

theorem readOptionalText_costs (field : String) : (readOptionalText field).Costs fun _ => 1 := by
  refine .bind_get fun start => (readOptionalBytes_costs field).bind fun bytes => ?_
  split
  next => exact .pure rfl
  next =>
    split
    next => exact .pure rfl
    next => exact .throw _ _

end TokenLedger
