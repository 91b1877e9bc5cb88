import TokenLedger.Proofs.Wire.Cuts

/-!
# Readers stay in their buffers

Whether it succeeds or fails, a reader moves on by some of the bytes that remain and by no more.
Where it finds too few bytes it has not moved since it began the field that they are for, and says
how many are left there. Sequences keep both, so every reader has them that is put together from
others.
-/

namespace TokenLedger

namespace Cursor

@[simp] theorem advance_advance (c : Cursor) (n m : Nat) :
    (c.advance n).advance m = c.advance (n + m) := by
  simp only [advance, List.drop_drop, Nat.add_assoc]

@[simp] theorem remaining_advance (c : Cursor) (n : Nat) :
    (c.advance n).remaining = c.remaining - n := by
  simp only [remaining, advance, List.length_drop]

variable {buffer : Bytes} {offset n : Nat}

theorem remaining_ofBuffer : (ofBuffer buffer offset).remaining = buffer.length - offset :=
  List.length_drop

theorem advance_ofBuffer (few : n ≤ (ofBuffer buffer offset).remaining) :
    (ofBuffer buffer offset).advance n = ofBuffer buffer (offset + n) := by
  rw [remaining_ofBuffer] at few
  have beyond : offset - buffer.length = offset + n - buffer.length := by omega
  rw [advance, ofBuffer, ofBuffer, List.drop_drop, beyond]

theorem rest_ofBuffer_of_lt (outside : buffer.length < offset) :
    (ofBuffer buffer offset).rest = [] := List.drop_eq_nil_of_le (Nat.le_of_lt outside)

theorem beyond_ofBuffer_ne_zero_iff :
    (ofBuffer buffer offset).beyond ≠ 0 ↔ buffer.length < offset := by
  show offset - buffer.length ≠ 0 ↔ _
  omega

end Cursor

/-- What a failure says about the place where the reader stopped. -/
def DecodeError.DescribesStop (stop : Cursor) : DecodeError → Prop
  | malformed .. => True
  | truncated _ offset needed available =>
    offset = stop.position ∧ available = stop.remaining ∧ available < needed
  | outOfRange offset length =>
    stop.beyond ≠ 0 ∧ offset = stop.position ∧ length = stop.position - stop.beyond

namespace ReadM

variable {α β : Type} {read : ReadM α}

/-- The reader moves within its buffer only, and its failures describe the place where it stops. -/
structure Bounded (read : ReadM α) : Prop where
  ok : ∀ c value after, read c = .ok value after → ∃ n ≤ c.remaining, after = c.advance n
  error : ∀ c e stop, read c = .error e stop →
    (∃ n ≤ c.remaining, stop = c.advance n) ∧ e.DescribesStop stop

namespace Bounded

theorem pure (value : α) : Bounded (Pure.pure value) where
  ok c _ after ran := by
    obtain ⟨-, rfl⟩ := estate_pure_eq_ok.mp ran
    exact ⟨0, Nat.zero_le _, rfl⟩
  error c e stop failed := by cases failed

/-- A reader may judge what it has read. -/
theorem throw_malformed (field : String) (offset : Nat) (reason : Malformation) :
    Bounded (throw (.malformed field offset reason) : ReadM α) where
  ok c value after ran := by cases ran
  error c e stop failed := by
    cases failed
    exact ⟨⟨0, Nat.zero_le _, rfl⟩, trivial⟩

theorem bind {next : α → ReadM β} (head : read.Bounded) (tail : ∀ value, (next value).Bounded) :
    (read >>= next).Bounded := by
  have further {c : Cursor} {n m : Nat} (first : n ≤ c.remaining)
      (second : m ≤ (c.advance n).remaining) : n + m ≤ c.remaining := by
    rw [Cursor.remaining_advance] at second
    omega
  constructor
  · intro c result after ran
    obtain ⟨value, between, ran, ran'⟩ := estate_bind_eq_ok.mp ran
    obtain ⟨n, first, rfl⟩ := head.ok c value between ran
    obtain ⟨m, second, rfl⟩ := (tail value).ok _ result after ran'
    exact ⟨n + m, further first second, Cursor.advance_advance c n m⟩
  · intro c e stop failed
    cases ran : read c with
    | error cause between =>
      rw [estate_bind_of_error ran] at failed
      cases failed
      exact head.error c e stop ran
    | ok value between =>
      rw [estate_bind_of_ok ran] at failed
      obtain ⟨n, first, rfl⟩ := head.ok c value between ran
      obtain ⟨⟨m, second, rfl⟩, described⟩ := (tail value).error _ e stop failed
      exact ⟨⟨n + m, further first second, Cursor.advance_advance c n m⟩, described⟩

theorem bind_get {body : Cursor → ReadM α} (bounded : ∀ c, (body c).Bounded) :
    (get >>= body).Bounded where
  ok c := (bounded c).ok c
  error c := (bounded c).error c

theorem ite {condition : Prop} [Decidable condition] {read' : ReadM α} (yes : read.Bounded)
    (no : read'.Bounded) : (if condition then read else read').Bounded := by
  split
  · exact yes
  · exact no

theorem remaining_le (bounded : read.Bounded) {c after : Cursor} {value : α}
    (ran : read c = .ok value after) : after.remaining ≤ c.remaining := by
  obtain ⟨n, -, rfl⟩ := bounded.ok c value after ran
  rw [Cursor.remaining_advance]
  exact Nat.sub_le _ _

end Bounded

end ReadM

theorem readFixed_bounded (field : String) (n : Nat) : (readFixed field n).Bounded := by
  constructor
  · intro c value after ran
    unfold readFixed at ran
    split at ran
    next enough =>
      split at ran
      next =>
        cases ran
        exact ⟨n, enough, rfl⟩
      next => cases ran
    next => cases ran
  · intro c e stop failed
    unfold readFixed at failed
    split at failed
    next enough =>
      split at failed
      next => cases failed
      next beyond =>
        cases failed
        exact ⟨⟨0, Nat.zero_le _, rfl⟩, beyond, rfl, rfl⟩
    next few =>
      cases failed
      exact ⟨⟨0, Nat.zero_le _, rfl⟩, rfl, rfl, Nat.not_le.mp few⟩

theorem readBytes_bounded (field : String) (n : Nat) : (readBytes field n).Bounded :=
  (readFixed_bounded field n).bind fun _ => .pure _

theorem readNumber_bounded {α : Type} {width : Nat} {ofBytes : Bytes → α} (field : String) :
    (readNumber width ofBytes field).Bounded :=
  (readBytes_bounded field width).bind fun _ => .pure _

/-- The decoder of compact integers looks for its bytes by itself. -/
theorem VarInt.describesStop_of_decode {field : String} {strictness : Strictness} {c : Cursor}
    {e : DecodeError} (failed : decode field c.position strictness c.rest = .error e) :
    e.DescribesStop c := by
  unfold decode at failed
  split at failed
  next empty =>
    cases failed
    exact ⟨rfl, by rw [Cursor.remaining, empty, List.length_nil], Nat.one_pos⟩
  next marker payload found =>
    dsimp only at failed
    split at failed
    next => cases failed
    next =>
      split at failed
      next few =>
        cases failed
        have remaining : c.remaining = 1 + payload.length := by
          rw [Cursor.remaining, found, List.length_cons, Nat.add_comm]
        exact ⟨rfl, remaining.symm, Nat.add_lt_add_left few 1⟩
      next =>
        split at failed
        next =>
          cases failed
          trivial
        next => cases failed

theorem readVarInt_bounded (strictness : Strictness) (field : String) :
    (readVarInt strictness field).Bounded := by
  constructor
  · intro c value after ran
    unfold readVarInt at ran
    split at ran
    next v decoded =>
      obtain ⟨form, -, rest, found⟩ := VarInt.form_of_decode decoded
      cases ran
      refine ⟨v.width, ?_, rfl⟩
      rw [Cursor.remaining, found, List.length_append, VarInt.length_bytes form]
      exact Nat.le_add_right _ _
    next => cases ran
  · intro c e stop failed
    unfold readVarInt at failed
    split at failed
    next => cases failed
    next refused =>
      cases failed
      exact ⟨⟨0, Nat.zero_le _, rfl⟩, VarInt.describesStop_of_decode refused⟩

/-! ### Strings and lists -/

theorem readVarBytes_bounded (strictness : Strictness) (field : String) :
    (readVarBytes strictness field).Bounded :=
  (readVarInt_bounded strictness field).bind fun _ => readBytes_bounded field _

theorem readOptionalBytes_bounded (field : String) : (readOptionalBytes field).Bounded := by
  refine .bind_get fun start => (readNumber_bounded field).bind fun flag => ?_
  split
  next => exact .pure none
  next =>
    exact (readNumber_bounded field).bind fun _ =>
      (readBytes_bounded field _).bind fun _ => .pure _
  next => exact .throw_malformed _ _ _

theorem readOptionalText_bounded (field : String) : (readOptionalText field).Bounded := by
  refine .bind_get fun start => (readOptionalBytes_bounded field).bind fun bytes => ?_
  split
  next => exact .pure none
  next =>
    split
    next => exact .pure _
    next => exact .throw_malformed _ _ _

theorem readCount_bounded (strictness : Strictness) (maximum : UInt64) (field : String) :
    (readCount strictness maximum field).Bounded :=
  .bind_get fun _ => (readVarInt_bounded strictness field).bind fun _ =>
    .ite ((ReadM.Bounded.throw_malformed _ _ _).bind fun _ => .pure _) (.pure _)

theorem readMany_bounded {α : Type} {read : ReadM α} (bounded : read.Bounded) (n : Nat) :
    (readMany read n).Bounded := by
  induction n with
  | zero => exact .pure []
  | succ n ih => exact bounded.bind fun _ => ih.bind fun _ => .pure _

end TokenLedger
