import TokenLedger.Proofs.Wire.Counted
import TokenLedger.Proofs.Wire.Optional

/-!
# Bytes that are cut short

A reader that takes some bytes takes them whatever stands behind. Of any part of them that ends
earlier it reports that bytes are missing, and never anything else: each field is only judged once
all of its bytes are there.
-/

namespace TokenLedger

/-- Where the buffer of a cursor ends. -/
def Cursor.finish (c : Cursor) : Nat := c.position + c.remaining

namespace ReadM

variable {α β : Type} {read : ReadM α}

/-- The reader finds that its buffer ends before a field does that begins there or further on. -/
def RunsShort (read : ReadM α) (c : Cursor) : Prop :=
  ∃ field start needed stop,
    read c = .error (.truncated field start needed (c.finish - start)) stop ∧
    c.position ≤ start ∧ start ≤ c.finish ∧ c.finish - start < needed

/-- At this position the bytes are what the reader takes, neither more nor less. -/
structure Takes (read : ReadM α) (position : Nat) (bytes : Bytes) (value : α) : Prop where
  before : ∀ rest, read ⟨position, bytes ++ rest, 0⟩ =
    .ok value ⟨position + bytes.length, rest, 0⟩
  short : ∀ front missing, front ++ missing = bytes → missing ≠ [] →
    read.RunsShort ⟨position, front, 0⟩

/-- What the reader takes is told from its own bytes. -/
def Delimited (read : ReadM α) : Prop :=
  ∀ c value c', c.beyond = 0 → read c = .ok value c' →
    ∃ bytes, c.rest = bytes ++ c'.rest ∧ c'.position = c.position + bytes.length ∧
      c'.beyond = 0 ∧ read.Takes c.position bytes value

theorem RunsShort.bind {next : α → ReadM β} {c : Cursor} (short : read.RunsShort c) :
    (read >>= next).RunsShort c := by
  obtain ⟨field, start, needed, stop, ran, bounds⟩ := short
  exact ⟨field, start, needed, stop, estate_bind_of_error ran, bounds⟩

/-- A reader runs short if what follows its first part does. -/
theorem RunsShort.of_next {next : α → ReadM β} {position : Nat} {taken rest : Bytes} {value : α}
    (ran : read ⟨position, taken ++ rest, 0⟩ = .ok value ⟨position + taken.length, rest, 0⟩)
    (short : (next value).RunsShort ⟨position + taken.length, rest, 0⟩) :
    (read >>= next).RunsShort ⟨position, taken ++ rest, 0⟩ := by
  obtain ⟨field, start, needed, stop, failed, bounds⟩ := short
  have finish : Cursor.finish ⟨position + taken.length, rest, 0⟩ =
      Cursor.finish ⟨position, taken ++ rest, 0⟩ := by
    simp only [Cursor.finish, Cursor.remaining, List.length_append, Nat.add_assoc]
  rw [finish] at failed bounds
  refine ⟨field, start, needed, stop, ?_, Nat.le_trans (Nat.le_add_right _ _) bounds.1, bounds.2⟩
  rw [estate_bind_of_ok ran]
  exact failed

namespace Delimited

theorem pure (value : α) : Delimited (Pure.pure value) := by
  intro c _ c' inside ran
  obtain ⟨rfl, rfl⟩ := estate_pure_eq_ok.mp ran
  refine ⟨[], rfl, rfl, inside, fun rest => rfl, ?_⟩
  intro front missing whole some
  exact absurd (List.append_eq_nil_iff.mp whole).2 some

theorem throw (failure : DecodeError) : Delimited (throw failure : ReadM α) := by
  intro c value c' _ ran
  cases ran

/-- A cut falls into the bytes of the first part, or behind them into those of the second. -/
theorem bind {next : α → ReadM β} (head : read.Delimited)
    (tail : ∀ value, (next value).Delimited) : (read >>= next).Delimited := by
  intro c result c' inside ran
  obtain ⟨value, between, ran, ran'⟩ := estate_bind_eq_ok.mp ran
  obtain ⟨first, rest, position, inside, takes⟩ := head c value between inside ran
  obtain ⟨second, rest', position', inside', takes'⟩ := tail value between result c' inside ran'
  rw [position] at takes'
  refine ⟨first ++ second, ?_, ?_, inside', ?_, ?_⟩
  · rw [rest, rest', List.append_assoc]
  · rw [position', position, List.length_append, Nat.add_assoc]
  · intro others
    rw [List.append_assoc, estate_bind_of_ok (takes.before (second ++ others)), takes'.before,
      List.length_append, Nat.add_assoc]
  · intro front missing whole some
    have behind (back : Bytes) (inSecond : back ++ missing = second) :
        (read >>= next).RunsShort ⟨c.position, first ++ back, 0⟩ :=
      .of_next (takes.before back) (takes'.short back missing inSecond some)
    rcases List.append_eq_append_iff.mp whole with ⟨left, inFirst, rfl⟩ | ⟨back, rfl, inSecond⟩
    · by_cases none_left : left = []
      -- A cut between the parts leaves the second one nothing to read.
      · subst none_left
        have here := behind [] rfl
        rwa [List.append_nil, inFirst, List.append_nil] at here
      · exact (takes.short front left inFirst.symm none_left).bind
    · exact behind back inSecond.symm

/-- A position that is only reported in errors has no part in what is taken. -/
theorem bind_get {body : Cursor → ReadM α}
    (positional : ∀ c d, c.position = d.position → body c = body d)
    (delimited : ∀ c, (body c).Delimited) : (get >>= body).Delimited := by
  intro c value c' inside ran
  obtain ⟨bytes, rest, position, inside', takes⟩ := delimited c c value c' inside ran
  have same (stream : Bytes) :
      (get >>= body) ⟨c.position, stream, 0⟩ = body c ⟨c.position, stream, 0⟩ :=
    congrFun (positional ⟨c.position, stream, 0⟩ c rfl) _
  refine ⟨bytes, rest, position, inside', fun rest => (same _).trans (takes.before rest), ?_⟩
  intro front missing whole some
  obtain ⟨field, start, needed, stop, failed, bounds⟩ := takes.short front missing whole some
  exact ⟨field, start, needed, stop, (same front).trans failed, bounds⟩

theorem ite {condition : Prop} [Decidable condition] {read' : ReadM α} (yes : read.Delimited)
    (no : read'.Delimited) : (if condition then read else read').Delimited := by
  split
  · exact yes
  · exact no

end Delimited

end ReadM

/-! ### Fixed widths -/

theorem readFixed_delimited (field : String) (n : Nat) : (readFixed field n).Delimited := by
  intro c value c' inside ran
  obtain ⟨_, rfl, rest, position, inside'⟩ := (readFixed_accepts field n _ _ _ inside).mp ran
  refine ⟨value.val, rest, position, inside', ?_, ?_⟩
  · intro rest
    exact (readFixed_accepts field n _ _ _ rfl).mpr ⟨_, rfl, rfl, rfl, rfl⟩
  · intro front missing whole some
    have width : front.length + missing.length = n := by
      rw [← List.length_append, whole, value.property]
    have more := List.length_pos_iff.mpr some
    have few : ¬ n ≤ front.length := by omega
    refine ⟨field, c.position, n, ⟨c.position, front, 0⟩, ?_, Nat.le_refl _,
      Nat.le_add_right _ _, ?_⟩
    · simp only [readFixed, few, dif_neg, not_false_eq_true, Cursor.finish,
        Nat.add_sub_cancel_left]
    · simp only [Cursor.finish, Cursor.remaining, Nat.add_sub_cancel_left]
      omega

theorem readBytes_delimited (field : String) (n : Nat) : (readBytes field n).Delimited :=
  (readFixed_delimited field n).bind fun _ => .pure _

theorem readNumber_delimited {α : Type} {width : Nat} {ofBytes : Bytes → α} (field : String) :
    (readNumber width ofBytes field).Delimited :=
  (readBytes_delimited field width).bind fun _ => .pure _

/-! ### Compact integers and what follows them -/

/-- The first byte of a wide form announces how many are to follow. -/
theorem VarInt.decode_of_cut (field : String) (offset : Nat) (strictness : Strictness) {v : VarInt}
    (form : v.IsForm) {front missing : Bytes} (whole : front ++ missing = v.bytes)
    (some : missing ≠ []) :
    ∃ needed, decode field offset strictness front =
        .error (.truncated field offset needed front.length) ∧ front.length < needed := by
  have more := List.length_pos_iff.mpr some
  cases front with
  | nil => exact ⟨1, rfl, Nat.zero_lt_one⟩
  | cons b payload =>
    have length := length_bytes form
    rw [← whole] at length
    simp only [List.cons_append, List.length_cons, List.length_append] at length
    rcases form with ⟨one, -⟩ | ⟨wide, -⟩
    · omega
    · have marks : b = marker v.width := by
        rw [bytes, if_neg (by omega)] at whole
        exact (List.cons.inj whole).1
      have follow : announced b = v.width - 1 := by rw [marks, announced_marker wide]
      refine ⟨1 + announced b, ?_, by rw [List.length_cons]; omega⟩
      simp only [decode]
      rw [if_neg (by omega), if_pos (by omega), List.length_cons, Nat.add_comm 1 payload.length]

theorem readVarInt_delimited (strictness : Strictness) (field : String) :
    (readVarInt strictness field).Delimited := by
  intro c value c' inside ran
  obtain ⟨_, ⟨v, form, canonical, rfl, rfl⟩, rest, position, inside'⟩ :=
    (readVarInt_accepts strictness field _ _ _ inside).mp ran
  refine ⟨v.bytes, rest, position, inside', ?_, ?_⟩
  · intro rest
    exact (readVarInt_accepts strictness field _ _ _ rfl).mpr
      ⟨_, ⟨v, form, canonical, rfl, rfl⟩, rfl, rfl, rfl⟩
  · intro front missing whole some
    obtain ⟨needed, failed, few⟩ :=
      VarInt.decode_of_cut field c.position strictness form whole some
    refine ⟨field, c.position, needed, ⟨c.position, front, 0⟩, ?_, Nat.le_refl _,
      Nat.le_add_right _ _, ?_⟩
    · simp only [readVarInt, failed, Cursor.finish, Cursor.remaining, Nat.add_sub_cancel_left]
    · simpa only [Cursor.finish, Cursor.remaining, Nat.add_sub_cancel_left] using few

theorem readVarBytes_delimited (strictness : Strictness) (field : String) :
    (readVarBytes strictness field).Delimited :=
  (readVarInt_delimited strictness field).bind fun _ => readBytes_delimited field _

theorem readCount_delimited (strictness : Strictness) (maximum : UInt64) (field : String) :
    (readCount strictness maximum field).Delimited := by
  apply ReadM.Delimited.bind_get
  · intro c d same
    simp only [same]
  · intro start
    apply (readVarInt_delimited strictness field).bind
    intro count
    exact .ite ((ReadM.Delimited.throw _).bind fun _ => .pure _) (.pure _)

theorem readMany_delimited {α : Type} {read : ReadM α} (delimited : read.Delimited) (n : Nat) :
    (readMany read n).Delimited := by
  induction n with
  | zero => exact .pure []
  | succ n ih => exact delimited.bind fun _ => ih.bind fun _ => .pure _

/-! ### Optional fields -/

theorem readOptionalBytes_delimited (field : String) : (readOptionalBytes field).Delimited := by
  apply ReadM.Delimited.bind_get
  · intro c d same
    simp only [same]
  · intro start
    apply (readNumber_delimited field).bind
    intro flag
    split
    next => exact .pure none
    next =>
      apply (readNumber_delimited field).bind
      intro length
      exact (readBytes_delimited field length.toNat).bind fun _ => .pure _
    next => exact .throw _

/-- A text is only judged once all of its bytes are there. -/
theorem readOptionalText_delimited (field : String) : (readOptionalText field).Delimited := by
  apply ReadM.Delimited.bind_get
  · intro c d same
    simp only [same]
  · intro start
    apply (readOptionalBytes_delimited field).bind
    intro bytes
    split
    next => exact .pure none
    next =>
      split
      next => exact .pure _
      next => exact .throw _

/-! ### Decoders -/

/-- The decoder finds the same value in the same bytes wherever they stand. Cut short behind any of
them, it reports that bytes are missing; and so nothing that begins like them and ends earlier is
decoded. -/
structure IsLocal {α : Type} (decode : Bytes → Nat → Except DecodeError (α × Nat)) (buffer : Bytes)
    (offset : Nat) (value : α) (taken : Nat) : Prop where
  anywhere : ∀ before after : Bytes,
    decode (before ++ (buffer.drop offset).take taken ++ after) before.length = .ok (value, taken)
  truncated : ∀ k < taken, ∃ field start needed,
    decode (buffer.take (offset + k)) offset =
      .error (.truncated field start needed (offset + k - start)) ∧
    offset ≤ start ∧ start ≤ offset + k ∧ offset + k - start < needed
  prefixFree : ∀ k < taken, ∀ result,
    decode (((buffer.drop offset).take taken).take k) 0 ≠ .ok result

namespace ReadM

variable {α : Type} {read : ReadM α} {grammar : Grammar α} {buffer bytes : Bytes} {value : α}
  {offset taken : Nat}

theorem Delimited.takes (delimited : read.Delimited) (accepts : read.Accepts grammar)
    (good : grammar bytes value) (position : Nat) : read.Takes position bytes value := by
  have ran := (accepts ⟨position, bytes, 0⟩ value ⟨position + bytes.length, [], 0⟩ rfl).mpr
    ⟨bytes, good, (List.append_nil bytes).symm, rfl, rfl⟩
  obtain ⟨all, rest, -, -, takes⟩ := delimited _ _ _ rfl ran
  have same : bytes = all := rest.trans (List.append_nil all)
  rwa [same]

theorem RunsShort.decodeAt (short : read.RunsShort (.ofBuffer buffer offset))
    (inside : offset ≤ buffer.length) :
    ∃ field start needed,
      read.decodeAt buffer offset =
        .error (.truncated field start needed (buffer.length - start)) ∧
      offset ≤ start ∧ start ≤ buffer.length ∧ buffer.length - start < needed := by
  obtain ⟨field, start, needed, stop, failed, bounds⟩ := short
  have finish : (Cursor.ofBuffer buffer offset).finish = buffer.length := by
    simp only [Cursor.finish, Cursor.ofBuffer, Cursor.remaining, List.length_drop]
    omega
  rw [finish] at failed bounds
  exact ⟨field, start, needed, by rw [ReadM.decodeAt, failed], bounds⟩

/-- Whatever a delimited reader decodes is decoded from its own bytes. -/
theorem Delimited.isLocal (delimited : read.Delimited) (accepts : read.Accepts grammar)
    (needs : read.NeedsByte) (decoded : read.decodeAt buffer offset = .ok (value, taken)) :
    IsLocal read.decodeAt buffer offset value taken := by
  have inside := needs.le_of_decodeAt decoded
  obtain ⟨bytes, rest, good, found, rfl⟩ := (accepts.decodeAt_eq_ok_iff inside).mp decoded
  have slice : (buffer.drop offset).take bytes.length = bytes := by rw [found, List.take_left]
  have short (position : Nat) {k : Nat} (cut : k < bytes.length) :
      read.RunsShort ⟨position, bytes.take k, 0⟩ := by
    apply (delimited.takes accepts good position).short _ (bytes.drop k)
    · exact List.take_append_drop k bytes
    · rw [Ne, List.drop_eq_nil_iff]
      omega
  refine ⟨?_, ?_, ?_⟩
  · intro before after
    have behind : before.length ≤
        (before ++ (buffer.drop offset).take bytes.length ++ after).length := by
      rw [List.append_assoc, List.length_append]
      exact Nat.le_add_right _ _
    apply (accepts.decodeAt_eq_ok_iff behind).mpr
    refine ⟨bytes, after, good, ?_, rfl⟩
    rw [slice, List.append_assoc, List.drop_left]
  · intro k cut
    have room : (buffer.drop offset).length = bytes.length + rest.length := by
      rw [found, List.length_append]
    rw [List.length_drop] at room
    have length : (buffer.take (offset + k)).length = offset + k := by
      rw [List.length_take]
      omega
    have front : Cursor.ofBuffer (buffer.take (offset + k)) offset =
        ⟨offset, bytes.take k, 0⟩ := by
      rw [Cursor.ofBuffer, length, List.drop_take, found, Nat.add_sub_cancel_left,
        List.take_append_of_le_length (Nat.le_of_lt cut),
        Nat.sub_eq_zero_of_le (Nat.le_add_right _ _)]
    have missing := short offset cut
    rw [← front] at missing
    have failed := missing.decodeAt (by rw [length]; exact Nat.le_add_right _ _)
    rwa [length] at failed
  · intro k cut result
    obtain ⟨_, _, _, _, failed, -⟩ := short 0 cut
    have front : Cursor.ofBuffer (bytes.take k) 0 = ⟨0, bytes.take k, 0⟩ := by
      rw [Cursor.ofBuffer, Nat.zero_sub, List.drop_zero]
    rw [slice, ReadM.decodeAt, front, failed]
    intro impossible
    cases impossible

end ReadM

end TokenLedger
