import TokenLedger.Proofs.Wire.Reading

/-!
# Fields of fixed width

Of fields that have fixed widths and any content a reader reports nothing but that bytes are
missing, and in the field where they are: the first one that the buffer does not hold as a whole.
-/

namespace TokenLedger

/-- The names of fields, in their order, and the number of bytes each of them takes. -/
abbrev Layout := List (String × Nat)

namespace Layout

def width (fields : Layout) : Nat := (fields.map (·.2)).sum

/-- What a reader of the fields reports that finds so many bytes at a position. -/
def missing : Layout → (position available : Nat) → Option DecodeError
  | [], _, _ => none
  | (field, n) :: fields, position, available =>
    if available < n then some (.truncated field position n available)
    else missing fields (position + n) (available - n)

theorem missing_nil (position available : Nat) : missing [] position available = none := rfl

theorem missing_cons (field : String) (n : Nat) (fields : Layout) (position available : Nat) :
    missing ((field, n) :: fields) position available =
      if available < n then some (.truncated field position n available)
      else missing fields (position + n) (available - n) := rfl

theorem width_cons (field : String) (n : Nat) (fields : Layout) :
    width ((field, n) :: fields) = n + width fields := rfl

theorem missing_append (front back : Layout) (position available : Nat) :
    (front ++ back).missing position available =
      (front.missing position available).or
        (back.missing (position + front.width) (available - front.width)) := by
  induction front generalizing position available with
  | nil => rfl
  | cons head front ih =>
    obtain ⟨field, n⟩ := head
    rw [List.cons_append, missing_cons, missing_cons]
    split
    next => rfl
    next => rw [ih, width_cons, Nat.add_assoc, Nat.sub_sub]

theorem missing_eq_none_iff {fields : Layout} {position available : Nat} :
    fields.missing position available = none ↔ fields.width ≤ available := by
  induction fields generalizing position available with
  | nil => exact ⟨fun _ => Nat.zero_le _, fun _ => missing_nil position available⟩
  | cons head fields ih =>
    obtain ⟨field, n⟩ := head
    rw [missing_cons, width_cons]
    split
    next few =>
      simp only [reduceCtorEq, false_iff]
      omega
    next enough =>
      rw [ih]
      omega

/-- The field that is reported begins within the bytes and ends behind them. -/
theorem exists_of_missing {fields : Layout} {position available : Nat} {e : DecodeError}
    (reported : fields.missing position available = some e) :
    ∃ front field n back, fields = front ++ (field, n) :: back ∧ width front ≤ available ∧
      available < width front + n ∧
      e = .truncated field (position + width front) n (available - width front) := by
  induction fields generalizing position available with
  | nil => cases reported
  | cons head fields ih =>
    obtain ⟨field, n⟩ := head
    rw [missing_cons] at reported
    split at reported
    next few =>
      cases reported
      exact ⟨[], field, n, fields, rfl, Nat.zero_le _, by simpa [width] using few, rfl⟩
    next enough =>
      obtain ⟨front, other, m, back, rfl, begins, ends, rfl⟩ := ih reported
      refine ⟨(field, n) :: front, other, m, back, rfl, ?_, ?_, ?_⟩
      · rw [width_cons]
        omega
      · rw [width_cons]
        omega
      · rw [width_cons, Nat.add_assoc, Nat.sub_sub]

end Layout

/-- The reader takes the fields, whatever is in them. -/
structure ReadM.HasLayout {α : Type} (read : ReadM α) (fields : Layout) : Prop where
  reads : ∀ c, c.beyond = 0 → fields.missing c.position c.remaining = none →
    ∃ value, read c = .ok value (c.advance fields.width)
  stops : ∀ c e, c.beyond = 0 → fields.missing c.position c.remaining = some e →
    ∃ stop, read c = .error e stop

namespace ReadM.HasLayout

variable {α β : Type} {read : ReadM α} {front back : Layout}

theorem pure (value : α) : HasLayout (Pure.pure value) [] where
  reads _ _ _ := ⟨value, rfl⟩
  stops _ _ _ reported := by cases reported

theorem bind {next : α → ReadM β} (head : read.HasLayout front)
    (tail : ∀ value, (next value).HasLayout back) : (read >>= next).HasLayout (front ++ back) := by
  have behind (c : Cursor) : (c.advance front.width).remaining = c.remaining - front.width := by
    simp only [Cursor.remaining, Cursor.advance, List.length_drop]
  constructor
  · intro c inside complete
    rw [Layout.missing_append, Option.or_eq_none_iff] at complete
    obtain ⟨value, ran⟩ := head.reads c inside complete.1
    have others := complete.2
    rw [← behind] at others
    obtain ⟨result, ran'⟩ := (tail value).reads (c.advance front.width) inside others
    have together : (c.advance front.width).advance back.width =
        c.advance (Layout.width (front ++ back)) := by
      simp only [Cursor.advance, Layout.width, List.map_append, List.sum_append, List.drop_drop,
        Nat.add_assoc]
    rw [together] at ran'
    exact ⟨result, by rw [estate_bind_of_ok ran, ran']⟩
  · intro c e inside reported
    rw [Layout.missing_append, Option.or_eq_some_iff] at reported
    rcases reported with early | ⟨complete, late⟩
    · obtain ⟨stop, failed⟩ := head.stops c e inside early
      exact ⟨stop, estate_bind_of_error failed⟩
    · obtain ⟨value, ran⟩ := head.reads c inside complete
      rw [← behind] at late
      obtain ⟨stop, failed⟩ := (tail value).stops (c.advance front.width) e inside late
      exact ⟨stop, by rw [estate_bind_of_ok ran, failed]⟩

/-- A single field in front of others. -/
theorem cons {field : String} {n : Nat} {next : α → ReadM β} (head : read.HasLayout [(field, n)])
    (tail : ∀ value, (next value).HasLayout back) :
    (read >>= next).HasLayout ((field, n) :: back) := head.bind tail

end ReadM.HasLayout

theorem readFixed_hasLayout (field : String) (n : Nat) :
    (readFixed field n).HasLayout [(field, n)] := by
  constructor
  · intro c inside complete
    have enough : n ≤ c.rest.length := by
      simpa [Layout.width, Cursor.remaining] using Layout.missing_eq_none_iff.mp complete
    have width : Layout.width [(field, n)] = n := Nat.add_zero n
    rw [readFixed, dif_pos enough, if_pos inside, width]
    exact ⟨_, rfl⟩
  · intro c e _ reported
    obtain ⟨few, rfl⟩ : c.remaining < n ∧ e = .truncated field c.position n c.remaining := by
      simpa [Layout.missing_cons, Layout.missing_nil, eq_comm] using reported
    have short : ¬ n ≤ c.rest.length := Nat.not_le.mpr few
    rw [readFixed, dif_neg short]
    exact ⟨c, rfl⟩

theorem readBytes_hasLayout (field : String) (n : Nat) :
    (readBytes field n).HasLayout [(field, n)] :=
  (readFixed_hasLayout field n).bind fun _ => .pure _

theorem readNumber_hasLayout {α : Type} {width : Nat} {ofBytes : Bytes → α} (field : String) :
    (readNumber width ofBytes field).HasLayout [(field, width)] :=
  (readBytes_hasLayout field width).bind fun _ => .pure _

end TokenLedger
