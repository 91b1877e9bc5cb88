import TokenLedger.Proofs.Block.Header
import TokenLedger.Proofs.Transaction.Locality
import TokenLedger.Proofs.Wire.Bounds
import TokenLedger.ReadSession

/-!
# Sessions of reads

Wherever a session begins, and whatever went wrong before, each of its reads stays in the buffer,
moves forward, and reads its value from its own bytes; where bytes run out the failure says how many
are left. There is one exception: asked for no bytes behind the end of the buffer, the reader takes
a slice there, and that ends the session.
-/

namespace TokenLedger

/-! ### Readers of many fields -/

theorem Input.read_bounded (strictness : Strictness) : (Input.read strictness).Bounded :=
  (readFixed_bounded _ 32).bind fun _ => (readNumber_bounded _).bind fun _ =>
  (readVarBytes_bounded strictness _).bind fun _ => (readNumber_bounded _).bind fun _ => .pure _

/-- Bytes are no amount only if they have a sign. -/
theorem Amount.eq_of_decode_eq_error {start : Nat} {bytes : Bytes} {e : DecodeError}
    (failed : Amount.decode start bytes = .error e) :
    e = .malformed "output.value" start .negativeValue := by
  unfold Amount.decode at failed
  split at failed
  next => cases failed
  next =>
    split at failed
    next => cases failed
    next =>
      cases failed
      rfl

theorem Output.read_bounded (strictness : Strictness) : (Output.read strictness).Bounded := by
  refine .bind_get fun start => (readVarBytes_bounded strictness _).bind fun valueBytes => ?_
  have behind (value : Nat) : ReadM.Bounded (do
      let tokenId ← readVarBytes strictness "output.token_id"
      let lockingScript ← readVarBytes strictness "output.script_pubkey"
      return ({ value, tokenId, lockingScript } : Output)) :=
    (readVarBytes_bounded strictness _).bind fun _ =>
      (readVarBytes_bounded strictness _).bind fun _ => .pure _
  split
  next value _ => exact (ReadM.Bounded.pure value).bind behind
  next refused =>
    rw [Amount.eq_of_decode_eq_error refused]
    exact (ReadM.Bounded.throw_malformed _ _ _).bind behind

theorem Transaction.read_bounded (policy : CodecPolicy) : (Transaction.read policy).Bounded :=
  (readNumber_bounded _).bind fun _ => (readCount_bounded _ _ _).bind fun _ =>
  (readMany_bounded (Input.read_bounded _) _).bind fun _ => (readCount_bounded _ _ _).bind fun _ =>
  (readMany_bounded (Output.read_bounded _) _).bind fun _ => (readNumber_bounded _).bind fun _ =>
  (readOptionalText_bounded _).bind fun _ => (readOptionalText_bounded _).bind fun _ =>
  (readOptionalBytes_bounded _).bind fun _ => (readOptionalBytes_bounded _).bind fun _ => .pure _

theorem Header.read_bounded : Header.read.Bounded :=
  (readNumber_bounded _).bind fun _ => (readFixed_bounded _ 32).bind fun _ =>
  (readFixed_bounded _ 32).bind fun _ => (readFixed_bounded _ 32).bind fun _ =>
  (readNumber_bounded _).bind fun _ => (readNumber_bounded _).bind fun _ =>
  (readNumber_bounded _).bind fun _ => (readNumber_bounded _).bind fun _ =>
  (readFixed_bounded _ 20).bind fun _ => (readNumber_bounded _).bind fun _ =>
  (readNumber_bounded _).bind fun _ => .pure _

theorem Header.read_delimited : Header.read.Delimited :=
  (readNumber_delimited _).bind fun _ => (readFixed_delimited _ 32).bind fun _ =>
  (readFixed_delimited _ 32).bind fun _ => (readFixed_delimited _ 32).bind fun _ =>
  (readNumber_delimited _).bind fun _ => (readNumber_delimited _).bind fun _ =>
  (readNumber_delimited _).bind fun _ => (readNumber_delimited _).bind fun _ =>
  (readFixed_delimited _ 20).bind fun _ => (readNumber_delimited _).bind fun _ =>
  (readNumber_delimited _).bind fun _ => .pure _

/-! ### Single reads -/

namespace ReadRequest

variable {strictness : Strictness} {field : String}

/-- No bytes are asked for. -/
def asksForNothing : ReadRequest → Bool
  | bytes count | fixed count => count == 0
  | _ => false

theorem read_bounded (request : ReadRequest) : (request.read strictness field).Bounded := by
  cases request with
  | uint8 | uint16 | uint32 | uint32BE | uint64 | int64 => exact readNumber_bounded field
  | varInt => exact readVarInt_bounded strictness field
  | bytes count => exact readBytes_bounded field count
  | fixed count => exact readFixed_bounded field count
  | varBytes => exact readVarBytes_bounded strictness field
  | optionalBytes => exact readOptionalBytes_bounded field
  | optionalText => exact readOptionalText_bounded field
  | output => exact Output.read_bounded strictness
  | transaction maximumCount => exact Transaction.read_bounded _
  | header => exact Header.read_bounded

/-- What a read takes is told from its own bytes, and they are the same everywhere. -/
theorem read_delimited (strictness : Strictness) (field : String) (request : ReadRequest) :
    (request.read strictness field).Delimited ∧
      ∃ grammar, (request.read strictness field).Accepts grammar := by
  cases request with
  | uint8 | uint16 | uint32 | uint32BE | uint64 | int64 =>
    exact ⟨readNumber_delimited field, _, readNumber_accepts field⟩
  | varInt => exact ⟨readVarInt_delimited strictness field, _, readVarInt_accepts strictness field⟩
  | bytes count => exact ⟨readBytes_delimited field count, _, readBytes_accepts field count⟩
  | fixed count => exact ⟨readFixed_delimited field count, _, readFixed_accepts field count⟩
  | varBytes =>
    exact ⟨readVarBytes_delimited strictness field, _, readVarBytes_accepts strictness field⟩
  | optionalBytes => exact ⟨readOptionalBytes_delimited field, _, readOptionalBytes_accepts field⟩
  | optionalText => exact ⟨readOptionalText_delimited field, _, readOptionalText_accepts field⟩
  | output => exact ⟨Output.read_delimited strictness, _, Output.read_accepts strictness⟩
  | transaction maximumCount =>
    exact ⟨Transaction.read_delimited _, _, Transaction.read_accepts _⟩
  | header => exact ⟨Header.read_delimited, _, Header.read_accepts⟩

theorem read_needsByte {request : ReadRequest} (asks : request.asksForNothing = false) :
    (request.read strictness field).NeedsByte := by
  cases request with
  | uint8 | uint16 | uint32 | uint32BE | uint64 | int64 =>
    exact readNumber_needsByte (by decide) field
  | varInt => exact readVarInt_needsByte strictness field
  | bytes count =>
    have pos : count ≠ 0 := by simpa [asksForNothing] using asks
    exact readBytes_needsByte (Nat.pos_of_ne_zero pos) field
  | fixed count =>
    have pos : count ≠ 0 := by simpa [asksForNothing] using asks
    exact readFixed_needsByte (Nat.pos_of_ne_zero pos) field
  | varBytes => exact (readVarInt_needsByte strictness field).bind
  | optionalBytes => exact .bind_get fun _ => (readNumber_needsByte (by decide) field).bind
  | optionalText =>
    exact .bind_get fun _ =>
      ReadM.NeedsByte.bind (.bind_get fun _ => (readNumber_needsByte (by decide) field).bind)
  | output => exact Output.read_needsByte strictness
  | transaction maximumCount => exact Transaction.read_needsByte _
  | header => exact (readNumber_needsByte (by decide) _).bind

/-- Asked for no bytes behind the end, the reader takes a slice there. -/
theorem read_of_asksForNothing {request : ReadRequest} (nothing : request.asksForNothing = true)
    {c : Cursor} (beyond : c.beyond ≠ 0) :
    request.read strictness field c =
      .error (.outOfRange c.position (c.position - c.beyond)) c := by
  have fixed : readFixed field 0 c = .error (.outOfRange c.position (c.position - c.beyond)) c := by
    rw [readFixed, dif_pos (Nat.zero_le _), if_neg beyond]
  unfold asksForNothing at nothing
  split at nothing
  next count =>
    obtain rfl : count = 0 := by simpa using nothing
    exact estate_bind_of_error fixed
  next count =>
    obtain rfl : count = 0 := by simpa using nothing
    exact fixed
  next => cases nothing

end ReadRequest

/-! ### Steps -/

/-- What holds of every step of a session in a buffer. -/
structure ReadStep.IsBounded (strictness : Strictness) (buffer : Bytes) (step : ReadStep) :
    Prop where
  begins : step.before = .ofBuffer buffer step.before.position
  stops : step.after = .ofBuffer buffer step.after.position
  forward : step.before.position ≤ step.after.position
  /-- A value lies in the buffer and is read from its own bytes: from these, wherever they stand and
  whatever comes behind them, and from no fewer. -/
  taken : ∀ value, step.outcome = .ok value →
    step.after.position ≤ buffer.length ∧
    ∀ position, (step.request.read strictness step.field).Takes position
      ((buffer.drop step.before.position).take (step.after.position - step.before.position)) value
  truncated : ∀ field offset needed available,
    step.outcome = .error (.truncated field offset needed available) →
      offset = step.after.position ∧ available = buffer.length - step.after.position ∧
        available < needed
  /-- A slice is out of range exactly if no bytes are asked for behind the end. -/
  aborts : step.aborts = true ↔
    step.request.asksForNothing = true ∧ buffer.length < step.before.position

namespace ReadRequest

variable {strictness : Strictness} {field : String} {request : ReadRequest} {buffer : Bytes}
  {offset : Nat}

theorem exists_error_of_lt (strictness : Strictness) (field : String) (request : ReadRequest)
    (outside : buffer.length < offset) :
    ∃ e, request.read strictness field (.ofBuffer buffer offset) =
        .error e (.ofBuffer buffer offset) ∧
      (request.asksForNothing = false → ∃ name needed available,
        e = .truncated name offset needed available) := by
  cases nothing : request.asksForNothing with
  | true =>
    exact ⟨_, read_of_asksForNothing nothing (Cursor.beyond_ofBuffer_ne_zero_iff.mpr outside),
      fun impossible => by cases impossible⟩
  | false =>
    obtain ⟨name, needed, failed, -⟩ :=
      read_needsByte nothing _ (Cursor.rest_ofBuffer_of_lt outside)
    exact ⟨_, failed, fun _ => ⟨name, needed, 0, rfl⟩⟩

theorem stepAt_eq_of_ok {c after : Cursor} {value : request.Value}
    (ran : request.read strictness field c = .ok value after) :
    request.stepAt strictness field c = ⟨field, request, c, .ok value, after⟩ := by
  rw [stepAt, ran]

theorem stepAt_eq_of_error {c stop : Cursor} {e : DecodeError}
    (failed : request.read strictness field c = .error e stop) :
    request.stepAt strictness field c = ⟨field, request, c, .error e, stop⟩ := by
  rw [stepAt, failed]

theorem stepAt_isBounded_of_ok {value : request.Value} {after : Cursor}
    (ran : request.read strictness field (.ofBuffer buffer offset) = .ok value after) :
    (request.stepAt strictness field (.ofBuffer buffer offset)).IsBounded strictness buffer := by
  have inside : offset ≤ buffer.length := by
    by_contra outside
    obtain ⟨e, failed, -⟩ := exists_error_of_lt strictness field request (Nat.not_le.mp outside)
    rw [ran] at failed
    cases failed
  have start : (Cursor.ofBuffer buffer offset).beyond = 0 := Nat.sub_eq_zero_of_le inside
  obtain ⟨n, few, rfl⟩ := request.read_bounded.ok _ value after ran
  obtain ⟨delimited, grammar, accepts⟩ := request.read_delimited strictness field
  obtain ⟨bytes, good, rest, position, -⟩ := (accepts _ _ _ start).mp ran
  obtain rfl : n = bytes.length := Nat.add_left_cancel position
  have slice : (buffer.drop offset).take bytes.length = bytes := by
    rw [show buffer.drop offset = _ from rest, List.take_left]
  rw [Cursor.advance_ofBuffer few] at ran
  rw [Cursor.remaining_ofBuffer] at few
  rw [stepAt_eq_of_ok ran]
  exact {
    begins := rfl
    stops := rfl
    forward := Nat.le_add_right _ _
    taken := by
      intro value' same
      cases same
      refine ⟨Nat.add_le_of_le_sub' inside few, fun position => ?_⟩
      show ReadM.Takes _ _ ((buffer.drop offset).take (offset + bytes.length - offset)) _
      rw [Nat.add_sub_cancel_left, slice]
      exact delimited.takes accepts good position
    truncated := by
      intro _ _ _ _ impossible
      cases impossible
    aborts := by
      constructor
      · intro impossible
        cases impossible
      · rintro ⟨-, outside⟩
        exact absurd inside (Nat.not_le.mpr outside) }

/-- Only a read of no bytes behind the end takes a slice that is out of range. -/
theorem outOfRange_iff {e : DecodeError} {stop : Cursor}
    (failed : request.read strictness field (.ofBuffer buffer offset) = .error e stop) :
    (∃ index length, e = .outOfRange index length) ↔
      request.asksForNothing = true ∧ buffer.length < offset := by
  constructor
  · rintro ⟨index, length, rfl⟩
    obtain ⟨⟨n, few, rfl⟩, beyond, -⟩ := request.read_bounded.error _ _ stop failed
    rw [Cursor.advance_ofBuffer few, Cursor.beyond_ofBuffer_ne_zero_iff] at beyond
    rw [Cursor.remaining_ofBuffer] at few
    have outside : buffer.length < offset := by omega
    refine ⟨?_, outside⟩
    by_contra asks
    obtain ⟨e, failed', truncated⟩ := exists_error_of_lt strictness field request outside
    obtain ⟨name, needed, available, rfl⟩ := truncated (Bool.eq_false_iff.mpr asks)
    rw [failed] at failed'
    cases failed'
  · rintro ⟨nothing, outside⟩
    rw [read_of_asksForNothing nothing (Cursor.beyond_ofBuffer_ne_zero_iff.mpr outside)] at failed
    cases failed
    exact ⟨_, _, rfl⟩

theorem stepAt_isBounded_of_error {e : DecodeError} {stop : Cursor}
    (failed : request.read strictness field (.ofBuffer buffer offset) = .error e stop) :
    (request.stepAt strictness field (.ofBuffer buffer offset)).IsBounded strictness buffer := by
  obtain ⟨⟨n, few, rfl⟩, described⟩ := request.read_bounded.error _ e stop failed
  rw [Cursor.advance_ofBuffer few] at failed described
  rw [stepAt_eq_of_error failed]
  exact {
    begins := rfl
    stops := rfl
    forward := Nat.le_add_right _ _
    taken := by
      intro _ impossible
      cases impossible
    truncated := by
      intro _ _ _ _ same
      cases same
      obtain ⟨here, left, few⟩ := described
      exact ⟨here, left.trans Cursor.remaining_ofBuffer, few⟩
    aborts := by
      refine Iff.trans ?_ (outOfRange_iff failed)
      cases e with
      | outOfRange index length => exact ⟨fun _ => ⟨index, length, rfl⟩, fun _ => rfl⟩
      | truncated | malformed =>
        constructor
        · intro impossible
          cases impossible
        · rintro ⟨_, _, impossible⟩
          cases impossible }

theorem stepAt_isBounded (strictness : Strictness) (field : String) (request : ReadRequest)
    (buffer : Bytes) (offset : Nat) :
    (request.stepAt strictness field (.ofBuffer buffer offset)).IsBounded strictness buffer := by
  cases ran : request.read strictness field (.ofBuffer buffer offset) with
  | ok value after => exact stepAt_isBounded_of_ok ran
  | error e stop => exact stepAt_isBounded_of_error ran

end ReadRequest

/-! ### Sessions -/

/-- What a step was asked for. -/
def ReadStep.asked (step : ReadStep) : String × ReadRequest := (step.field, step.request)

namespace ReadRequest

variable (strictness : Strictness) (buffer : Bytes)

theorem stepAt_before (field : String) (request : ReadRequest) (c : Cursor) :
    (request.stepAt strictness field c).before = c := by
  unfold stepAt
  split
  · rfl
  · rfl

theorem stepAt_asked (field : String) (request : ReadRequest) (c : Cursor) :
    (request.stepAt strictness field c).asked = (field, request) := by
  unfold stepAt
  split
  · rfl
  · rfl

theorem session_cons (c : Cursor) (field : String) (request : ReadRequest)
    (requests : List (String × ReadRequest)) :
    session strictness c ((field, request) :: requests) =
      if (request.stepAt strictness field c).aborts then [request.stepAt strictness field c]
      else request.stepAt strictness field c ::
        session strictness (request.stepAt strictness field c).after requests := rfl

/-- A failure leaves its cursor in the same buffer, so that the next read is like the first. -/
theorem isBounded_of_mem_session (requests : List (String × ReadRequest)) (offset : Nat) :
    ∀ step ∈ session strictness (.ofBuffer buffer offset) requests,
      step.IsBounded strictness buffer := by
  induction requests generalizing offset with
  | nil =>
    intro step none
    cases none
  | cons head requests ih =>
    obtain ⟨field, request⟩ := head
    have bounded := stepAt_isBounded strictness field request buffer offset
    rw [session_cons]
    split
    next =>
      intro step only
      rwa [List.mem_singleton.mp only]
    next =>
      rw [bounded.stops]
      exact List.forall_mem_cons.mpr ⟨bounded, ih _⟩

theorem session_goes_on (requests : List (String × ReadRequest)) (c : Cursor) :
    (session strictness c requests).map ReadStep.before =
      (c :: (session strictness c requests).map ReadStep.after).dropLast := by
  induction requests generalizing c with
  | nil => rfl
  | cons head requests ih =>
    obtain ⟨field, request⟩ := head
    rw [session_cons]
    split
    next => rw [List.map_singleton, stepAt_before, List.map_singleton, List.dropLast_cons_cons,
      List.dropLast_singleton]
    next => rw [List.map_cons, stepAt_before, List.map_cons, List.dropLast_cons_cons, ih]

theorem session_answers (requests : List (String × ReadRequest)) (c : Cursor) :
    ∃ unanswered,
      requests = (session strictness c requests).map ReadStep.asked ++ unanswered ∧
      (unanswered ≠ [] → ∃ step ∈ (session strictness c requests).getLast?,
        step.aborts = true) := by
  induction requests generalizing c with
  | nil => exact ⟨[], rfl, fun some => absurd rfl some⟩
  | cons head requests ih =>
    obtain ⟨field, request⟩ := head
    rw [session_cons]
    split
    next aborts =>
      refine ⟨requests, ?_, fun _ => ⟨_, rfl, aborts⟩⟩
      rw [List.map_singleton, stepAt_asked, List.singleton_append]
    next =>
      obtain ⟨unanswered, order, last⟩ := ih (request.stepAt strictness field c).after
      refine ⟨unanswered, ?_, fun some => ?_⟩
      · rw [List.map_cons, stepAt_asked, List.cons_append, ← order]
      · obtain ⟨step, found, aborts⟩ := last some
        exact ⟨step, List.mem_getLast?_cons found, aborts⟩

/-- Wherever a session begins, each of its reads goes on where the one before it stopped, succeeded
or failed, and is bounded. All are done unless the last one slices behind the end, which only a read
of no bytes there does. -/
theorem session_stays_in_buffer (offset : Nat) (requests : List (String × ReadRequest)) :
    let steps := session strictness (.ofBuffer buffer offset) requests
    (∀ step ∈ steps, step.IsBounded strictness buffer) ∧
    steps.map ReadStep.before = (.ofBuffer buffer offset :: steps.map ReadStep.after).dropLast ∧
    ∃ unanswered, requests = steps.map ReadStep.asked ++ unanswered ∧
      (unanswered ≠ [] → ∃ step ∈ steps.getLast?, step.aborts = true) :=
  ⟨isBounded_of_mem_session strictness buffer requests offset,
    session_goes_on strictness requests _, session_answers strictness requests _⟩

/-- A read of no bytes behind the end of an empty buffer slices there, and the next is not done. -/
theorem session_slices_behind_end :
    (session .lenient (.ofBuffer [] 1) [("x", .bytes 0), ("y", .uint8)]).map
      (fun step => (step.asked, step.aborts)) = [(("x", .bytes 0), true)] := by
  decide

example : (session .lenient (.ofBuffer [5, 1, 2] 0)
    [("x", .varBytes), ("y", .uint16), ("z", .uint8)]).map (·.after.position) = [1, 3, 3] := by
  decide

end ReadRequest

end TokenLedger
