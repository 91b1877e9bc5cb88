import TokenLedger.Proofs.Outcome
import TokenLedger.Wire

/-!
# Readers under tighter rules

Two readers go over the same bytes, the first under rules that are at least as tight. The rules are
consulted inside nested reads and lists, but each time only to reject what is there as malformed. So
as long as the first reader has not rejected anything, both stand at the same place with the same
values.
-/

namespace TokenLedger

/-- The first strictness refuses whatever the second one does. -/
def Strictness.TighterThan (strictness looser : Strictness) : Prop :=
  strictness = .strict ∨ strictness = looser

/-- What is wrong is the content of the bytes, and not that there are too few of them. -/
inductive DecodeError.IsMalformed : DecodeError → Prop where
  | malformed (field : String) (offset : Nat) (reason : Malformation) :
      IsMalformed (.malformed field offset reason)

namespace ReadM

variable {α β : Type} {read looser : ReadM α}

/-- The first reader does what the second one does, or rejects the bytes as malformed. -/
def Tightens (read looser : ReadM α) : Prop :=
  ∀ c, read c = looser c ∨ ∃ e stop, e.IsMalformed ∧ read c = .error e stop

namespace Tightens

theorem refl (read : ReadM α) : Tightens read read := fun _ => .inl rfl

theorem bind {next next' : α → ReadM β} (head : Tightens read looser)
    (tail : ∀ value, Tightens (next value) (next' value)) :
    Tightens (read >>= next) (looser >>= next') := by
  intro c
  rcases head c with same | ⟨e, stop, malformed, rejected⟩
  · cases ran : looser c with
    | error e stop =>
      rw [ran] at same
      exact .inl (by rw [estate_bind_of_error same, estate_bind_of_error ran])
    | ok value between =>
      rw [ran] at same
      rw [estate_bind_of_ok same, estate_bind_of_ok ran]
      exact tail value between
  · exact .inr ⟨e, stop, malformed, estate_bind_of_error rejected⟩

/-- Both readers are at the same place when they look where they are. -/
theorem bind_get {body body' : Cursor → ReadM α} (tightens : ∀ c, Tightens (body c) (body' c)) :
    Tightens (get >>= body) (get >>= body') := by
  intro c
  exact tightens c c

/-- A guard that lets less through rejects more. -/
theorem guard {blocked blocked' : Prop} [Decidable blocked] [Decidable blocked']
    {field : String} {offset : Nat} {reason reason' : Malformation} {next : PUnit → ReadM α}
    (narrower : blocked' → blocked) (tightens : Tightens read looser) :
    Tightens (if blocked then throw (.malformed field offset reason) >>= next else read)
      (if blocked' then throw (.malformed field offset reason') >>= next else looser) := by
  by_cases h : blocked
  · intro c
    rw [if_pos h]
    exact .inr ⟨_, c, .malformed field offset reason, rfl⟩
  · have open' : ¬ blocked' := fun h' => h (narrower h')
    rw [if_neg h, if_neg open']
    exact tightens

end Tightens

end ReadM

/-! ### Compact integers and what follows them -/

variable {strictness looser : Strictness} {maximum more : UInt64}

/-- Nothing but the width of an integer that is there as a whole makes a difference. -/
theorem VarInt.decode_of_tighter (tighter : strictness.TighterThan looser) (field : String)
    (offset : Nat) (bytes : Bytes) :
    decode field offset strictness bytes = decode field offset looser bytes ∨
      ∃ reason, decode field offset strictness bytes = .error (.malformed field offset reason) := by
  rcases tighter with rfl | rfl
  · cases bytes with
    | nil => exact .inl rfl
    | cons marker payload =>
      simp only [decode]
      by_cases single : announced marker = 0
      · simp only [if_pos single, true_or]
      · by_cases short : payload.length < announced marker
        · simp only [if_neg single, if_pos short, true_or]
        · simp only [if_neg single, if_neg short]
          split
          next => exact .inr ⟨_, rfl⟩
          next canonical =>
            left
            rw [if_neg]
            intro wide
            exact canonical ⟨trivial, wide.2⟩
  · exact .inl rfl

theorem readVarInt_tightens (tighter : strictness.TighterThan looser) (field : String) :
    (readVarInt strictness field).Tightens (readVarInt looser field) := by
  intro c
  unfold readVarInt
  rcases VarInt.decode_of_tighter tighter field c.position c.rest with same | ⟨reason, rejected⟩
  · rw [same]
    exact .inl rfl
  · rw [rejected]
    exact .inr ⟨_, c, .malformed field c.position reason, rfl⟩

theorem readVarBytes_tightens (tighter : strictness.TighterThan looser) (field : String) :
    (readVarBytes strictness field).Tightens (readVarBytes looser field) :=
  (readVarInt_tightens tighter field).bind fun _ => .refl _

/-- The width of a number is judged first, and its size where the number is at hand. -/
theorem readCount_tightens (tighter : strictness.TighterThan looser) (fewer : maximum ≤ more)
    (field : String) :
    (readCount strictness maximum field).Tightens (readCount looser more field) := by
  apply ReadM.Tightens.bind_get
  intro start
  apply (readVarInt_tightens tighter field).bind
  intro count
  apply ReadM.Tightens.guard
  · intro exceeds
    exact UInt64.lt_of_le_of_lt fewer exceeds
  · exact .refl _

theorem readMany_tightens {α : Type} {read looser : ReadM α} (tightens : read.Tightens looser)
    (n : Nat) : (readMany read n).Tightens (readMany looser n) := by
  induction n with
  | zero => exact .refl _
  | succ n ih => exact tightens.bind fun _ => ih.bind fun _ => .refl _

/-! ### Whole runs -/

/-- The first outcome is the second one, or a failure of the given kind. -/
def Narrows {ε α : Type} (rejection : ε → Prop) (outcome looser : Except ε α) : Prop :=
  outcome = looser ∨ ∃ e, rejection e ∧ outcome = .error e

theorem Narrows.eq_ok {ε α : Type} {rejection : ε → Prop} {outcome looser : Except ε α} {value : α}
    (narrows : Narrows rejection outcome looser) (succeeded : outcome = .ok value) :
    looser = .ok value := by
  rcases narrows with same | ⟨e, -, failed⟩
  · rw [← same, succeeded]
  · rw [succeeded] at failed
    cases failed

namespace ReadM.Tightens

variable {α : Type} {read looser : ReadM α}

theorem decodeAt (tightens : read.Tightens looser) (buffer : Bytes) (offset : Nat) :
    Narrows DecodeError.IsMalformed (read.decodeAt buffer offset)
      (looser.decodeAt buffer offset) := by
  unfold ReadM.decodeAt
  rcases tightens (.ofBuffer buffer offset) with same | ⟨e, stop, malformed, rejected⟩
  · rw [same]
    exact .inl rfl
  · rw [rejected]
    exact .inr ⟨e, malformed, rfl⟩

theorem decodeAll (tightens : read.Tightens looser) (field : String) (buffer : Bytes) :
    Narrows DecodeError.IsMalformed (read.decodeAll field buffer)
      (looser.decodeAll field buffer) := by
  unfold ReadM.decodeAll
  rcases tightens (.ofBuffer buffer 0) with same | ⟨e, stop, malformed, rejected⟩
  · rw [same]
    exact .inl rfl
  · rw [rejected]
    exact .inr ⟨e, malformed, rfl⟩

end ReadM.Tightens

end TokenLedger
