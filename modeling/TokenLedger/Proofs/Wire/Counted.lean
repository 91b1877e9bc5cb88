import TokenLedger.Proofs.Wire.VarInt

/-!
# Lists behind their number

Forms of lists and of byte strings: a compact integer in any width, and as many items as it says.
-/

namespace TokenLedger

variable {α : Type}

/-- Items behind their number. -/
structure Counted (α : Type) where
  count : VarInt
  items : List α
  isForm : count.IsForm
  counts : count.value.toNat = items.length

namespace Counted

def bytes (encode : α → Bytes) (c : Counted α) : Bytes := c.count.bytes ++ c.items.flatMap encode

/-- The number is in its least form. -/
def IsMinimal (c : Counted α) : Prop := c.count.isCanonical = true

@[ext]
theorem ext {c d : Counted α} (count : c.count = d.count) (items : c.items = d.items) : c = d := by
  cases c
  cases d
  cases count
  cases items
  rfl

theorem length_lt (c : Counted α) : c.items.length < 2 ^ 64 := by
  rw [← c.counts]
  exact c.count.value.toNat_lt

/-- Items behind the least form of their number. -/
def least (items : List α) (fits : items.length < 2 ^ 64) : Counted α where
  count := VarInt.ofValue (UInt64.ofNat items.length)
  items := items
  isForm := VarInt.isForm_ofValue _
  counts := UInt64.toNat_ofNat_of_lt' fits

theorem isMinimal_least {items : List α} (fits : items.length < 2 ^ 64) :
    (least items fits).IsMinimal :=
  VarInt.isCanonical_ofValue _

theorem bytes_of_isMinimal {encode : α → Bytes} {c : Counted α} (minimal : c.IsMinimal) :
    c.bytes encode = encodeCount c.items.length ++ c.items.flatMap encode := by
  rw [bytes, VarInt.bytes_of_isCanonical minimal, encodeCount, ← c.counts, UInt64.ofNat_toNat]

theorem selfDelimiting {encode : α → Bytes} (delimits : SelfDelimiting (fun _ => True) encode) :
    SelfDelimiting (fun _ => True) (bytes encode) := by
  intro c d _ _ r s same
  simp only [bytes, List.append_assoc] at same
  obtain ⟨count, rest⟩ := VarInt.selfDelimiting c.isForm d.isForm same
  have lengths : c.items.length = d.items.length := by rw [← c.counts, ← d.counts, count]
  obtain ⟨items, back⟩ := delimits.flatMap (fun _ _ => trivial) (fun _ _ => trivial) lengths rest
  exact ⟨Counted.ext count items, back⟩

end Counted

/-! ### Byte strings -/

namespace Counted

/-- A byte string behind its length. -/
def string (c : Counted UInt8) : Bytes := c.count.bytes ++ c.items

theorem bytes_singleton (c : Counted UInt8) : c.bytes (fun b => [b]) = c.string := by
  rw [bytes, string, List.flatMap_singleton']

theorem string_of_isMinimal {c : Counted UInt8} (minimal : c.IsMinimal) :
    c.string = encodeVarBytes c.items := by
  rw [← bytes_singleton, bytes_of_isMinimal minimal, List.flatMap_singleton', encodeVarBytes]

theorem string_selfDelimiting : SelfDelimiting (fun _ => True) string := by
  have single : SelfDelimiting (fun _ => True) fun b : UInt8 => [b] :=
    .of_length (fun _ _ => rfl) fun _ _ _ _ same => (List.cons.inj same).1
  intro c d _ _ r s same
  rw [← bytes_singleton, ← bytes_singleton] at same
  exact selfDelimiting single trivial trivial same

end Counted

/-! ### What is written -/

theorem encodeCount_selfDelimiting : SelfDelimiting (· < 2 ^ 64) encodeCount :=
  VarInt.selfDelimiting.of_forms (·.value.toNat) fun count fits =>
    ⟨VarInt.ofValue (UInt64.ofNat count), VarInt.isForm_ofValue _, VarInt.bytes_ofValue _,
      UInt64.toNat_ofNat_of_lt' fits⟩

theorem encodeVarBytes_selfDelimiting :
    SelfDelimiting (fun bytes : Bytes => bytes.length < 2 ^ 64) encodeVarBytes :=
  Counted.string_selfDelimiting.of_forms Counted.items fun bytes fits =>
    ⟨.least bytes fits, trivial, Counted.string_of_isMinimal (Counted.isMinimal_least fits), rfl⟩

/-- A list behind its number. -/
theorem SelfDelimiting.counted {good : α → Prop} {encode : α → Bytes}
    (delimits : SelfDelimiting good encode) {as bs : List α} {r s : Bytes}
    (fitsA : as.length < 2 ^ 64) (fitsB : bs.length < 2 ^ 64) (goodA : ∀ a ∈ as, good a)
    (goodB : ∀ b ∈ bs, good b)
    (same : encodeCount as.length ++ (as.flatMap encode ++ r) =
      encodeCount bs.length ++ (bs.flatMap encode ++ s)) : as = bs ∧ r = s := by
  obtain ⟨lengths, items⟩ := encodeCount_selfDelimiting fitsA fitsB same
  exact delimits.flatMap goodA goodB lengths items

/-! ### Readers -/

theorem readVarBytes_accepts (strictness : Strictness) (field : String) :
    (readVarBytes strictness field).Accepts fun bytes value =>
      ∃ c : Counted UInt8, (strictness = .strict → c.IsMinimal) ∧ c.string = bytes ∧
        c.items = value := by
  refine ((readVarInt_accepts strictness field).bind fun length =>
    readBytes_accepts field length.toNat).congr ?_
  intro bytes value
  constructor
  · rintro ⟨_, _, _, ⟨v, form, canonical, rfl, rfl⟩, ⟨rfl, counts⟩, rfl⟩
    exact ⟨⟨v, value, form, counts.symm⟩, canonical, rfl, rfl⟩
  · rintro ⟨c, canonical, rfl, rfl⟩
    exact ⟨c.count.bytes, c.count.value, c.items, ⟨c.count, c.isForm, canonical, rfl, rfl⟩,
      ⟨rfl, c.counts.symm⟩, rfl⟩

theorem readCount_accepts (strictness : Strictness) (maximum : UInt64) (field : String) :
    (readCount strictness maximum field).Accepts fun bytes count =>
      ∃ v : VarInt, v.IsForm ∧ (strictness = .strict → v.isCanonical = true) ∧
        v.value ≤ maximum ∧ v.bytes = bytes ∧ v.value.toNat = count := by
  refine ReadM.Accepts.bind_get fun start => ?_
  refine ((readVarInt_accepts strictness field).bind fun count =>
    ((ReadM.Accepts.throw _).bind fun _ => .pure _).ite (.pure count.toNat)).congr ?_
  intro bytes count
  constructor
  · rintro ⟨_, _, _, ⟨v, form, canonical, rfl, rfl⟩, allowed, rfl⟩
    split at allowed
    next => obtain ⟨_, _, _, impossible, _⟩ := allowed; exact impossible.elim
    next below =>
      obtain ⟨rfl, rfl⟩ := allowed
      exact ⟨v, form, canonical, UInt64.not_lt.mp below, (List.append_nil _).symm, rfl⟩
  · rintro ⟨v, form, canonical, below, rfl, rfl⟩
    refine ⟨v.bytes, v.value, [], ⟨v, form, canonical, rfl, rfl⟩, ?_, List.append_nil _⟩
    rw [if_neg (UInt64.not_lt.mpr below)]
    exact ⟨rfl, rfl⟩

theorem readCount_names_field {strictness : Strictness} {maximum : UInt64} {field : String}
    {c stop : Cursor} {e : DecodeError}
    (failed : readCount strictness maximum field c = .error e stop) : e.field = field := by
  unfold readCount at failed
  rw [estate_get_bind] at failed
  cases ran : readVarInt strictness field c with
  | error cause stop' =>
    rw [estate_bind_of_error ran] at failed
    cases failed
    exact readVarInt_names_field ran
  | ok count c' =>
    rw [estate_bind_of_ok ran] at failed
    split at failed
    next =>
      cases failed
      rfl
    next => cases failed

/-- What is read of one item is read of each. -/
theorem readMany_accepts {β : Type} {read : ReadM α} {allowed : β → Prop} {encode : β → Bytes}
    {value : β → α}
    (accepts : read.Accepts fun bytes a => ∃ f, allowed f ∧ encode f = bytes ∧ value f = a)
    (n : Nat) :
    (readMany read n).Accepts fun bytes as =>
      ∃ fs : List β, fs.length = n ∧ (∀ f ∈ fs, allowed f) ∧ fs.flatMap encode = bytes ∧
        fs.map value = as := by
  induction n with
  | zero =>
    refine (ReadM.Accepts.pure []).congr ?_
    intro bytes as
    constructor
    · rintro ⟨rfl, rfl⟩
      exact ⟨[], rfl, by simp, rfl, rfl⟩
    · rintro ⟨fs, empty, _, rfl, rfl⟩
      rw [List.length_eq_zero_iff.mp empty]
      exact ⟨rfl, rfl⟩
  | succ n ih =>
    refine (accepts.bind fun first => ih.bind fun rest => .pure (first :: rest)).congr ?_
    intro bytes as
    constructor
    · intro taken
      obtain ⟨_, _, _, ⟨f, good, rfl, rfl⟩, others, rfl⟩ := taken
      obtain ⟨_, _, _, ⟨fs, rfl, allGood, rfl, rfl⟩, ⟨rfl, rfl⟩, rfl⟩ := others
      exact ⟨f :: fs, rfl, by simpa using ⟨good, allGood⟩, by simp, rfl⟩
    · rintro ⟨fs, length, allGood, rfl, rfl⟩
      obtain ⟨f, fs, rfl⟩ := List.exists_cons_of_length_eq_add_one length
      exact ⟨encode f, value f, fs.flatMap encode, ⟨f, allGood f List.mem_cons_self, rfl, rfl⟩,
        ⟨fs.flatMap encode, fs.map value, [], ⟨fs, Nat.succ.inj length,
          fun f mem => allGood f (List.mem_cons_of_mem _ mem), rfl, rfl⟩, ⟨rfl, rfl⟩,
          List.append_nil _⟩, List.flatMap_cons.symm⟩

/-- A list is read behind its number, and what follows goes on with its values. -/
theorem readCounted_accepts {β γ : Type} {read : ReadM α} {strictness : Strictness}
    {maximum : UInt64} {field : String} {allowed : β → Prop} {encode : β → Bytes} {value : β → α}
    {next : List α → ReadM γ} {grammar : List α → Grammar γ}
    (accepts : read.Accepts fun bytes a => ∃ f, allowed f ∧ encode f = bytes ∧ value f = a)
    (accepts' : ∀ as, (next as).Accepts (grammar as)) :
    (readCount strictness maximum field >>= fun n => readMany read n >>= next).Accepts
      fun bytes result => ∃ (c : Counted β) (rest : Bytes),
        (strictness = .strict → c.IsMinimal) ∧ c.count.value ≤ maximum ∧
        (∀ f ∈ c.items, allowed f) ∧ grammar (c.items.map value) rest result ∧
        c.bytes encode ++ rest = bytes := by
  refine ((readCount_accepts strictness maximum field).bind fun n =>
    (readMany_accepts accepts n).bind accepts').congr ?_
  intro bytes result
  constructor
  · intro taken
    obtain ⟨_, _, _, ⟨v, form, minimal, bound, rfl, counts⟩, items, rfl⟩ := taken
    obtain ⟨_, _, rest, ⟨fs, length, good, rfl, rfl⟩, follows, rfl⟩ := items
    refine ⟨⟨v, fs, form, counts.trans length.symm⟩, rest, minimal, bound, good, follows, ?_⟩
    rw [Counted.bytes, List.append_assoc]
  · rintro ⟨⟨v, fs, form, counts⟩, rest, minimal, bound, good, follows, rfl⟩
    refine ⟨_, _, _, ⟨v, form, minimal, bound, rfl, rfl⟩,
      ⟨_, _, rest, ⟨fs, counts.symm, good, rfl, rfl⟩, follows, rfl⟩, ?_⟩
    rw [Counted.bytes, List.append_assoc]

end TokenLedger
