import Mathlib.Data.Option.Basic
import TokenLedger.Proofs.Amount
import TokenLedger.Proofs.Outcome
import TokenLedger.Signature.Basic

/-!
# The strict layout of signature bytes

The strict layout is stated as what writes it: a `Layout` in bytes. The check by position walks
through its guards, and each is what makes a later read stay inside the bytes; once the counts
account for every byte, the bytes fall into parts, and the integers are looked at where they stand.
The reader from the front takes the same parts off one after the other.
-/

namespace TokenLedger

namespace Der

/-! ### Integers -/

/-- An integer that the strict layout admits: it has bytes, its sign is not set, and a zero byte is
in front only where the sign would be set without it. -/
structure IsLeastInteger (content : Bytes) : Prop where
  nonempty : content ≠ []
  unsigned : Amount.IsUnsigned content
  frugal : Amount.HasNoRedundantZero content

theorem isMinimalInteger_iff {content : Bytes} :
    isMinimalInteger content = true ↔ IsLeastInteger content := by
  cases content with
  | nil =>
    constructor
    · intro impossible
      cases impossible
    · intro least
      exact absurd rfl least.nonempty
  | cons b content =>
    cases content with
    | nil =>
      constructor
      · intro small
        exact ⟨by simp, Amount.isUnsigned_cons_iff.mpr (of_decide_eq_true small),
          Amount.hasNoRedundantZero_singleton b⟩
      · intro least
        exact decide_eq_true (Amount.isUnsigned_cons_iff.mp least.unsigned)
    | cons c content =>
      have both : isMinimalInteger (b :: c :: content) = true ↔
          b < 0x80 ∧ (b = 0 → 0x80 ≤ c) := by
        simp [isMinimalInteger, Decidable.imp_iff_not_or]
      rw [both]
      constructor
      · rintro ⟨small, needed⟩
        exact ⟨by simp, Amount.isUnsigned_cons_iff.mpr small,
          Amount.hasNoRedundantZero_cons_cons_iff.mpr needed⟩
      · intro least
        exact ⟨Amount.isUnsigned_cons_iff.mp least.unsigned,
          Amount.hasNoRedundantZero_cons_cons_iff.mp least.frugal⟩

theorem byteAt_eq_ok {bytes : Bytes} {position : Nat} {b : UInt8} :
    byteAt bytes position = .ok b ↔ bytes[position]? = some b := by
  unfold byteAt
  cases bytes[position]? <;> simp

theorem byteAt_append {behind : Bytes} {b : UInt8} (front : Bytes) (offset : Nat)
    (found : byteAt behind offset = .ok b) :
    byteAt (front ++ behind) (front.length + offset) = .ok b := by
  rw [byteAt_eq_ok] at found ⊢
  rw [List.getElem?_append_right (Nat.le_add_right ..), Nat.add_sub_cancel_left, found]

/-- Where an integer stands, only its own bytes are looked at. -/
theorem integerAt_append (front content behind : Bytes) (tag length : UInt8) :
    integerAt (front ++ tag :: length :: (content ++ behind)) front.length content.length =
      .ok (tag == 0x02 && isMinimalInteger content) := by
  have tagAt : byteAt (front ++ tag :: length :: (content ++ behind)) front.length = .ok tag := by
    simp [byteAt]
  unfold integerAt
  rw [except_bind_of_ok tagAt]
  by_cases tagged : tag = 0x02
  · cases content with
    | nil => simp [isMinimalInteger, pure, Except.pure]
    | cons b content =>
      have firstAt : byteAt (front ++ tag :: length :: (b :: content ++ behind))
          (front.length + 2) = .ok b := byteAt_append front 2 rfl
      rw [except_bind_of_ok firstAt]
      by_cases large : 0x80 ≤ b
      · cases content <;>
          simp [tagged, large, UInt8.not_lt.mpr large, isMinimalInteger, pure, Except.pure]
      · have small : b < 0x80 := UInt8.not_le.mp large
        cases content with
        | nil => simp [tagged, large, small, isMinimalInteger, pure, Except.pure]
        | cons c content =>
          have secondAt : byteAt (front ++ tag :: length :: (b :: c :: content ++ behind))
              (front.length + 3) = .ok c := byteAt_append front 3 rfl
          rw [except_bind_of_ok secondAt]
          by_cases zero : b = 0
          · simp [tagged, zero, isMinimalInteger, pure, Except.pure, ← UInt8.not_lt]
          · simp [tagged, large, small, zero, isMinimalInteger, pure, Except.pure]
  · simp [tagged, pure, Except.pure]

/-- An integer is read off exactly the bytes that begin with its tag and its length. -/
theorem integer?_eq_some_iff {bytes content rest : Bytes} :
    integer? bytes = some (content, rest) ↔
      ∃ length : UInt8, length.toNat = content.length ∧
        bytes = 0x02 :: length :: (content ++ rest) := by
  constructor
  · intro read
    unfold integer? at read
    split at read
    · rename_i length bytes
      split at read
      · rename_i inside
        rw [List.splitAt_eq] at read
        obtain ⟨rfl, rfl⟩ := Prod.mk.inj (Option.some.inj read)
        exact ⟨length, by simp [inside], by simp⟩
      · cases read
    · cases read
  · rintro ⟨length, counted, rfl⟩
    simp [integer?, counted]

/-! ### Layouts -/

/-- A layout in bytes: each part behind its tag and its length, and the hash type last. -/
def Layout.bytes (layout : Layout) : Bytes :=
  0x30 :: UInt8.ofNat (layout.r.length + layout.s.length + 4) ::
    0x02 :: UInt8.ofNat layout.r.length :: (layout.r ++
      0x02 :: UInt8.ofNat layout.s.length :: (layout.s ++ [layout.hashType.byte]))

/-- Both integers are in least form, and take no more bytes than two scalars could. -/
structure Layout.IsStrict (layout : Layout) : Prop where
  r : IsLeastInteger layout.r
  s : IsLeastInteger layout.s
  short : layout.bytes.length ≤ 73

variable {bytes : Bytes} {layout : Layout}

theorem Layout.length_bytes (layout : Layout) :
    layout.bytes.length = layout.r.length + layout.s.length + 7 := by
  simp [Layout.bytes]
  omega

/-- Counts that are right are the ones that a layout has. -/
theorem Layout.isStrict_of_counts {total lengthR lengthS : UInt8}
    (r : IsLeastInteger layout.r) (s : IsLeastInteger layout.s)
    (parts : bytes = 0x30 :: total :: 0x02 :: lengthR :: (layout.r ++
      0x02 :: lengthS :: (layout.s ++ [layout.hashType.byte])))
    (whole : total.toNat + 3 = bytes.length) (countR : lengthR.toNat = layout.r.length)
    (countS : lengthS.toNat = layout.s.length) (short : bytes.length ≤ 73) :
    layout.IsStrict ∧ layout.bytes = bytes := by
  have all : total.toNat = layout.r.length + layout.s.length + 4 := by
    simp [parts] at whole
    omega
  have same : layout.bytes = bytes := by
    rw [parts, Layout.bytes, ← all, ← countR, ← countS]
    simp only [UInt8.ofNat_toNat]
  exact ⟨⟨r, s, same ▸ short⟩, same⟩

/-- In few bytes every count fits its byte. -/
theorem Layout.counts_of_short (short : layout.bytes.length ≤ 73) :
    (UInt8.ofNat (layout.r.length + layout.s.length + 4)).toNat =
      layout.r.length + layout.s.length + 4 ∧
    (UInt8.ofNat layout.r.length).toNat = layout.r.length ∧
    (UInt8.ofNat layout.s.length).toNat = layout.s.length := by
  rw [layout.length_bytes] at short
  have fits : ∀ {n : Nat}, n ≤ 70 → (UInt8.ofNat n).toNat = n :=
    fun small => UInt8.toNat_ofNat_of_lt' (Nat.lt_of_le_of_lt small (by decide))
  exact ⟨fits (by omega), fits (by omega), fits (by omega)⟩

/-- Few bytes can be cut into the parts of a layout in one way only. -/
theorem Layout.eq_of_bytes_eq {layout' : Layout} (short : layout.bytes.length ≤ 73)
    (same : layout.bytes = layout'.bytes) : layout = layout' := by
  obtain ⟨-, countR, countS⟩ := Layout.counts_of_short short
  obtain ⟨-, countR', countS'⟩ := Layout.counts_of_short (same ▸ short)
  obtain ⟨r, s, ⟨hashType⟩⟩ := layout
  obtain ⟨r', s', ⟨hashType'⟩⟩ := layout'
  simp only [Layout.bytes, List.cons.injEq, true_and] at same
  obtain ⟨-, sameR, rest⟩ := same
  have lengthR : r.length = r'.length := by rw [← countR, sameR, countR']
  obtain ⟨rfl, behind⟩ := List.append_inj rest lengthR
  simp only [List.cons.injEq, true_and] at behind
  obtain ⟨sameS, rest⟩ := behind
  have lengthS : s.length = s'.length := by rw [← countS, sameS, countS']
  obtain ⟨rfl, last⟩ := List.append_inj rest lengthS
  obtain rfl : hashType = hashType' := List.singleton_inj.mp last
  rfl

theorem Layout.IsStrict.long (strict : layout.IsStrict) : 9 ≤ layout.bytes.length := by
  have r := List.length_pos_iff.mpr strict.r.nonempty
  have s := List.length_pos_iff.mpr strict.s.nonempty
  rw [layout.length_bytes]
  omega

/-! ### The reader from the front -/

/-- A strict layout is read, and nothing is left. -/
theorem strict?_bytes (strict : layout.IsStrict) : strict? layout.bytes = some layout := by
  obtain ⟨whole, countR, countS⟩ := Layout.counts_of_short strict.short
  have long := strict.long
  have short := strict.short
  have counted : (UInt8.ofNat (layout.r.length + layout.s.length + 4)).toNat + 3 =
      layout.bytes.length := by
    rw [whole, layout.length_bytes]
  have least : (isMinimalInteger layout.r && isMinimalInteger layout.s) = true := by
    rw [isMinimalInteger_iff.mpr strict.r, isMinimalInteger_iff.mpr strict.s]
    rfl
  unfold strict?
  rw [if_neg (by omega)]
  refine Option.bind_eq_some_iff.mpr ⟨(), (Option.guard_eq_some' ()).mpr counted, ?_⟩
  refine Option.bind_eq_some_iff.mpr ⟨_, integer?_eq_some_iff.mpr ⟨_, countR, rfl⟩, ?_⟩
  refine Option.bind_eq_some_iff.mpr ⟨_, integer?_eq_some_iff.mpr ⟨_, countS, rfl⟩, ?_⟩
  exact Option.bind_eq_some_iff.mpr ⟨(), (Option.guard_eq_some' ()).mpr least, rfl⟩

/-! ### The check by position -/

/-- A check gives a verdict, for it reads inside the bytes only, and accepts nothing but what it is
for. -/
def Answers (check : Except Nat Bool) (purpose : Prop) : Prop :=
  ∃ verdict, check = .ok verdict ∧ (verdict = true → purpose)

namespace Answers

variable {purpose blocked : Prop} [Decidable blocked] {next : Except Nat Bool}

theorem guard (passes : ¬ blocked → Answers next purpose) :
    Answers (if blocked then pure false else next) purpose := by
  by_cases h : blocked
  · rw [if_pos h]
    exact ⟨false, rfl, fun impossible => by cases impossible⟩
  · rw [if_neg h]
    exact passes h

theorem read {position : Nat} {next : UInt8 → Except Nat Bool} (inside : position < bytes.length)
    (goes : ∀ b, bytes[position]? = some b → Answers (next b) purpose) :
    Answers (byteAt bytes position >>= next) purpose := by
  have found : bytes[position]? = some bytes[position] := List.getElem?_eq_getElem inside
  rw [except_bind_of_ok (byteAt_eq_ok.mpr found)]
  exact goes _ found

end Answers

/-- Counts that account for all bytes cut them into the parts of a layout. -/
theorem exists_parts {lengthR lengthS : UInt8} (atR : bytes[3]? = some lengthR)
    (atS : bytes[5 + lengthR.toNat]? = some lengthS)
    (whole : lengthR.toNat + lengthS.toNat + 7 = bytes.length) :
    ∃ (tag total tagR tagS hashType : UInt8) (r s : Bytes),
      lengthR.toNat = r.length ∧ lengthS.toNat = s.length ∧
        bytes = tag :: total :: tagR :: lengthR :: (r ++ tagS :: lengthS :: (s ++ [hashType])) := by
  rcases bytes with _ | ⟨tag, _ | ⟨total, _ | ⟨tagR, _ | ⟨length, content⟩⟩⟩⟩ <;> try cases atR
  simp only [List.length_cons] at whole
  have behind : (content.drop lengthR.toNat)[1]? = some lengthS := by
    rw [List.getElem?_drop, ← atS, show 5 + lengthR.toNat = lengthR.toNat + 1 + 4 by omega]
    rfl
  have room : (content.drop lengthR.toNat).length = lengthS.toNat + 3 := by
    rw [List.length_drop]
    omega
  have cut := List.take_append_drop lengthR.toNat content
  generalize content.drop lengthR.toNat = rest at behind room cut
  rcases rest with _ | ⟨tagS, _ | ⟨length, rest⟩⟩ <;> try cases behind
  simp only [List.length_cons] at room
  have last : rest ≠ [] := List.ne_nil_of_length_eq_add_one (n := lengthS.toNat) (by omega)
  refine ⟨tag, total, tagR, tagS, rest.getLast last, content.take lengthR.toNat, rest.dropLast,
    ?_, ?_, ?_⟩
  · rw [List.length_take]
    omega
  · rw [List.length_dropLast]
    omega
  · rw [List.dropLast_concat_getLast, cut]

/-- The two integers are checked where their counts place them. -/
theorem integersAt (tag total tagR lengthR tagS lengthS hashType : UInt8) (r s : Bytes) :
    let bytes := tag :: total :: tagR :: lengthR :: (r ++ tagS :: lengthS :: (s ++ [hashType]))
    integerAt bytes 2 r.length = .ok (tagR == 0x02 && isMinimalInteger r) ∧
      integerAt bytes (r.length + 4) s.length = .ok (tagS == 0x02 && isMinimalInteger s) :=
  ⟨integerAt_append [tag, total] r (tagS :: lengthS :: (s ++ [hashType])) tagR lengthR,
    integerAt_append (tag :: total :: tagR :: lengthR :: r) s [hashType] tagS lengthS⟩

/-- The check reads inside the bytes only, and what it accepts is a strict layout. -/
theorem layoutAt_answers (bytes : Bytes) :
    Answers (layoutAt bytes) (∃ layout : Layout, layout.IsStrict ∧ layout.bytes = bytes) := by
  unfold layoutAt
  refine .guard fun sized => ?_
  refine .read (by omega) fun tag tagAt => ?_
  refine .guard fun tagged => ?_
  refine .read (by omega) fun total totalAt => ?_
  refine .guard fun counted => ?_
  refine .read (by omega) fun lengthR atR => ?_
  refine .guard fun room => ?_
  refine .read (by omega) fun lengthS atS => ?_
  refine .guard fun whole => ?_
  -- From here on every byte has its place, and the integers are looked at where they stand.
  obtain ⟨tag', total', tagR, tagS, hashType, r, s, countR, countS, rfl⟩ :=
    exists_parts atR atS (not_not.mp whole)
  obtain rfl : tag' = tag := Option.some.inj tagAt
  obtain rfl : total' = total := Option.some.inj totalAt
  obtain ⟨integerR, integerS⟩ := integersAt tag' total' tagR lengthR tagS lengthS hashType r s
  rw [countR, except_bind_of_ok integerR, countS]
  refine .guard fun acceptedR => ?_
  refine ⟨_, integerS, fun acceptedS => ?_⟩
  obtain ⟨rfl, leastR⟩ : tagR = 0x02 ∧ IsLeastInteger r := by
    simpa [isMinimalInteger_iff] using acceptedR
  obtain ⟨rfl, leastS⟩ : tagS = 0x02 ∧ IsLeastInteger s := by
    simpa [isMinimalInteger_iff] using acceptedS
  obtain rfl : tag' = 0x30 := not_not.mp tagged
  exact ⟨⟨r, s, ⟨hashType⟩⟩, Layout.isStrict_of_counts leastR leastS rfl (not_not.mp counted) countR
    countS (by omega)⟩

/-- The check accepts every strict layout. -/
theorem layoutAt_bytes (strict : layout.IsStrict) : layoutAt layout.bytes = .ok true := by
  obtain ⟨whole, countR, countS⟩ := Layout.counts_of_short strict.short
  have long := strict.long
  have short := strict.short
  have length := layout.length_bytes
  obtain ⟨integerR, integerS⟩ :
      integerAt layout.bytes 2 layout.r.length = .ok (0x02 == 0x02 && isMinimalInteger layout.r) ∧
      integerAt layout.bytes (layout.r.length + 4) layout.s.length =
        .ok (0x02 == 0x02 && isMinimalInteger layout.s) :=
    integersAt ..
  have atS : byteAt layout.bytes (5 + layout.r.length) = .ok (UInt8.ofNat layout.s.length) := by
    rw [Nat.add_comm]
    exact byteAt_append (0x30 :: _ :: 0x02 :: _ :: layout.r) 1 rfl
  unfold layoutAt
  rw [if_neg (by omega), except_bind_of_ok (show byteAt layout.bytes 0 = .ok 0x30 from rfl),
    if_neg (by decide), except_bind_of_ok (show byteAt layout.bytes 1 = .ok _ from rfl),
    if_neg (by omega), except_bind_of_ok (show byteAt layout.bytes 3 = .ok _ from rfl)]
  simp only [countR]
  rw [if_neg (by omega), except_bind_of_ok atS]
  simp only [countS]
  rw [if_neg (by omega), except_bind_of_ok integerR, integerS, isMinimalInteger_iff.mpr strict.r,
    isMinimalInteger_iff.mpr strict.s]
  rfl

end Der

namespace TransactionSignature

variable {bytes : Bytes}

/-- The check by position never reads outside the bytes. -/
theorem layoutAt_eq_ok (bytes : Bytes) : Der.layoutAt bytes = .ok (hasStrictLayout bytes) := by
  obtain ⟨verdict, checked, -⟩ := Der.layoutAt_answers bytes
  rw [hasStrictLayout, checked]

theorem hasStrictLayout_iff :
    hasStrictLayout bytes = true ↔
      ∃ layout : Der.Layout, layout.IsStrict ∧ layout.bytes = bytes := by
  obtain ⟨verdict, checked, sound⟩ := Der.layoutAt_answers bytes
  have same : hasStrictLayout bytes = verdict := by rw [hasStrictLayout, checked]
  constructor
  · intro accepted
    exact sound (same ▸ accepted)
  · rintro ⟨layout, strict, rfl⟩
    rw [hasStrictLayout, Der.layoutAt_bytes strict]

/-- The check of the strict layout looks at positions inside the bytes only. It accepts nine to
seventy-three bytes that are two least integers, each behind its tag and its length, in a sequence
that counts them both, with one byte for the hash type behind it. They are so in one way only. -/
theorem strict_layout_is_exact (bytes : Bytes) :
    Der.layoutAt bytes = .ok (hasStrictLayout bytes) ∧
    (hasStrictLayout bytes = true ↔
      9 ≤ bytes.length ∧ bytes.length ≤ 73 ∧
        ∃ layout : Der.Layout, layout.bytes = bytes ∧
          Der.IsLeastInteger layout.r ∧ Der.IsLeastInteger layout.s) ∧
    (hasStrictLayout bytes = true → ∃! layout : Der.Layout, layout.bytes = bytes) := by
  refine ⟨layoutAt_eq_ok bytes, ?_, ?_⟩
  · rw [hasStrictLayout_iff]
    constructor
    · rintro ⟨layout, strict, rfl⟩
      exact ⟨strict.long, strict.short, layout, rfl, strict.r, strict.s⟩
    · rintro ⟨-, short, layout, rfl, r, s⟩
      exact ⟨layout, ⟨r, s, short⟩, rfl⟩
  · intro accepted
    obtain ⟨layout, strict, rfl⟩ := hasStrictLayout_iff.mp accepted
    exact ⟨layout, rfl, fun other same => (Der.Layout.eq_of_bytes_eq strict.short same.symm).symm⟩

theorem strict_layout_is_exact_smallest :
    hasStrictLayout [0x30, 6, 2, 1, 1, 2, 1, 1, 1] = true ∧
      ∃! layout : Der.Layout, layout.bytes = [0x30, 6, 2, 1, 1, 2, 1, 1, 1] :=
  have accepted : hasStrictLayout [0x30, 6, 2, 1, 1, 2, 1, 1, 1] = true := by decide
  ⟨accepted, (strict_layout_is_exact _).2.2 accepted⟩

end TransactionSignature

end TokenLedger
