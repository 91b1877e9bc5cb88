import Mathlib
import TokenLedger.Flags.Text
import TokenLedger.Proofs.Text.Digits

/-!
# Flags are read back from their words

The parts of the text of a set are words without blanks and bars, so that the bars between them
give the parts back. The rules that are named and the number of the bits without a rule make up
the set, whatever bits it has.
-/

namespace TokenLedger

/-! ### The bits of rules -/

namespace Flag

theorem exists_mask_eq_two_pow (flag : Flag) : ∃ i, flag.mask.toNat = 2 ^ i := by
  refine ⟨flag.mask.toNat.log2, ?_⟩
  cases flag <;> rfl

end Flag

namespace Flags

theorem and_or_distrib (a b c : UInt32) : a &&& (b ||| c) = a &&& b ||| a &&& c := by
  apply UInt32.toNat_inj.mp
  simp only [UInt32.toNat_and, UInt32.toNat_or, Nat.and_or_distrib_left]

/-- A rule has one bit, which a set has as a whole or not at all. -/
theorem bits_and_mask (flags : Flags) (flag : Flag) :
    flags.bits &&& flag.mask = if flags.has flag then flag.mask else 0 := by
  split
  next has =>
    obtain ⟨i, power⟩ := flag.exists_mask_eq_two_pow
    have nonzero : flags.bits &&& flag.mask ≠ 0 := by simpa [Flags.has] using has
    have bit : (flags.bits.toNat.testBit i).toNat * 2 ^ i ≠ 0 := by
      rw [← Nat.and_two_pow, ← power, ← UInt32.toNat_and]
      exact fun zero => nonzero (UInt32.toNat_inj.mp zero)
    apply UInt32.toNat_inj.mp
    rw [UInt32.toNat_and, power, Nat.and_two_pow]
    cases set : flags.bits.toNat.testBit i with
    | false => simp [set] at bit
    | true => simp
  next lacks => simpa [Flags.has] using lacks

/-- The rules of a set among some rules. -/
theorem bits_foldl_filter_has (flags : Flags) (rules : List Flag) (start : UInt32) :
    ((rules.filter flags.has).foldl (fun acc flag => union acc ⟨flag.mask⟩)
        ⟨flags.bits &&& start⟩).bits =
      flags.bits &&& (rules.foldl (fun acc flag => union acc ⟨flag.mask⟩) ⟨start⟩).bits := by
  induction rules generalizing start with
  | nil => rfl
  | cons flag rules ih =>
    have masked := flags.bits_and_mask flag
    rw [List.foldl_cons, union, ← ih, and_or_distrib, masked]
    cases has : flags.has flag <;> simp [has, union]

/-- The rules of a set and its bits without a rule make up the set. -/
theorem union_unnamed (flags : Flags) :
    (ofList (Flag.all.filter flags.has)).union ⟨flags.unnamed⟩ = flags := by
  have named : (ofList (Flag.all.filter flags.has)).bits =
      flags.bits &&& (ofList Flag.all).bits := by
    have filtered := bits_foldl_filter_has flags Flag.all 0
    rwa [UInt32.and_zero] at filtered
  rw [union, named, unnamed, ← and_or_distrib, UInt32.or_not_self, UInt32.and_neg_one]

end Flags

/-! ### Words -/

namespace Text

/-- A character of rule names and of hexadecimal numbers. -/
def isWordChar (c : Char) : Bool := c.isAlphanum || c == '_'

/-- Blanks, quotes and control characters are below these codes, the bar is above them, and 92 is
the backslash. -/
theorem code_of_isWordChar {c : Char} (word : isWordChar c = true) :
    48 ≤ c.toNat ∧ c.toNat ≤ 122 ∧ c.toNat ≠ 92 := by
  simp only [isWordChar, Char.isAlphanum, Char.isAlpha, Char.isUpper, Char.isLower, Char.isDigit,
    Bool.or_eq_true, Bool.and_eq_true, decide_eq_true_eq, beq_iff_eq, UInt32.le_iff_toNat_le,
    ge_iff_le] at word
  rcases word with word | rfl
  · change (65 ≤ c.toNat ∧ c.toNat ≤ 90 ∨ 97 ≤ c.toNat ∧ c.toNat ≤ 122) ∨
      48 ≤ c.toNat ∧ c.toNat ≤ 57 at word
    omega
  · decide

theorem not_isBlank_of_isWordChar {c : Char} (word : isWordChar c = true) :
    isBlank c = false := by
  have code := code_of_isWordChar word
  simp only [isBlank, blankRanges, List.any_cons, List.any_nil, Bool.or_false,
    Bool.or_eq_false_iff, Bool.and_eq_false_iff, decide_eq_false_iff_not]
  omega

/-- A text of word characters. -/
def IsWord (text : List Char) : Prop := text ≠ [] ∧ text.all isWordChar = true

theorem isWord_hexDigits (n : Nat) : IsWord ('0' :: 'x' :: hexDigits n) := by
  have digits : ∀ d < 16, isWordChar (Nat.digitChar d) = true := by decide
  have all : (hexDigits n).all isWordChar = true := by
    rw [List.all_eq_true]
    intro c mem
    obtain ⟨d, small, rfl⟩ := digit_of_mem_toDigits (by decide) mem
    exact digits d small
  exact ⟨List.cons_ne_nil _ _, by rw [List.all_cons, List.all_cons, all]; rfl⟩

/-- Blanks around a word are dropped. -/
theorem trim_word {before word after : List Char} (before_blank : ∀ c ∈ before, c = ' ')
    (isWord : IsWord word) (after_blank : ∀ c ∈ after, c = ' ') :
    trim (before ++ word ++ after) = word := by
  have visible : ∀ c ∈ word, isBlank c = false :=
    fun c mem => not_isBlank_of_isWordChar (List.all_eq_true.mp isWord.2 c mem)
  -- Dropping blanks ends where a word begins, also in reverse.
  have drop {blanks word : List Char} (blank : ∀ c ∈ blanks, c = ' ') (some : word ≠ [])
      (visible : ∀ c ∈ word, isBlank c = false) (rest : List Char) :
      (blanks ++ (word ++ rest)).dropWhile isBlank = word ++ rest := by
    rw [List.dropWhile_append_of_pos fun c mem => blank c mem ▸ rfl]
    cases word with
    | nil => exact absurd rfl some
    | cons c word => simp [visible c]
  have reversed := drop (fun c mem => after_blank c (List.mem_reverse.mp mem))
    (List.reverse_ne_nil_iff.mpr isWord.1) (fun c mem => visible c (List.mem_reverse.mp mem)) []
  rw [trim, List.append_assoc, drop before_blank isWord.1 visible, List.reverse_append]
  rw [List.append_nil] at reversed
  rw [reversed, List.reverse_reverse]

theorem bar_not_mem_word {before word after : List Char} (before_blank : ∀ c ∈ before, c = ' ')
    (isWord : IsWord word) (after_blank : ∀ c ∈ after, c = ' ') :
    '|' ∉ before ++ word ++ after := by
  intro mem
  rcases List.mem_append.mp mem with mem | mem
  · rcases List.mem_append.mp mem with mem | mem
    · exact absurd (before_blank _ mem) (by decide)
    · exact absurd (List.all_eq_true.mp isWord.2 _ mem) (by decide)
  · exact absurd (after_blank _ mem) (by decide)

end Text

namespace Flags

open Text

theorem isWord_of_mem_parts (flags : Flags) : ∀ part ∈ flags.parts, IsWord part := by
  have names (flag : Flag) : IsWord flag.name.toList := by
    cases flag <;> exact ⟨by decide, by decide⟩
  intro part mem
  unfold parts at mem
  split at mem
  next =>
    obtain ⟨flag, _, rfl⟩ := List.mem_map.mp mem
    exact names flag
  next =>
    rcases List.mem_append.mp mem with mem | mem
    · obtain ⟨flag, _, rfl⟩ := List.mem_map.mp mem
      exact names flag
    · rw [List.mem_singleton.mp mem]
      exact isWord_hexDigits _

/-- The bars between words give the words back. -/
theorem map_trim_splitOn_intercalate {part : List Char} {others : List (List Char)}
    (words : ∀ word ∈ part :: others, IsWord word) {before : List Char}
    (blank : ∀ c ∈ before, c = ' ') :
    ((before ++ [' ', '|', ' '].intercalate (part :: others)).splitOn '|').map trim =
      part :: others := by
  induction others generalizing part before with
  | nil =>
    have word := words part List.mem_cons_self
    have whole := bar_not_mem_word blank word (List.forall_mem_nil _)
    have trimmed := trim_word blank word (List.forall_mem_nil _)
    rw [List.append_nil] at whole trimmed
    rw [List.intercalate_singleton, List.splitOn_eq_singleton whole, List.map_cons, trimmed]
    rfl
  | cons next others ih =>
    obtain ⟨word, words⟩ := List.forall_mem_cons.mp words
    have single : ∀ c ∈ [' '], c = ' ' := fun _ => List.mem_singleton.mp
    have first := bar_not_mem_word blank word single
    have cut : before ++ [' ', '|', ' '].intercalate (part :: next :: others) =
        before ++ part ++ [' '] ++
          '|' :: ([' '] ++ [' ', '|', ' '].intercalate (next :: others)) := by
      simp [List.intercalate_cons_of_ne_nil]
    rw [cut, List.splitOn_append_cons_self_of_not_mem first, List.map_cons, ih words single,
      trim_word blank word single]

theorem mem_of_mem_intercalate {between : List Char} {parts : List (List Char)} {c : Char}
    (mem : c ∈ between.intercalate parts) : c ∈ between ∨ ∃ part ∈ parts, c ∈ part := by
  induction parts with
  | nil => simp at mem
  | cons part others ih =>
    cases others with
    | nil =>
      rw [List.intercalate_singleton] at mem
      exact .inr ⟨part, List.mem_cons_self, mem⟩
    | cons next others =>
      rw [List.intercalate_cons_of_ne_nil (List.cons_ne_nil _ _), List.mem_append,
        List.mem_append] at mem
      rcases mem with (mem | mem) | mem
      · exact .inr ⟨part, List.mem_cons_self, mem⟩
      · exact .inl mem
      · exact (ih mem).imp_right fun ⟨other, listed, mem⟩ =>
          ⟨other, List.mem_cons_of_mem _ listed, mem⟩

/-- A set is written with word characters, blanks and bars. -/
theorem char_of_mem_toText {flags : Flags} {c : Char} (mem : c ∈ flags.toText) :
    c = ' ' ∨ c = '|' ∨ isWordChar c = true := by
  rcases mem_of_mem_intercalate mem with between | ⟨part, listed, mem⟩
  · simp only [List.mem_cons, List.not_mem_nil, or_false] at between
    rcases between with rfl | rfl | rfl <;> simp
  · exact .inr (.inr (List.all_eq_true.mp (flags.isWord_of_mem_parts part listed).2 c mem))

/-! ### The parts of a set -/

/-- The sets that the parts of the text of a set stand for. -/
def partSets (flags : Flags) : List Flags :=
  let named := (Flag.all.filter flags.has).map fun flag => ⟨flag.mask⟩
  if flags.unnamed = 0 then named else named ++ [⟨flags.unnamed⟩]

theorem foldl_union_partSets (flags : Flags) : flags.partSets.foldl union none = flags := by
  have whole := flags.union_unnamed
  rw [ofList] at whole
  unfold partSets
  split
  next zero =>
    rw [zero, union, UInt32.or_zero] at whole
    rw [List.foldl_map]
    exact whole
  next => rw [List.foldl_append, List.foldl_map, List.foldl_cons, List.foldl_nil, whole]

theorem ofPart?_name (flag : Flag) : ofPart? flag.name.toList = some ⟨flag.mask⟩ := by
  cases flag <;> rfl

theorem ofPart?_hexDigits (bits : UInt32) :
    ofPart? ('0' :: 'x' :: hexDigits bits.toNat) = some ⟨bits⟩ := by
  have unsigned (digits) : hexDigits bits.toNat ≠ '+' :: digits := by
    intro signed
    have mem : '+' ∈ hexDigits bits.toNat := signed ▸ List.mem_cons_self
    obtain ⟨d, _, eq⟩ := digit_of_mem_toDigits (by decide) mem
    exact absurd eq.symm (Nat.digitChar_ne '+' rfl)
  change Flags.ofHex? (hexDigits bits.toNat) = some ⟨bits⟩
  unfold Flags.ofHex?
  split
  next signed => exact absurd signed (unsigned _)
  next => simp [ofHex?_hexDigits, UInt32.toNat_lt_size]

theorem mapM_ofPart?_parts (flags : Flags) : flags.parts.mapM ofPart? = some flags.partSets := by
  have names (rules : List Flag) : (rules.map (·.name.toList)).mapM ofPart? =
      some (rules.map fun flag => ⟨flag.mask⟩) := by
    rw [List.mapM_map]
    exact (congrArg (rules.mapM ·) (funext ofPart?_name)).trans List.mapM_pure
  unfold parts partSets
  split
  next => exact names _
  next => simp [List.mapM_append, names, ofPart?_hexDigits]

/-- A set is read back from its text. -/
theorem ofText?_toText (flags : Flags) : ofText? flags.toText = some flags := by
  have words := flags.isWord_of_mem_parts
  have sets := flags.mapM_ofPart?_parts
  unfold ofText? toText
  cases eq : flags.parts with
  | nil =>
    rw [eq] at sets
    have whole := flags.foldl_union_partSets
    rw [← Option.some.inj sets] at whole
    exact congrArg some whole
  | cons part others =>
    rw [eq] at words sets
    have visible : ([' ', '|', ' '].intercalate (part :: others)).all isBlank = false := by
      obtain ⟨some_chars, chars⟩ := words part List.mem_cons_self
      obtain ⟨c, part, rfl⟩ := List.exists_cons_of_ne_nil some_chars
      have first := not_isBlank_of_isWordChar (List.all_eq_true.mp chars c List.mem_cons_self)
      rw [List.intercalate_cons_cons_left, List.all_cons, first, Bool.false_and]
    have split := map_trim_splitOn_intercalate words (List.forall_mem_nil _)
    have mapped : (([' ', '|', ' '].intercalate (part :: others)).splitOn '|').mapM
        (fun part => ofPart? (trim part)) = some flags.partSets := by
      calc
        _ = ((([' ', '|', ' '].intercalate (part :: others)).splitOn '|').map trim).mapM ofPart? :=
          List.mapM_map.symm
        _ = (part :: others).mapM ofPart? := congrArg (List.mapM ofPart?) split
        _ = some flags.partSets := sets
    rw [visible, if_neg Bool.false_ne_true, mapped]
    exact congrArg some flags.foldl_union_partSets

example : Flags.toText ⟨0xc0000011⟩ = "P2SH | NULLDUMMY | 0xc0000000".toList := by decide

end Flags

end TokenLedger
