import Mathlib
import TokenLedger.Json.Token
import TokenLedger.Proofs.Text.Digits

/-!
# Literals and where they end

A number ends before a character that occurs in none; a string ends at its closing quote, whatever
follows it. Most characters stand in a string for themselves.
-/

namespace TokenLedger.Json

/-! ### Numbers -/

theorem NumberState.isNumberChar_of_next? {state after : NumberState} {c : Char}
    (next : state.next? c = some after) : isNumberChar c = true := by
  apply Decidable.byContradiction
  intro other
  simp only [isNumberChar, Bool.or_eq_true, beq_iff_eq, not_or] at other
  have zero : c ≠ '0' := by rintro rfl; revert other; decide
  cases state <;> simp_all [NumberState.next?]

theorem forall_isNumberChar_of_foldlM {literal : Literal} {state after : NumberState}
    (read : literal.foldlM NumberState.next? state = some after) :
    ∀ c ∈ literal, isNumberChar c = true := by
  induction literal generalizing state with
  | nil => exact List.forall_mem_nil _
  | cons c literal ih =>
    obtain ⟨between, next, read⟩ := Option.bind_eq_some_iff.mp read
    exact List.forall_mem_cons.mpr ⟨NumberState.isNumberChar_of_next? next, ih read⟩

theorem forall_isNumberChar_of_isNumber {literal : Literal} (number : isNumber literal = true) :
    ∀ c ∈ literal, isNumberChar c = true := by
  unfold isNumber at number
  split at number
  next read => exact forall_isNumberChar_of_foldlM read
  next => cases number

theorem foldlM_next?_whole {digits : Literal} (all : ∀ c ∈ digits, c.isDigit = true) :
    digits.foldlM NumberState.next? .whole = some .whole := by
  induction digits with
  | nil => rfl
  | cons c digits ih =>
    obtain ⟨digit, all⟩ := List.forall_mem_cons.mp all
    have point : c ≠ '.' := by rintro rfl; revert digit; decide
    have mark : ¬(c = 'e' ∨ c = 'E') := by rintro (rfl | rfl) <;> revert digit <;> decide
    have next : NumberState.whole.next? c = some .whole := by
      simp [NumberState.next?, point, mark, digit]
    rw [List.foldlM_cons, next]
    exact ih all

/-- The digits of a number are one. -/
theorem isNumber_decimalDigits (n : Nat) : isNumber (Text.decimalDigits n) = true := by
  rcases Nat.eq_zero_or_pos n with rfl | pos
  · decide
  · obtain ⟨c, digits, eq, nonzero⟩ := Text.decimalDigits_eq_cons pos
    have all : ∀ c ∈ Text.decimalDigits n, c.isDigit = true :=
      fun _ => Text.isDigit_of_mem_decimalDigits
    rw [eq] at all
    obtain ⟨digit, all⟩ := List.forall_mem_cons.mp all
    have minus : c ≠ '-' := by rintro rfl; revert digit; decide
    have next : NumberState.start.next? c = some .whole := by
      simp [NumberState.next?, minus, nonzero, digit]
    have read : (c :: digits).foldlM NumberState.next? .start = some .whole := by
      rw [List.foldlM_cons, next]
      exact foldlM_next?_whole all
    rw [isNumber, eq, read]
    rfl

/-! ### Strings -/

/-- The closing quote behind a literal is the first that closes a string. -/
def IsText (literal : Literal) : Prop := stringLiteral? (literal ++ ['"']) = some (literal, [])

theorem stringLiteral?_cons {c : Char} (quote : c ≠ '"') (backslash : c ≠ '\\')
    (visible : ¬c < ' ') (rest : List Char) :
    stringLiteral? (c :: rest) =
      (stringLiteral? rest).map fun (tail, rest) => (c :: tail, rest) := by
  rw [stringLiteral?, if_neg visible]
  · cases stringLiteral? rest <;> rfl
  · exact quote
  · exact fun _ _ _ _ _ h => absurd h backslash
  · exact fun _ _ h => absurd h backslash

theorem stringLiteral?_append {text : List Char} {literal : Literal} {rest : List Char}
    (read : stringLiteral? text = some (literal, rest)) (more : List Char) :
    stringLiteral? (text ++ more) = some (literal, rest ++ more) := by
  fun_induction stringLiteral? text generalizing literal rest with
  | case1 => cases read
  | case2 => cases read; rfl
  | case3 a b c d tail ih =>
    simp only [Option.bind_eq_bind, Option.bind_eq_some_iff] at read
    obtain ⟨value, digits, ⟨inner, behind⟩, tail_read, read⟩ := read
    cases read
    simp only [List.cons_append, stringLiteral?, digits, ih tail_read]
    rfl
  | case4 letter tail other ih =>
    simp only [Option.bind_eq_bind, Option.bind_eq_some_iff] at read
    obtain ⟨value, short, ⟨inner, behind⟩, tail_read, read⟩ := read
    cases read
    have letter_ne : letter ≠ 'u' := by rintro rfl; cases short
    simp only [List.cons_append]
    rw [stringLiteral?, short, ih tail_read]
    · rfl
    · intro _ _ _ _ _ h; exact absurd h letter_ne
  | case5 => cases read
  | case6 c tail quote _ escape visible ih =>
    simp only [Option.bind_eq_bind, Option.bind_eq_some_iff] at read
    obtain ⟨⟨inner, behind⟩, tail_read, read⟩ := read
    cases read
    -- A backslash at the end of the text would have nothing to escape, and no quote behind it.
    have backslash : c ≠ '\\' := by
      rintro rfl
      cases tail with
      | nil => cases tail_read
      | cons letter tail => exact escape letter tail rfl rfl
    rw [List.cons_append, stringLiteral?_cons quote backslash visible, ih tail_read]
    rfl

theorem IsText.stringLiteral?_quote {literal : Literal} (text : IsText literal)
    (rest : List Char) : stringLiteral? (literal ++ '"' :: rest) = some (literal, rest) := by
  simpa using stringLiteral?_append text rest

/-- A character that stands for itself in a string. -/
def isPlain (c : Char) : Bool := c != '"' && c != '\\' && !(c < ' ')

theorem isPlain_iff {c : Char} : isPlain c = true ↔ c ≠ '"' ∧ c ≠ '\\' ∧ ¬c < ' ' := by
  simp [isPlain, and_assoc]

theorem isText_of_all_isPlain {literal : Literal} (plain : literal.all isPlain = true) :
    IsText literal := by
  induction literal with
  | nil => rfl
  | cons c literal ih =>
    rw [List.all_cons, Bool.and_eq_true] at plain
    obtain ⟨quote, backslash, visible⟩ := isPlain_iff.mp plain.1
    have tail : stringLiteral? (literal ++ ['"']) = some (literal, []) := ih plain.2
    rw [IsText, List.cons_append, stringLiteral?_cons quote backslash visible, tail]
    rfl

theorem unescape?_of_all_isPlain {literal : Literal} (plain : literal.all isPlain = true) :
    unescape? literal = some literal := by
  induction literal with
  | nil => rfl
  | cons c literal ih =>
    rw [List.all_cons, Bool.and_eq_true] at plain
    obtain ⟨_, backslash, _⟩ := isPlain_iff.mp plain.1
    rw [unescape?, ih plain.2]
    · rfl
    all_goals intros; contradiction

end TokenLedger.Json
