import TokenLedger.Text.Characters

/-!
# Numbers and their digits

A number is read back from its digits. None of them is a leading zero, unless the number is zero.
-/

namespace TokenLedger.Text

theorem digit_of_mem_toDigits {base n : Nat} (two_le : 1 < base) {c : Char}
    (mem : c ∈ Nat.toDigits base n) : ∃ d, d < base ∧ c = Nat.digitChar d := by
  induction n using Nat.strongRecOn with
  | ind n ih =>
    rw [Nat.toDigits_eq_if two_le] at mem
    split at mem
    next small => exact ⟨n, small, List.mem_singleton.mp mem⟩
    next large =>
      rcases List.mem_append.mp mem with inner | last
      · exact ih (n / base) (Nat.div_lt_self (by omega) two_le) inner
      · exact ⟨n % base, Nat.mod_lt n (by omega), List.mem_singleton.mp last⟩

theorem exists_toDigits_eq_cons {base n : Nat} (two_le : 1 < base) (pos : 0 < n) :
    ∃ d digits, Nat.toDigits base n = Nat.digitChar d :: digits ∧ 0 < d ∧ d < base := by
  induction n using Nat.strongRecOn with
  | ind n ih =>
    rw [Nat.toDigits_eq_if two_le]
    split
    next small => exact ⟨n, [], rfl, pos, small⟩
    next large =>
      obtain ⟨d, digits, eq, bounds⟩ := ih (n / base) (Nat.div_lt_self pos two_le)
        (Nat.div_pos (Nat.le_of_not_lt large) (by omega))
      exact ⟨d, digits ++ [Nat.digitChar (n % base)], by rw [eq, List.cons_append], bounds⟩

/-! ### Hexadecimal digits -/

theorem hexValue?_digitChar : ∀ d < 16, hexValue? (Nat.digitChar d) = some d := by decide

theorem foldlM_hexDigits (n : Nat) :
    (hexDigits n).foldlM (fun n c => (hexValue? c).map (16 * n + ·)) 0 = some n := by
  induction n using Nat.strongRecOn with
  | ind n ih =>
    rw [hexDigits, Nat.toDigits_eq_if (by decide)]
    split
    next small =>
      simp only [List.foldlM_cons, List.foldlM_nil, hexValue?_digitChar n small]
      simp
    next large =>
      have inner := ih (n / 16) (Nat.div_lt_self (by omega) (by decide))
      have last := hexValue?_digitChar (n % 16) (Nat.mod_lt n (by decide))
      rw [hexDigits] at inner
      simp only [List.foldlM_append, inner, List.foldlM_cons, List.foldlM_nil, last]
      simp [Nat.div_add_mod]

theorem ofHex?_hexDigits (n : Nat) : ofHex? (hexDigits n) = some n := by
  have some_digits : (hexDigits n).isEmpty = false := by simp [hexDigits]
  rw [ofHex?, some_digits, if_neg Bool.false_ne_true, foldlM_hexDigits]

/-! ### Decimal digits -/

theorem isDigit_of_mem_decimalDigits {n : Nat} {c : Char} (mem : c ∈ decimalDigits n) :
    c.isDigit = true :=
  Nat.isDigit_of_mem_toDigits (by decide) (by decide) mem

theorem ofDecimal?_decimalDigits (n : Nat) : ofDecimal? (decimalDigits n) = some n := by
  have some_digits : (decimalDigits n).isEmpty = false := by simp [decimalDigits]
  have digits : (decimalDigits n).all Char.isDigit = true :=
    List.all_eq_true.mpr fun _ => isDigit_of_mem_decimalDigits
  rw [ofDecimal?, some_digits, digits, if_neg (by decide), decimalDigits,
    Nat.ofDigitChars_ten_toDigits]

/-- The digits of a positive number start with another digit than zero. -/
theorem decimalDigits_eq_cons {n : Nat} (pos : 0 < n) :
    ∃ c digits, decimalDigits n = c :: digits ∧ c ≠ '0' := by
  have two_le : 1 < 10 := by decide
  obtain ⟨d, digits, eq, nonzero, _⟩ := exists_toDigits_eq_cons two_le pos
  refine ⟨_, digits, eq, fun zero => ?_⟩
  rw [Nat.digitChar_eq_zero] at zero
  omega

end TokenLedger.Text
