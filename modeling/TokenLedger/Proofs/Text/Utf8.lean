import TokenLedger.Text.Utf8

/-!
# Text and its bytes

Every text is read back from its bytes, and bytes that are read as a text are the bytes of that
text and of no other.
-/

namespace TokenLedger.Utf8

/-- What the loop has passed it keeps in reverse. -/
theorem toList_loop_eq (bytes : ByteArray) (index : Nat) (passed : Bytes) :
    ByteArray.toList.loop bytes index passed =
      passed.reverse ++ bytes.data.toList.drop index := by
  fun_induction ByteArray.toList.loop bytes index passed with
  | case1 index passed inside ih =>
    have inside' : index < bytes.data.toList.length := inside
    have byte : bytes.get! index = bytes.data.toList[index] := by
      rw [ByteArray.get!, Array.getElem_toList]
      exact getElem!_pos bytes.data index inside
    rw [ih, List.drop_eq_getElem_cons inside', List.reverse_cons, List.append_assoc, byte]
    rfl
  | case2 index passed outside =>
    have outside' : bytes.data.toList.length ≤ index := Nat.not_lt.mp outside
    rw [List.drop_of_length_le outside', List.append_nil]

theorem toByteArray_encode (text : String) : (encode text).toByteArray = text.toByteArray := by
  have listed : text.toByteArray.toList = text.toByteArray.data.toList := toList_loop_eq _ 0 []
  rw [encode, String.toUTF8_eq_toByteArray, listed]
  exact ByteArray.ext (by simp)

/-- Bytes are read as the text they are the bytes of. -/
theorem decode_eq_ok_iff {bytes : Bytes} {text : String} :
    decode bytes = .ok text ↔ encode text = bytes := by
  rw [← List.toByteArray_inj, toByteArray_encode]
  unfold decode String.fromUTF8?
  by_cases valid : bytes.toByteArray.IsValidUTF8
  · rw [dif_pos valid]
    constructor
    · intro decoded
      cases decoded
      rfl
    · intro same
      exact congrArg Except.ok (String.toByteArray_inj.mp same.symm)
  · rw [dif_neg valid]
    constructor
    · intro decoded
      cases decoded
    · intro same
      exact absurd (same ▸ text.isValidUTF8) valid

theorem encode_inj {a b : String} (same : encode a = encode b) : a = b :=
  Except.ok.inj ((decode_eq_ok_iff.mpr same).symm.trans (decode_eq_ok_iff.mpr rfl))

end TokenLedger.Utf8
