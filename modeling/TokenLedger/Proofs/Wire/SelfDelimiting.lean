import TokenLedger.Bytes

/-!
# Self-delimiting encodings

The bytes of a value tell where they end: what stands behind them is never taken for a part of
them. Such encodings can be put one behind the other and keep both values apart.
-/

namespace TokenLedger

variable {α β : Type} {good : α → Prop} {encode : α → Bytes}

/-- Two streams that start with the bytes of good values and are the same start with the same
value. -/
def SelfDelimiting (good : α → Prop) (encode : α → Bytes) : Prop :=
  ∀ ⦃a b⦄, good a → good b → ∀ ⦃r s⦄, encode a ++ r = encode b ++ s → a = b ∧ r = s

namespace SelfDelimiting

theorem injective (delimits : SelfDelimiting good encode) {a b : α} (goodA : good a)
    (goodB : good b) (same : encode a = encode b) : a = b := by
  have streams : encode a ++ [] = encode b ++ [] := by rw [same]
  exact (delimits goodA goodB streams).1

/-- All values take the same number of bytes. -/
theorem of_length {n : Nat} (width : ∀ a, good a → (encode a).length = n)
    (inj : ∀ a b, good a → good b → encode a = encode b → a = b) :
    SelfDelimiting good encode := by
  intro a b goodA goodB r s same
  have widths : (encode a).length = (encode b).length := by rw [width a goodA, width b goodB]
  obtain ⟨front, back⟩ := List.append_inj same widths
  exact ⟨inj a b goodA goodB front, back⟩

/-- Every value is written as one of its forms, and a form has one value. -/
theorem of_forms {form : β → Prop} {bytes : β → Bytes} (delimits : SelfDelimiting form bytes)
    (value : β → α) (written : ∀ a, good a → ∃ f, form f ∧ bytes f = encode a ∧ value f = a) :
    SelfDelimiting good encode := by
  intro a b goodA goodB r s same
  obtain ⟨f, formF, bytesF, rfl⟩ := written a goodA
  obtain ⟨g, formG, bytesG, rfl⟩ := written b goodB
  rw [← bytesF, ← bytesG] at same
  obtain ⟨rfl, back⟩ := delimits formF formG same
  exact ⟨rfl, back⟩

/-- Lists of one length. -/
theorem flatMap (delimits : SelfDelimiting good encode) {as bs : List α} {r s : Bytes}
    (goodA : ∀ a ∈ as, good a) (goodB : ∀ b ∈ bs, good b) (lengths : as.length = bs.length)
    (same : as.flatMap encode ++ r = bs.flatMap encode ++ s) : as = bs ∧ r = s := by
  induction as generalizing bs with
  | nil =>
    obtain rfl := List.length_eq_zero_iff.mp lengths.symm
    exact ⟨rfl, same⟩
  | cons a as ih =>
    obtain ⟨b, bs, rfl⟩ := List.exists_cons_of_length_eq_add_one lengths.symm
    simp only [List.flatMap_cons, List.append_assoc] at same
    obtain ⟨rfl, rest⟩ := delimits (goodA a List.mem_cons_self) (goodB b List.mem_cons_self) same
    obtain ⟨rfl, back⟩ := ih (fun a mem => goodA a (List.mem_cons_of_mem _ mem))
      (fun b mem => goodB b (List.mem_cons_of_mem _ mem)) (Nat.succ.inj lengths) rest
    exact ⟨rfl, back⟩

end SelfDelimiting

end TokenLedger
