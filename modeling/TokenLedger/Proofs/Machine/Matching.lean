import Mathlib.Data.List.NodupEquivFin
import TokenLedger.Machine.SignatureCheck
import TokenLedger.Proofs.Outcome

/-!
# Matching signatures with keys

A key that does not accept the signature at hand is passed over for good. Nothing is lost by that:
if the signatures can be matched with some of the keys in order at all, the first signature can be
matched with the first key that accepts it. So the matching that is found exists exactly when any
does, from whichever end of the lists one starts.
-/

namespace TokenLedger

open List (SublistForall₂)

/-! ### Matching in order -/

section

variable {α β : Type} {accepts : α → β → Prop} {g : α} {k : β} {gs : List α} {ks : List β}

theorem length_le_of_sublistForall₂ (matching : SublistForall₂ accepts gs ks) :
    gs.length ≤ ks.length := by
  obtain ⟨chosen, pairs, sub⟩ := List.sublistForall₂_iff.mp matching
  rw [pairs.length_eq]
  exact sub.length_le

/-- The first key can be given to the first signature if it accepts that: a matching that uses the
key for nothing, or the signature with a later key, still does for the rest. -/
theorem sublistForall₂_cons_iff_of_accepts (accepted : accepts g k) :
    SublistForall₂ accepts (g :: gs) (k :: ks) ↔ SublistForall₂ accepts gs ks := by
  constructor
  · intro matching
    cases matching with
    | cons _ rest => exact rest
    | cons_right later =>
      obtain ⟨chosen, pairs, sub⟩ := List.sublistForall₂_iff.mp later
      cases pairs with
      | cons _ rest =>
        exact List.sublistForall₂_iff.mpr ⟨_, rest, (List.sublist_cons_self _ _).trans sub⟩
  · exact .cons accepted

theorem sublistForall₂_cons_iff_of_not_accepts (refused : ¬ accepts g k) :
    SublistForall₂ accepts (g :: gs) (k :: ks) ↔ SublistForall₂ accepts (g :: gs) ks := by
  constructor
  · intro matching
    cases matching with
    | cons accepted _ => exact absurd accepted refused
    | cons_right later => exact later
  · exact .cons_right

theorem sublistForall₂_reverse_iff :
    SublistForall₂ accepts gs.reverse ks.reverse ↔ SublistForall₂ accepts gs ks := by
  have reversed {gs : List α} {ks : List β} (matching : SublistForall₂ accepts gs ks) :
      SublistForall₂ accepts gs.reverse ks.reverse := by
    obtain ⟨chosen, pairs, sub⟩ := List.sublistForall₂_iff.mp matching
    exact List.sublistForall₂_iff.mpr
      ⟨chosen.reverse, List.forall₂_reverse_iff.mpr pairs, sub.reverse⟩
  constructor
  · intro matching
    simpa using reversed matching
  · exact reversed

/-- A matching in order gives each signature the position of its key, from left to right. -/
theorem sublistForall₂_iff_exists_positions :
    SublistForall₂ accepts gs ks ↔
      ∃ position : Fin gs.length → Fin ks.length, StrictMono position ∧
        ∀ j, accepts gs[j] ks[position j] := by
  rw [List.sublistForall₂_iff]
  constructor
  · rintro ⟨chosen, pairs, sub⟩
    obtain ⟨sameLength, accepted⟩ := List.forall₂_iff_get.mp pairs
    obtain ⟨place, placed⟩ := List.sublist_iff_exists_fin_orderEmbedding_get_eq.mp sub
    refine ⟨place ∘ Fin.cast sameLength, place.strictMono.comp (Fin.cast_strictMono sameLength),
      fun j => ?_⟩
    have pair := accepted j.val j.isLt (sameLength ▸ j.isLt)
    rw [placed] at pair
    exact pair
  · rintro ⟨position, increasing, accepted⟩
    refine ⟨List.ofFn fun j => ks[position j], ?_, ?_⟩
    · refine List.forall₂_iff_get.mpr ⟨by simp, fun i inRange _ => ?_⟩
      simpa using accepted ⟨i, inRange⟩
    · let place : Fin (List.ofFn fun j => ks[position j]).length ↪o Fin ks.length :=
        OrderEmbedding.ofStrictMono (position ∘ Fin.cast (by simp))
          (increasing.comp (Fin.cast_strictMono _))
      exact List.sublist_iff_exists_fin_orderEmbedding_get_eq.mpr
        ⟨place, fun j => List.get_ofFn _ j⟩

end

/-! ### The walk along both lists -/

/-- Whether every signature is accepted for a key of its own, in the order of the keys. A key that
does not accept the signature at hand is passed over for good, and when fewer keys than signatures
are left there is nothing more to try. -/
def matchInOrder {m : Type → Type} [Monad m] (accepts : Bytes → Bytes → m Bool) :
    (signatures keys : List Bytes) → m Bool
  | [], _ => return true
  | _ :: _, [] => return false
  | signature :: signatures, key :: keys =>
    if keys.length < signatures.length then return false
    else do
      if ← accepts signature key then matchInOrder accepts signatures keys
      else matchInOrder accepts (signature :: signatures) keys

/-- The check finds the signature to be one of the key. -/
def Accepts (check : Bytes → Bytes → Except Error Bool) (signature key : Bytes) : Prop :=
  check signature key = .ok true

section

variable {check : Bytes → Bytes → Except Error Bool} {signatures keys : List Bytes}

/-- The walk decides whether there is a matching. -/
theorem accepted_iff_of_matchInOrder {accepted : Bool}
    (decided : matchInOrder check signatures keys = .ok accepted) :
    accepted = true ↔ SublistForall₂ (Accepts check) signatures keys := by
  induction keys generalizing signatures with
  | nil =>
    cases signatures with
    | nil =>
      cases decided
      simp [SublistForall₂.nil]
    | cons signature signatures =>
      cases decided
      constructor
      · intro impossible
        cases impossible
      · intro matching
        cases matching
  | cons key keys ih =>
    cases signatures with
    | nil =>
      cases decided
      simp [SublistForall₂.nil]
    | cons signature signatures =>
      unfold matchInOrder at decided
      split at decided
      next few =>
        cases decided
        constructor
        · intro impossible
          cases impossible
        · intro matching
          have enough := length_le_of_sublistForall₂ matching
          simp only [List.length_cons] at enough
          omega
      next =>
        obtain ⟨verdict, checked, rest⟩ := except_bind_eq_ok.mp decided
        cases verdict with
        | true =>
          have taken : Accepts check signature key := checked
          rw [ih rest, sublistForall₂_cons_iff_of_accepts taken]
        | false =>
          have refused : ¬ Accepts check signature key := by
            simp [Accepts, checked]
          rw [ih rest, sublistForall₂_cons_iff_of_not_accepts refused]

/-- The walk fails only where a check does. -/
theorem exists_check_of_matchInOrder_eq_error {e : Error}
    (failed : matchInOrder check signatures keys = .error e) :
    ∃ signature key, check signature key = .error e := by
  induction keys generalizing signatures with
  | nil => cases signatures <;> cases failed
  | cons key keys ih =>
    cases signatures with
    | nil => cases failed
    | cons signature signatures =>
      unfold matchInOrder at failed
      split at failed
      next => cases failed
      next =>
        obtain here | ⟨verdict, -, later⟩ := except_bind_eq_error.mp failed
        · exact ⟨signature, key, here⟩
        · cases verdict with
          | true => exact ih later
          | false => exact ih later

end

/-! ### The record of the walk -/

def SignatureCheck.accepted (c : SignatureCheck) : Bool :=
  match c.verdict with
  | .ok accepted => accepted
  | .error _ => false

/-- The checks walk along both lists: each one is of the next key, and of the signature that comes
after those accepted before. -/
def ChecksInOrder (check : Bytes → Bytes → Except Error Bool) (signatures keys : List Bytes)
    (made : List SignatureCheck) : Prop :=
  ∀ (t : Nat) (c : SignatureCheck), made[t]? = some c →
    keys[t]? = some c.key ∧
    signatures[(made.take t).countP (·.accepted)]? = some c.signature ∧
    c.verdict = check c.signature c.key

namespace ChecksInOrder

variable {check : Bytes → Bytes → Except Error Bool} {signature key : Bytes}
  {signatures keys : List Bytes} {made : List SignatureCheck}

theorem nil : ChecksInOrder check signatures keys [] := by
  intro t c here
  simp at here

/-- The keys are taken one after the other. -/
theorem keys_prefix (inOrder : ChecksInOrder check signatures keys made) :
    made.map (·.key) <+: keys := by
  rw [List.prefix_iff_getElem?]
  intro t inside
  rw [List.length_map] at inside
  obtain ⟨ofKey, -⟩ := inOrder t made[t] (List.getElem?_eq_getElem inside)
  rw [ofKey, List.getElem_map]

theorem cons_of_accepted (accepted : check signature key = .ok true)
    (rest : ChecksInOrder check signatures keys made) :
    ChecksInOrder check (signature :: signatures) (key :: keys)
      (⟨signature, key, check signature key⟩ :: made) := by
  intro t c here
  cases t with
  | zero =>
    cases here
    exact ⟨rfl, rfl, rfl⟩
  | succ t =>
    obtain ⟨ofKey, ofSignature, verdict⟩ := rest t c here
    refine ⟨ofKey, ?_, verdict⟩
    simpa [SignatureCheck.accepted, accepted] using ofSignature

theorem cons_of_not_accepted (refused : check signature key ≠ .ok true)
    (rest : ChecksInOrder check (signature :: signatures) keys made) :
    ChecksInOrder check (signature :: signatures) (key :: keys)
      (⟨signature, key, check signature key⟩ :: made) := by
  have passedOver : SignatureCheck.accepted ⟨signature, key, check signature key⟩ = false := by
    unfold SignatureCheck.accepted
    split
    next accepted verdict =>
      cases accepted with
      | true => exact absurd verdict refused
      | false => rfl
    next => rfl
  intro t c here
  cases t with
  | zero =>
    cases here
    exact ⟨rfl, rfl, rfl⟩
  | succ t =>
    obtain ⟨ofKey, ofSignature, verdict⟩ := rest t c here
    refine ⟨ofKey, ?_, verdict⟩
    simpa [passedOver] using ofSignature

end ChecksInOrder

namespace Machine

/-! ### The loop over positions -/

theorem entryAt_of_lt {entries : List Bytes} {position : Nat} (inside : position < entries.length) :
    entryAt entries position = pure entries[position] := by
  rw [entryAt, List.getElem?_eq_getElem inside]

/-- The loop looks at no position beyond the end of a list, whatever the checks say: it walks along
what is left of both. -/
theorem matchFrom_eq {accepts : Bytes → Bytes → MachineM Bool} {signatures keys : List Bytes}
    {i j : Nat} (within : j ≤ keys.length) :
    matchFrom accepts signatures keys i j =
      matchInOrder accepts (signatures.drop i) (keys.drop j) := by
  fun_induction matchFrom accepts signatures keys i j with
  | case1 i j matched =>
    rw [List.drop_eq_nil_of_le matched, matchInOrder]
  | case2 i j more outside => omega
  | case3 i j more inside few =>
    rw [List.drop_eq_getElem_cons (Nat.not_le.mp more)]
    cases rest : keys.drop j with
    | nil => rfl
    | cons key rest =>
      have length := congrArg List.length rest
      rw [List.length_drop, List.length_cons] at length
      rw [matchInOrder, if_pos]
      rw [List.length_drop]
      omega
  | case4 i j more inside enough ih =>
    have inSignatures := Nat.not_le.mp more
    have inKeys : j < keys.length := by omega
    have enough' : ¬ (keys.drop (j + 1)).length < (signatures.drop (i + 1)).length := by
      rw [List.length_drop, List.length_drop]
      omega
    rw [entryAt_of_lt inSignatures, entryAt_of_lt inKeys, pure_bind, pure_bind,
      List.drop_eq_getElem_cons inSignatures, List.drop_eq_getElem_cons inKeys, matchInOrder,
      if_neg enough']
    congr 1
    funext accepted
    cases accepted with
    | true => exact ih true inKeys
    | false =>
      rw [← List.drop_eq_getElem_cons inSignatures]
      exact ih false inKeys

theorem matchFrom_start (accepts : Bytes → Bytes → MachineM Bool) (signatures keys : List Bytes) :
    matchFrom accepts signatures keys 0 0 = matchInOrder accepts signatures keys :=
  matchFrom_eq (Nat.zero_le _)

/-- An action that ends in a state with a result found elsewhere. -/
def finish {α : Type} (result : Except Error α) (s : State) : EStateM.Result Error State α :=
  match result with
  | .ok value => .ok value s
  | .error e => .error e s

variable {env : Environment} {connected : Script}

theorem checkRecorded_eq (signature key : Bytes) (s : State) :
    checkRecorded env connected signature key s =
      finish (env.checkSignature connected signature key)
        { s with
          checks := ⟨signature, key, env.checkSignature connected signature key⟩ :: s.checks } := by
  unfold checkRecorded finish
  cases env.checkSignature connected signature key <;> rfl

/-- The machine decides as the checks alone would, and keeps a record of them that walks along both
lists. When all signatures are matched, each of them was accepted once. -/
theorem matchInOrder_checkRecorded (signatures keys : List Bytes) (s : State) :
    ∃ made, ChecksInOrder (env.checkSignature connected) signatures keys made ∧
      (matchInOrder (env.checkSignature connected) signatures keys = .ok true →
        made.countP (·.accepted) = signatures.length) ∧
      matchInOrder (checkRecorded env connected) signatures keys s =
        finish (matchInOrder (env.checkSignature connected) signatures keys)
          { s with checks := made.reverse ++ s.checks } := by
  induction keys generalizing signatures s with
  | nil =>
    cases signatures with
    | nil => exact ⟨[], .nil, fun _ => rfl, rfl⟩
    | cons signature signatures => exact ⟨[], .nil, by simp [matchInOrder, pure, Except.pure], rfl⟩
  | cons key keys ih =>
    cases signatures with
    | nil => exact ⟨[], .nil, fun _ => rfl, rfl⟩
    | cons signature signatures =>
      unfold matchInOrder
      by_cases few : keys.length < signatures.length
      · rw [if_pos few, if_pos few]
        exact ⟨[], .nil, by simp [pure, Except.pure], rfl⟩
      · rw [if_neg few, if_neg few]
        let c : SignatureCheck := ⟨signature, key, env.checkSignature connected signature key⟩
        have behind (made : List SignatureCheck) :
            (c :: made).reverse ++ s.checks = made.reverse ++ c :: s.checks := by simp
        have recorded : checkRecorded env connected signature key s =
            finish (env.checkSignature connected signature key)
              { s with checks := c :: s.checks } :=
          checkRecorded_eq signature key s
        cases verdict : env.checkSignature connected signature key with
        | error e =>
          rw [verdict] at recorded
          refine ⟨[c], .cons_of_not_accepted (by simp [verdict]) .nil,
            by simp [bind, Except.bind], ?_⟩
          rw [estate_bind_of_error recorded]
          simp only [c, verdict]
          rfl
        | ok accepted =>
          rw [verdict] at recorded
          rw [estate_bind_of_ok recorded, except_bind_of_ok rfl]
          cases accepted with
          | true =>
            obtain ⟨made, inOrder, complete, ran⟩ :=
              ih signatures { s with checks := c :: s.checks }
            refine ⟨c :: made, .cons_of_accepted verdict inOrder, fun all => ?_, ?_⟩
            · have good : c.accepted = true := by simp [c, SignatureCheck.accepted, verdict]
              rw [List.countP_cons_of_pos good, complete all, List.length_cons]
            · rw [behind]
              simpa [c, verdict] using ran
          | false =>
            obtain ⟨made, inOrder, complete, ran⟩ :=
              ih (signature :: signatures) { s with checks := c :: s.checks }
            refine ⟨c :: made, .cons_of_not_accepted (by simp [verdict]) inOrder, fun all => ?_, ?_⟩
            · have refused : ¬ c.accepted = true := by simp [c, SignatureCheck.accepted, verdict]
              rw [List.countP_cons_of_neg refused, complete all]
            · rw [behind]
              simpa [c, verdict] using ran

/-- So the loop over positions ends as the checks alone would. -/
theorem matchFrom_checkRecorded (signatures keys : List Bytes) (s : State) :
    ∃ made, ChecksInOrder (env.checkSignature connected) signatures keys made ∧
      (matchInOrder (env.checkSignature connected) signatures keys = .ok true →
        made.countP (·.accepted) = signatures.length) ∧
      matchFrom (checkRecorded env connected) signatures keys 0 0 s =
        finish (matchInOrder (env.checkSignature connected) signatures keys)
          { s with checks := made.reverse ++ s.checks } := by
  rw [matchFrom_start]
  exact matchInOrder_checkRecorded signatures keys s

end Machine

end TokenLedger
