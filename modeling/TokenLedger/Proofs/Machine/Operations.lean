import TokenLedger.Machine.Stack
import TokenLedger.Proofs.Outcome

/-!
# What operations on the stack do

An operation that does not fail takes its operands from the top of the stack and leaves its results
there. Each case is said once here, with the operands that were read, so that whatever holds of all
operations is proved from these cases and not from the text of their definition.
-/

namespace TokenLedger.StackOp

/-- The operation turns the first stack into the second one. -/
inductive Applies (minimal : Bool) : StackOp → Stack → Stack → Prop where
  | push {bytes : Bytes} {stack : Stack} : Applies minimal (.push bytes) stack (bytes :: stack)
  | shuffle {op : Shuffle} {stack result : Stack} (moved : op.apply? stack = some result) :
      Applies minimal (.shuffle op) stack result
  | ifDup {a : Bytes} {rest : Stack} :
      Applies minimal .ifDup (a :: rest)
        (if ScriptNumber.isTrue a then a :: a :: rest else a :: rest)
  | depth {stack : Stack} :
      Applies minimal .depth stack (ScriptNumber.encode stack.length :: stack)
  | size {a : Bytes} {rest : Stack} :
      Applies minimal .size (a :: rest) (ScriptNumber.encode a.length :: a :: rest)
  | pick {n element : Bytes} {rest : Stack} {depth : Int} {index : Nat}
      (reads : operand minimal n = .ok depth)
      (found : elementAt rest depth = .ok (index, element)) :
      Applies minimal .pick (n :: rest) (element :: rest)
  | roll {n element : Bytes} {rest : Stack} {depth : Int} {index : Nat}
      (reads : operand minimal n = .ok depth)
      (found : elementAt rest depth = .ok (index, element)) :
      Applies minimal .roll (n :: rest) (element :: rest.eraseIdx index)
  | verify {a : Bytes} {rest : Stack} (good : ScriptNumber.isTrue a = true) :
      Applies minimal .verify (a :: rest) rest
  | equal {a b : Bytes} {rest : Stack} :
      Applies minimal .equal (a :: b :: rest) (ScriptNumber.ofBool (a == b) :: rest)
  | equalVerify {a : Bytes} {rest : Stack} : Applies minimal .equalVerify (a :: a :: rest) rest
  | unary {op : UnaryOp} {a : Bytes} {rest : Stack} {n : Int}
      (reads : operand minimal a = .ok n) :
      Applies minimal (.unary op) (a :: rest) (ScriptNumber.encode (op.apply n) :: rest)
  | binary {op : BinaryOp} {a b : Bytes} {rest : Stack} {m n : Int}
      (readsSecond : operand minimal b = .ok n) (readsFirst : operand minimal a = .ok m) :
      Applies minimal (.binary op) (b :: a :: rest) (ScriptNumber.encode (op.apply m n) :: rest)
  | numEqualVerify {a b : Bytes} {rest : Stack} {n : Int}
      (readsSecond : operand minimal b = .ok n) (readsFirst : operand minimal a = .ok n) :
      Applies minimal .numEqualVerify (b :: a :: rest) rest
  | within {upper lower a : Bytes} {rest : Stack} {most least n : Int}
      (readsUpper : operand minimal upper = .ok most)
      (readsLower : operand minimal lower = .ok least) (reads : operand minimal a = .ok n) :
      Applies minimal .within (upper :: lower :: a :: rest)
        (ScriptNumber.ofBool (least ≤ n && n < most) :: rest)
  | hash {op : HashOp} {a : Bytes} {rest : Stack} :
      Applies minimal (.hash op) (a :: rest) (op.apply a :: rest)

variable {minimal : Bool} {op : StackOp} {stack result : Stack}

theorem applies_of_apply (applied : op.apply minimal stack = .ok result) :
    Applies minimal op stack result := by
  cases op with
  | push bytes =>
    cases applied
    exact .push
  | shuffle op =>
    cases moved : op.apply? stack with
    | none =>
      rw [apply, moved] at applied
      cases applied
    | some shuffled =>
      rw [apply, moved] at applied
      cases applied
      exact .shuffle moved
  | depth =>
    cases applied
    exact .depth
  | ifDup =>
    rcases stack with _ | ⟨a, rest⟩ <;> cases applied
    exact .ifDup
  | size =>
    rcases stack with _ | ⟨a, rest⟩ <;> cases applied
    exact .size
  | hash op =>
    rcases stack with _ | ⟨a, rest⟩ <;> cases applied
    exact .hash
  | pick =>
    rcases stack with _ | ⟨n, rest⟩
    · cases applied
    · obtain ⟨depth, reads, applied⟩ := except_bind_eq_ok.mp applied
      obtain ⟨⟨index, element⟩, found, applied⟩ := except_bind_eq_ok.mp applied
      cases applied
      exact .pick reads found
  | roll =>
    rcases stack with _ | ⟨n, rest⟩
    · cases applied
    · obtain ⟨depth, reads, applied⟩ := except_bind_eq_ok.mp applied
      obtain ⟨⟨index, element⟩, found, applied⟩ := except_bind_eq_ok.mp applied
      cases applied
      exact .roll reads found
  | verify =>
    rcases stack with _ | ⟨a, rest⟩
    · cases applied
    · rw [apply] at applied
      split at applied
      next good =>
        cases applied
        exact .verify good
      next => cases applied
  | equal =>
    rcases stack with _ | ⟨a, _ | ⟨b, rest⟩⟩ <;> cases applied
    exact .equal
  | equalVerify =>
    rcases stack with _ | ⟨a, _ | ⟨b, rest⟩⟩
    · cases applied
    · cases applied
    · rw [apply] at applied
      split at applied
      next same =>
        cases applied
        cases same
        exact .equalVerify
      next => cases applied
  | unary op =>
    rcases stack with _ | ⟨a, rest⟩
    · cases applied
    · obtain ⟨n, reads, applied⟩ := except_bind_eq_ok.mp applied
      cases applied
      exact .unary reads
  | binary op =>
    rcases stack with _ | ⟨b, _ | ⟨a, rest⟩⟩
    · cases applied
    · cases applied
    · obtain ⟨n, readsSecond, applied⟩ := except_bind_eq_ok.mp applied
      obtain ⟨m, readsFirst, applied⟩ := except_bind_eq_ok.mp applied
      cases applied
      exact .binary readsSecond readsFirst
  | numEqualVerify =>
    rcases stack with _ | ⟨b, _ | ⟨a, rest⟩⟩
    · cases applied
    · cases applied
    · obtain ⟨n, readsSecond, applied⟩ := except_bind_eq_ok.mp applied
      obtain ⟨m, readsFirst, applied⟩ := except_bind_eq_ok.mp applied
      split at applied
      next same =>
        cases applied
        cases same
        exact .numEqualVerify readsSecond readsFirst
      next => cases applied
  | within =>
    rcases stack with _ | ⟨upper, _ | ⟨lower, _ | ⟨a, rest⟩⟩⟩
    · cases applied
    · cases applied
    · cases applied
    · obtain ⟨most, readsUpper, applied⟩ := except_bind_eq_ok.mp applied
      obtain ⟨least, readsLower, applied⟩ := except_bind_eq_ok.mp applied
      obtain ⟨n, reads, applied⟩ := except_bind_eq_ok.mp applied
      cases applied
      exact .within readsUpper readsLower reads

theorem Applies.apply_eq_ok (applies : Applies minimal op stack result) :
    op.apply minimal stack = .ok result := by
  cases applies with
  | push | ifDup | depth | size | equal | hash => rfl
  | shuffle moved => rw [apply, moved]
  | pick reads found | roll reads found =>
    exact except_bind_eq_ok.mpr ⟨_, reads, except_bind_eq_ok.mpr ⟨_, found, rfl⟩⟩
  | verify good => exact if_pos good
  | equalVerify => exact if_pos rfl
  | unary reads => exact except_bind_eq_ok.mpr ⟨_, reads, rfl⟩
  | binary readsSecond readsFirst =>
    exact except_bind_eq_ok.mpr ⟨_, readsSecond, except_bind_eq_ok.mpr ⟨_, readsFirst, rfl⟩⟩
  | numEqualVerify readsSecond readsFirst =>
    exact except_bind_eq_ok.mpr
      ⟨_, readsSecond, except_bind_eq_ok.mpr ⟨_, readsFirst, if_pos rfl⟩⟩
  | within readsUpper readsLower reads =>
    exact except_bind_eq_ok.mpr ⟨_, readsUpper,
      except_bind_eq_ok.mpr ⟨_, readsLower, except_bind_eq_ok.mpr ⟨_, reads, rfl⟩⟩⟩

theorem apply_eq_ok_iff : op.apply minimal stack = .ok result ↔ Applies minimal op stack result :=
  ⟨applies_of_apply, Applies.apply_eq_ok⟩

end TokenLedger.StackOp
