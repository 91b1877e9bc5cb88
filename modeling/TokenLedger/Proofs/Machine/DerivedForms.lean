import TokenLedger.Proofs.Machine.Operations
import TokenLedger.Proofs.Machine.Pushes

/-!
# Derived forms of stack instructions

The instructions that move and compare elements at fixed places can be put together from others: the
copies and moves from those that take the place as a number, and a comparison that has to hold from
one that leaves its verdict. A row of codes that act on nothing but the stack does what its
operations do one after the other, as long as there is room, so the two sides are compared as
operations, on stacks of every depth.
-/

namespace TokenLedger

/-! ### Rows of operations -/

namespace StackOp

variable {minimal : Bool} {stack final : Stack} {bytes : Bytes} {ops others : List StackOp}

/-- The operations one after the other. -/
def applyAll (minimal : Bool) (ops : List StackOp) (stack : Stack) : Except Error Stack :=
  ops.foldlM (fun stack op => op.apply minimal stack) stack

theorem applyAll_cons (op : StackOp) (ops : List StackOp) (stack : Stack) :
    applyAll minimal (op :: ops) stack = op.apply minimal stack >>= applyAll minimal ops := rfl

/-- By how many elements an operation makes the stack longer at most. -/
def growth : StackOp → Nat
  | push _ | ifDup | depth | size | shuffle .dup | shuffle .over1 | shuffle .tuck => 1
  | shuffle .dup2 | shuffle .over2 => 2
  | shuffle .dup3 => 3
  | _ => 0

theorem length_le_of_shuffle {op : Shuffle} (moved : op.apply? stack = some final) :
    final.length ≤ stack.length + (shuffle op).growth := by
  unfold Shuffle.apply? at moved
  split at moved <;> cases moved <;> simp only [List.length_cons, growth] <;> omega

theorem length_le_of_apply_growth {op : StackOp} (applied : op.apply minimal stack = .ok final) :
    final.length ≤ stack.length + op.growth := by
  cases apply_eq_ok_iff.mp applied with
  | push | depth | size | pick | unary | hash => exact Nat.le_refl _
  | shuffle moved => exact length_le_of_shuffle moved
  | ifDup => split <;> simp [growth]
  | roll reads found =>
    simp only [List.length_cons, growth, Nat.add_zero]
    exact Nat.add_le_add_right (List.length_eraseIdx_le _ _) 1
  -- The others put at most one element in the place of those that they take.
  | verify | equal | equalVerify | binary | numEqualVerify | within =>
    simp only [List.length_cons, growth]
    omega

/-! ### Places given by numbers -/

/-- A number and PICK copy the element at that place. -/
theorem applyAll_pick {n : Nat} (reads : operand minimal bytes = .ok (n : Int)) (ops : List StackOp)
    (stack : Stack) :
    applyAll minimal (push bytes :: pick :: ops) stack =
      stack[n]?.elim (.error underflow) fun element => applyAll minimal ops (element :: stack) := by
  have pushed : (push bytes).apply minimal stack = .ok (bytes :: stack) := rfl
  have picked : pick.apply minimal (bytes :: stack) =
      (elementAt stack n).map fun found => found.2 :: stack := by
    simp only [apply, reads]
    rfl
  rw [applyAll_cons, except_bind_of_ok pushed, applyAll_cons, picked, elementAt,
    if_neg (Int.not_lt.mpr (Int.natCast_nonneg n)), Int.toNat_natCast]
  cases stack[n]? <;> rfl

/-- A number and ROLL move the element at that place. -/
theorem applyAll_roll {n : Nat} (reads : operand minimal bytes = .ok (n : Int)) (ops : List StackOp)
    (stack : Stack) :
    applyAll minimal (push bytes :: roll :: ops) stack =
      stack[n]?.elim (.error underflow) fun element =>
        applyAll minimal ops (element :: stack.eraseIdx n) := by
  have pushed : (push bytes).apply minimal stack = .ok (bytes :: stack) := rfl
  have rolled : roll.apply minimal (bytes :: stack) =
      (elementAt stack n).map fun found => found.2 :: stack.eraseIdx found.1 := by
    simp only [apply, reads]
    rfl
  rw [applyAll_cons, except_bind_of_ok pushed, applyAll_cons, rolled, elementAt,
    if_neg (Int.not_lt.mpr (Int.natCast_nonneg n)), Int.toNat_natCast]
  cases stack[n]? <;> rfl

/-! ### The laws -/

/-- Two rows fail on the same stacks, and leave the same elsewhere. -/
def Agree (ops others : List StackOp) : Prop :=
  ∀ minimal stack, (applyAll minimal ops stack).toOption = (applyAll minimal others stack).toOption

/-- What the code of a number does. -/
def number (n : Nat) : StackOp := push (ScriptNumber.encode (n : Int))

theorem operand_nil (minimal : Bool) : operand minimal [] = .ok ((0 : Nat) : Int) := by
  cases minimal <;> rfl

theorem agree_dup : Agree [shuffle .dup] [push [], pick] := by
  intro minimal stack
  rw [applyAll_pick (operand_nil minimal)]
  cases stack <;> rfl

theorem agree_over : Agree [shuffle .over1] [number 1, pick] := by
  intro minimal stack
  rw [number, applyAll_pick (ScriptNumber.operand_encode (by decide) minimal)]
  match stack with
  | [] | [_] | _ :: _ :: _ => rfl

theorem agree_swap : Agree [shuffle .swap] [number 1, roll] := by
  intro minimal stack
  rw [number, applyAll_roll (ScriptNumber.operand_encode (by decide) minimal)]
  match stack with
  | [] | [_] | _ :: _ :: _ => rfl

theorem agree_rot : Agree [shuffle .rot] [number 2, roll] := by
  intro minimal stack
  rw [number, applyAll_roll (ScriptNumber.operand_encode (by decide) minimal)]
  match stack with
  | [] | [_] | [_, _] | _ :: _ :: _ :: _ => rfl

theorem agree_nip : Agree [shuffle .nip] [shuffle .swap, shuffle .drop] := by
  intro minimal stack
  match stack with
  | [] | [_] | _ :: _ :: _ => rfl

theorem agree_tuck : Agree [shuffle .tuck] [shuffle .swap, shuffle .over1] := by
  intro minimal stack
  match stack with
  | [] | [_] | _ :: _ :: _ => rfl

theorem agree_drop2 : Agree [shuffle .drop2] [shuffle .drop, shuffle .drop] := by
  intro minimal stack
  match stack with
  | [] | [_] | _ :: _ :: _ => rfl

theorem agree_dup2 : Agree [shuffle .dup2] [shuffle .over1, shuffle .over1] := by
  intro minimal stack
  match stack with
  | [] | [_] | _ :: _ :: _ => rfl

theorem agree_dup3 : Agree [shuffle .dup3] [number 2, pick, number 2, pick, number 2, pick] := by
  intro minimal stack
  have reads : operand minimal (ScriptNumber.encode (2 : Nat)) = .ok ((2 : Nat) : Int) :=
    ScriptNumber.operand_encode (by decide) minimal
  rw [number, applyAll_pick reads]
  match stack with
  | [] | [_] | [_, _] => rfl
  | _ :: _ :: _ :: _ =>
    simp only [List.getElem?_cons_succ, List.getElem?_cons_zero, applyAll_pick reads]
    rfl

theorem agree_over2 : Agree [shuffle .over2] [number 3, pick, number 3, pick] := by
  intro minimal stack
  have reads : operand minimal (ScriptNumber.encode (3 : Nat)) = .ok ((3 : Nat) : Int) :=
    ScriptNumber.operand_encode (by decide) minimal
  rw [number, applyAll_pick reads]
  match stack with
  | [] | [_] | [_, _] | [_, _, _] => rfl
  | _ :: _ :: _ :: _ :: _ =>
    simp only [List.getElem?_cons_succ, List.getElem?_cons_zero, applyAll_pick reads]
    rfl

theorem agree_swap2 : Agree [shuffle .swap2] [number 3, roll, number 3, roll] := by
  intro minimal stack
  have reads : operand minimal (ScriptNumber.encode (3 : Nat)) = .ok ((3 : Nat) : Int) :=
    ScriptNumber.operand_encode (by decide) minimal
  rw [number, applyAll_roll reads]
  match stack with
  | [] | [_] | [_, _] | [_, _, _] => rfl
  | _ :: _ :: _ :: _ :: _ =>
    simp only [List.getElem?_cons_succ, List.getElem?_cons_zero, List.eraseIdx_cons_succ,
      List.eraseIdx_cons_zero, applyAll_roll reads]
    rfl

theorem agree_rot2 : Agree [shuffle .rot2] [number 5, roll, number 5, roll] := by
  intro minimal stack
  have reads : operand minimal (ScriptNumber.encode (5 : Nat)) = .ok ((5 : Nat) : Int) :=
    ScriptNumber.operand_encode (by decide) minimal
  rw [number, applyAll_roll reads]
  match stack with
  | [] | [_] | [_, _] | [_, _, _] | [_, _, _, _] | [_, _, _, _, _] => rfl
  | _ :: _ :: _ :: _ :: _ :: _ :: _ =>
    simp only [List.getElem?_cons_succ, List.getElem?_cons_zero, List.eraseIdx_cons_succ,
      List.eraseIdx_cons_zero, applyAll_roll reads]
    rfl

/-- The verdict is left and looked at. The causes of a failure differ. -/
theorem agree_equalVerify : Agree [equalVerify] [equal, verify] := by
  intro minimal stack
  match stack with
  | [] | [_] => rfl
  | a :: b :: rest =>
    have left : applyAll minimal [equal, verify] (a :: b :: rest) =
        verify.apply minimal (ScriptNumber.ofBool (a == b) :: rest) >>= pure := rfl
    have right : applyAll minimal [equalVerify] (a :: b :: rest) =
        (if a = b then .ok rest else .error (.evaluation .equalVerifyFailed)) >>= pure := rfl
    rw [left, right]
    by_cases same : a = b
    · rw [if_pos same, beq_iff_eq.mpr same]
      rfl
    · rw [if_neg same, beq_false_of_ne same]
      rfl

theorem agree_numEqualVerify : Agree [numEqualVerify] [binary .equal, verify] := by
  intro minimal stack
  match stack with
  | [] | [_] => rfl
  | b :: a :: rest =>
    simp only [applyAll, List.foldlM_cons, List.foldlM_nil, apply, bind_assoc]
    cases operand minimal b with
    | error e => rfl
    | ok n =>
      cases operand minimal a with
      | error e => rfl
      | ok m =>
        by_cases same : m = n
        · have verdict : ScriptNumber.encode (BinaryOp.equal.apply m n) = [1] := by
            rw [BinaryOp.apply, if_pos same]
            exact ScriptNumber.encode_of_lt (n := 1) (by decide) (by decide)
          simp only [bind, Except.bind, pure, Except.pure, verdict, if_pos same]
          rfl
        · have verdict : ScriptNumber.encode (BinaryOp.equal.apply m n) = [] := by
            rw [BinaryOp.apply, if_neg same, ScriptNumber.encode_zero]
          simp only [bind, Except.bind, pure, Except.pure, verdict, if_neg same]
          rfl

end StackOp

/-! ### Rows of codes -/

/-- The operation of a code that acts on nothing but the stack. -/
def StackOp.ofCode? (code : UInt8) : Option StackOp :=
  if code = Opcode.empty then some (.push [])
  else
    match Instruction.ofCode code with
    | .stack op => some op
    | _ => none

/-- The chunk of a code that stands alone. The first code announces that no data follow. -/
def Chunk.ofCode (code : UInt8) : Chunk :=
  if code = Opcode.empty then .push code [] else .op code

theorem StackOp.ofCode?_cases {code : UInt8} {op : StackOp} (means : ofCode? code = some op) :
    code = Opcode.empty ∧ op = .push [] ∧ Chunk.ofCode code = .push Opcode.empty [] ∨
      Opcode.pushData4 < code ∧ Instruction.ofCode code = .stack op ∧
        Chunk.ofCode code = .op code := by
  unfold ofCode? at means
  split at means
  next empty =>
    cases means
    exact .inl ⟨empty, rfl, by rw [Chunk.ofCode, if_pos empty, empty]⟩
  next other =>
    split at means
    next meaning =>
      cases means
      refine .inr ⟨?_, meaning, if_neg other⟩
      by_contra within
      have announces : code < Opcode.minusOne := by
        rw [UInt8.lt_iff_toNat_lt] at within ⊢
        have next : Opcode.minusOne.toNat = Opcode.pushData4.toNat + 1 := rfl
        omega
      rw [Instruction.ofCode, if_pos announces] at meaning
      cases meaning
    next => cases means

theorem Chunk.wellFormed_ofCode {code : UInt8} {op : StackOp}
    (means : StackOp.ofCode? code = some op) : (ofCode code).WellFormed := by
  obtain ⟨-, -, chunk⟩ | ⟨beyond, -, chunk⟩ := StackOp.ofCode?_cases means
  · rw [chunk]
    exact .direct (by decide) rfl
  · rw [chunk]
    exact .op beyond

theorem Chunk.encode_ofCode (code : UInt8) : (ofCode code).encode = [code] := by
  unfold ofCode
  split
  next empty =>
    subst empty
    rfl
  next => rfl

namespace Machine

variable {env : Environment} {s s' : State} {value : Unit} {offset : Nat}

/-- A code does what its operation does, and counts if it is above the numbers. -/
theorem step_ofCode_eq_ok_iff {code : UInt8} {op : StackOp} (means : StackOp.ofCode? code = some op)
    (active : s.isActive = true) :
    step env ⟨Chunk.ofCode code, offset⟩ s = .ok value s' ↔
      (Opcode.sixteen < code → s.operations + 1 ≤ Limits.operations) ∧
        ∃ stack, op.apply env.flags.requiresMinimal s.stack = .ok stack ∧
          stack.length + s.altStack.length ≤ Limits.stackSize ∧
          s' = counted code { s with stack } := by
  obtain ⟨rfl, rfl, chunk⟩ | ⟨-, meaning, chunk⟩ := StackOp.ofCode?_cases means
  · rw [chunk, step_push_of_active active]
    constructor
    · rintro ⟨-, -, room, rfl⟩
      exact ⟨fun counts => absurd counts (by decide), _, rfl, room, rfl⟩
    · rintro ⟨-, stack, applied, room, rfl⟩
      cases applied
      exact ⟨Nat.zero_le _, fun _ => rfl, room, rfl⟩
  · rw [chunk, step_op_eq_ok_iff, stepCode_eq_ok_iff, meaning, active, Bool.true_or, if_pos rfl,
      execute, onStack_eq_ok_iff]
    constructor
    · rintro ⟨⟨budget, stack, applied, rfl⟩, room⟩
      exact ⟨budget, stack, applied, room, rfl⟩
    · rintro ⟨budget, stack, applied, room, rfl⟩
      exact ⟨⟨budget, stack, applied, rfl⟩, room⟩

/-- A row of codes does what its operations do, as long as they fit into the budget and there is
room for all that they may add. -/
theorem steps_place_ofCode_eq_ok_iff {codes : List UInt8} {ops : List StackOp}
    (mean : codes.map StackOp.ofCode? = ops.map some) (active : s.isActive = true)
    (few : s.operations + codes.length ≤ Limits.operations)
    (room : s.stack.length + (ops.map StackOp.growth).sum + s.altStack.length ≤ Limits.stackSize) :
    steps env (Script.place offset (codes.map Chunk.ofCode)) s = .ok value s' ↔
      ∃ stack, StackOp.applyAll env.flags.requiresMinimal ops s.stack = .ok stack ∧
        s' = { s with stack, operations := s.operations + codes.countP (Opcode.sixteen < ·) } := by
  induction codes generalizing ops s offset with
  | nil =>
    obtain rfl : ops = [] := by simpa using mean.symm
    simp [Script.place, steps_nil_eq_ok_iff, StackOp.applyAll, pure, Except.pure]
  | cons code codes ih =>
    cases ops with
    | nil => simp at mean
    | cons op ops =>
      obtain ⟨means, meanRest⟩ := List.cons.inj mean
      rw [List.length_cons] at few
      rw [List.map_cons, List.sum_cons] at room
      have budget : Opcode.sixteen < code → s.operations + 1 ≤ Limits.operations := by omega
      have total : s.operations + (code :: codes).countP (Opcode.sixteen < ·) =
          s.operations + (if Opcode.sixteen < code then 1 else 0) +
            codes.countP (Opcode.sixteen < ·) := by
        simp only [List.countP_cons, decide_eq_true_eq]
        omega
      have further {stack : Stack}
          (applied : op.apply env.flags.requiresMinimal s.stack = .ok stack) (offset : Nat) :
          stack.length + s.altStack.length ≤ Limits.stackSize ∧
          (steps env (Script.place offset (codes.map Chunk.ofCode))
              (counted code { s with stack }) = .ok value s' ↔
            ∃ left, StackOp.applyAll env.flags.requiresMinimal ops stack = .ok left ∧
              s' = { s with
                stack := left
                operations := s.operations + (code :: codes).countP (Opcode.sixteen < ·) }) := by
        have longer := StackOp.length_le_of_apply_growth applied
        rw [total]
        refine ⟨by omega, ih meanRest active ?_ ?_⟩
        · simp only [counted]
          split <;> omega
        · simp only [counted]
          omega
      rw [List.map_cons, Script.place, steps_cons_eq_ok_iff]
      constructor
      · rintro ⟨between, stepped, rest⟩
        obtain ⟨-, stack, applied, -, rfl⟩ := (step_ofCode_eq_ok_iff means active).mp stepped
        obtain ⟨left, ran, same⟩ := (further applied _).2.mp rest
        exact ⟨left, except_bind_eq_ok.mpr ⟨stack, applied, ran⟩, same⟩
      · rintro ⟨left, ran, same⟩
        obtain ⟨stack, applied, ran⟩ := except_bind_eq_ok.mp ran
        obtain ⟨fits, rest⟩ := further applied (offset + (Chunk.ofCode code).encodedLength)
        exact ⟨_, (step_ofCode_eq_ok_iff means active).mpr ⟨budget, stack, applied, fits, rfl⟩,
          rest.mpr ⟨left, ran, same⟩⟩

end Machine

namespace Script

variable {context : Option SpendContext} {flags : Flags} {stack final : Stack}
  {codes : List UInt8} {ops : List StackOp}

/-- The chunks of a row of codes. -/
theorem parse_ofCodes (mean : codes.map StackOp.ofCode? = ops.map some) :
    parse codes = .ok (assemble (codes.map Chunk.ofCode)) := by
  have good : ∀ chunk ∈ codes.map Chunk.ofCode, chunk.WellFormed := by
    intro chunk mem
    obtain ⟨code, here, rfl⟩ := List.mem_map.mp mem
    have some : StackOp.ofCode? code ∈ ops.map some := mean ▸ List.mem_map_of_mem here
    obtain ⟨op, -, means⟩ := List.mem_map.mp some
    exact Chunk.wellFormed_ofCode means.symm
  have program : (assemble (codes.map Chunk.ofCode)).program = codes := by
    simp only [assemble, List.flatMap_map, Chunk.encode_ofCode, List.flatMap_singleton']
  rw [← parse_assemble good, program]

/-- A script of codes leaves what its operations leave. -/
theorem execute_ofCodes_toOption (mean : codes.map StackOp.ofCode? = ops.map some)
    (few : codes.length ≤ Limits.operations)
    (room : stack.length + (ops.map StackOp.growth).sum ≤ Limits.stackSize) :
    ((assemble (codes.map Chunk.ofCode)).execute context flags stack).toOption =
      (StackOp.applyAll flags.requiresMinimal ops stack).toOption := by
  have ran (s : State) : Machine.steps ⟨context, assemble (codes.map Chunk.ofCode), flags⟩
        (place 0 (codes.map Chunk.ofCode)) { stack } = .ok () s ↔
      ∃ left, StackOp.applyAll flags.requiresMinimal ops stack = .ok left ∧
        s = { stack := left, operations := 0 + codes.countP (Opcode.sixteen < ·) } :=
    Machine.steps_place_ofCode_eq_ok_iff mean rfl (by simpa using few) (by simpa using room)
  refine except_toOption_congr fun final => ?_
  rw [execute_eq_ok_iff]
  constructor
  · rintro ⟨s, steps, -, rfl⟩
    obtain ⟨left, applied, rfl⟩ := (ran s).mp steps
    exact applied
  · intro applied
    exact ⟨_, (ran _).mpr ⟨final, applied, rfl⟩, rfl, rfl⟩

/-- The script of the codes with these names. -/
def ofNames? (names : List String) : Option Script := do
  let codes ← names.mapM Opcode.ofName?
  (parse codes).toOption

theorem ofNames?_eq {names : List String} (resolved : names.mapM Opcode.ofName? = some codes)
    (mean : codes.map StackOp.ofCode? = ops.map some) :
    ofNames? names = some (assemble (codes.map Chunk.ofCode)) := by
  rw [ofNames?, resolved, Option.bind_eq_bind, Option.bind_some, parse_ofCodes mean]
  rfl

/-- The names of codes whose operations agree are those of scripts that agree, where there is room
for both. -/
theorem execute_ofNames_agree {names others : List String} (codes otherCodes : List UInt8)
    {otherOps : List StackOp} (agree : StackOp.Agree ops otherOps)
    (resolved : names.mapM Opcode.ofName? = some codes ∧
      others.mapM Opcode.ofName? = some otherCodes)
    (mean : codes.map StackOp.ofCode? = ops.map some)
    (otherMean : otherCodes.map StackOp.ofCode? = otherOps.map some)
    (few : codes.length ≤ 201 ∧ otherCodes.length ≤ 201)
    (growth : (ops.map StackOp.growth).sum ≤ 10 ∧ (otherOps.map StackOp.growth).sum ≤ 10)
    (room : stack.length ≤ 990) :
    ∃ script other, ofNames? names = some script ∧ ofNames? others = some other ∧
      (script.execute context flags stack).toOption =
        (other.execute context flags stack).toOption := by
  have limits : Limits.operations = 201 ∧ Limits.stackSize = 1000 := ⟨rfl, rfl⟩
  refine ⟨_, _, ofNames?_eq resolved.1 mean, ofNames?_eq resolved.2 otherMean, ?_⟩
  rw [execute_ofCodes_toOption mean (by omega) (by omega),
    execute_ofCodes_toOption otherMean (by omega) (by omega)]
  exact agree _ _

/-- Instructions and what they can be put together from, by the names of their codes. -/
def derivedForms : List (String × List String) :=
  [("DUP", ["0", "PICK"]), ("OVER", ["1", "PICK"]), ("SWAP", ["1", "ROLL"]), ("ROT", ["2", "ROLL"]),
   ("NIP", ["SWAP", "DROP"]), ("TUCK", ["SWAP", "OVER"]),
   ("2DROP", ["DROP", "DROP"]), ("2DUP", ["OVER", "OVER"]),
   ("3DUP", ["2", "PICK", "2", "PICK", "2", "PICK"]), ("2OVER", ["3", "PICK", "3", "PICK"]),
   ("2SWAP", ["3", "ROLL", "3", "ROLL"]), ("2ROT", ["5", "ROLL", "5", "ROLL"]),
   ("EQUALVERIFY", ["EQUAL", "VERIFY"]), ("NUMEQUALVERIFY", ["NUMEQUAL", "VERIFY"])]

/-- An instruction and what it can be put together from fail on the same stacks, and leave the same
stack elsewhere: at every depth that leaves room for what the longer row stacks up on the way. -/
theorem derived_forms_agree {name : String} {form : List String}
    (derived : (name, form) ∈ derivedForms) (context : Option SpendContext) (flags : Flags)
    {stack : Stack} (room : stack.length ≤ 990) :
    ∃ single row, ofNames? [name] = some single ∧ ofNames? form = some row ∧
      (single.execute context flags stack).toOption =
        (row.execute context flags stack).toOption := by
  simp only [derivedForms, List.mem_cons, Prod.mk.injEq, List.not_mem_nil, or_false] at derived
  rcases derived with ⟨rfl, rfl⟩ | ⟨rfl, rfl⟩ | ⟨rfl, rfl⟩ | ⟨rfl, rfl⟩ | ⟨rfl, rfl⟩ | ⟨rfl, rfl⟩ |
    ⟨rfl, rfl⟩ | ⟨rfl, rfl⟩ | ⟨rfl, rfl⟩ | ⟨rfl, rfl⟩ | ⟨rfl, rfl⟩ | ⟨rfl, rfl⟩ | ⟨rfl, rfl⟩ |
    ⟨rfl, rfl⟩
  · exact execute_ofNames_agree [0x76] [0x00, 0x79] StackOp.agree_dup
      (by decide +kernel) rfl rfl (by decide) (by decide) room
  · exact execute_ofNames_agree [0x78] [0x51, 0x79] StackOp.agree_over
      (by decide +kernel) rfl rfl (by decide) (by decide) room
  · exact execute_ofNames_agree [0x7c] [0x51, 0x7a] StackOp.agree_swap
      (by decide +kernel) rfl rfl (by decide) (by decide) room
  · exact execute_ofNames_agree [0x7b] [0x52, 0x7a] StackOp.agree_rot
      (by decide +kernel) rfl rfl (by decide) (by decide) room
  · exact execute_ofNames_agree [0x77] [0x7c, 0x75] StackOp.agree_nip
      (by decide +kernel) rfl rfl (by decide) (by decide) room
  · exact execute_ofNames_agree [0x7d] [0x7c, 0x78] StackOp.agree_tuck
      (by decide +kernel) rfl rfl (by decide) (by decide) room
  · exact execute_ofNames_agree [0x6d] [0x75, 0x75] StackOp.agree_drop2
      (by decide +kernel) rfl rfl (by decide) (by decide) room
  · exact execute_ofNames_agree [0x6e] [0x78, 0x78] StackOp.agree_dup2
      (by decide +kernel) rfl rfl (by decide) (by decide) room
  · exact execute_ofNames_agree [0x6f] [0x52, 0x79, 0x52, 0x79, 0x52, 0x79] StackOp.agree_dup3
      (by decide +kernel) rfl rfl (by decide) (by decide) room
  · exact execute_ofNames_agree [0x70] [0x53, 0x79, 0x53, 0x79] StackOp.agree_over2
      (by decide +kernel) rfl rfl (by decide) (by decide) room
  · exact execute_ofNames_agree [0x72] [0x53, 0x7a, 0x53, 0x7a] StackOp.agree_swap2
      (by decide +kernel) rfl rfl (by decide) (by decide) room
  · exact execute_ofNames_agree [0x71] [0x55, 0x7a, 0x55, 0x7a] StackOp.agree_rot2
      (by decide +kernel) rfl rfl (by decide) (by decide) room
  · exact execute_ofNames_agree [0x88] [0x87, 0x69] StackOp.agree_equalVerify
      (by decide +kernel) rfl rfl (by decide) (by decide) room
  · exact execute_ofNames_agree [0x9d] [0x9c, 0x69] StackOp.agree_numEqualVerify
      (by decide +kernel) rfl rfl (by decide) (by decide) room

/-- The third element copied three times, from a stack that is just deep enough. -/
theorem derived_forms_agree_dup3 :
    ("3DUP", ["2", "PICK", "2", "PICK", "2", "PICK"]) ∈ derivedForms ∧
      [[3], [2], [1]].length ≤ 990 ∧
      ∃ row, ofNames? ["2", "PICK", "2", "PICK", "2", "PICK"] = some row ∧
        (row.execute none ⟨0⟩ [[3], [2], [1]]).toOption = some [[3], [2], [1], [3], [2], [1]] := by
  have derived : ("3DUP", ["2", "PICK", "2", "PICK", "2", "PICK"]) ∈ derivedForms := by decide
  have room : ([[3], [2], [1]] : Stack).length ≤ 990 := by decide
  obtain ⟨single, row, named, rowNamed, same⟩ := derived_forms_agree derived none ⟨0⟩ room
  have resolved : ["3DUP"].mapM Opcode.ofName? = some [0x6f] := by decide +kernel
  have means : [0x6f].map StackOp.ofCode? = [StackOp.shuffle .dup3].map some := rfl
  have known : ofNames? ["3DUP"] = some (assemble [.op 0x6f]) := ofNames?_eq resolved means
  obtain rfl : single = assemble [.op 0x6f] := Option.some.inj (named.symm.trans known)
  exact ⟨derived, room, row, rowNamed, same.symm⟩

end Script

end TokenLedger
