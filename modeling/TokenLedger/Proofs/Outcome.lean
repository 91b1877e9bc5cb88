/-!
# Outcomes of sequenced computations

A sequence succeeds exactly when its first part does and the rest succeeds on what that yields.
Proofs take a successful run apart with these equivalences, and put one together.
-/

namespace TokenLedger

variable {ε σ α β : Type}

theorem except_bind_eq_ok {first : Except ε α} {next : α → Except ε β} {result : β} :
    (first >>= next) = .ok result ↔ ∃ value, first = .ok value ∧ next value = .ok result := by
  cases first with
  | error e => simp [bind, Except.bind]
  | ok value => simp [bind, Except.bind]

theorem except_bind_of_ok {first : Except ε α} {next : α → Except ε β} {value : α}
    (yielded : first = .ok value) : (first >>= next) = next value := by
  rw [yielded]
  rfl

/-- A sequence fails in its first part or in the rest. -/
theorem except_bind_eq_error {first : Except ε α} {next : α → Except ε β} {failure : ε} :
    (first >>= next) = .error failure ↔
      first = .error failure ∨ ∃ value, first = .ok value ∧ next value = .error failure := by
  cases first with
  | error e => simp [bind, Except.bind]
  | ok value => simp [bind, Except.bind]

theorem except_pure_eq_ok {value result : α} :
    (pure value : Except ε α) = .ok result ↔ value = result := by
  simp [pure, Except.pure]

theorem except_map_eq_ok {first : Except ε α} {f : α → β} {result : β} :
    first.map f = .ok result ↔ ∃ value, first = .ok value ∧ f value = result := by
  cases first <;> simp [Except.map]

theorem except_map_eq_error {first : Except ε α} {f : α → β} {failure : ε} :
    first.map f = .error failure ↔ first = .error failure := by
  cases first <;> simp [Except.map]

/-- Computations that succeed with the same values are the same but for the causes of failures. -/
theorem except_toOption_congr {first second : Except ε α}
    (same : ∀ value, first = .ok value ↔ second = .ok value) :
    first.toOption = second.toOption := by
  cases first with
  | ok value => rw [(same value).mp rfl]
  | error e =>
    cases second with
    | ok value => cases (same value).mpr rfl
    | error e' => rfl

section

variable {blocked : Prop} [Decidable blocked] {failure : ε} {next : Except ε α} {result : α}

/-- A guard lets through what it does not block. -/
theorem guard_eq_ok :
    (if blocked then throw failure else next) = .ok result ↔ ¬ blocked ∧ next = .ok result := by
  by_cases h : blocked <;> simp [h, throw, throwThe, MonadExceptOf.throw]

/-- A guard in front of other statements never reaches them. -/
theorem guard_bind_eq_ok {after : β → Except ε α} :
    (if blocked then throw failure >>= after else next) = .ok result ↔
      ¬ blocked ∧ next = .ok result := by
  by_cases h : blocked <;> simp [h, throw, throwThe, MonadExceptOf.throw, bind, Except.bind]

variable {e : ε}

/-- A row of guards fails with the first one that blocks. -/
theorem guard_eq_error :
    (if blocked then throw failure else next) = .error e ↔
      blocked ∧ failure = e ∨ ¬ blocked ∧ next = .error e := by
  by_cases h : blocked <;> simp [h, throw, throwThe, MonadExceptOf.throw]

theorem guard_bind_eq_error {after : β → Except ε α} :
    (if blocked then throw failure >>= after else next) = .error e ↔
      blocked ∧ failure = e ∨ ¬ blocked ∧ next = .error e := by
  by_cases h : blocked <;> simp [h, throw, throwThe, MonadExceptOf.throw, bind, Except.bind]

end

/-- A sequence still succeeds when each of its parts is replaced by one that succeeds with the same
value. -/
theorem except_bind_mono {first first' : Except ε α} {next next' : α → Except ε β} {result : β}
    (head : ∀ value, first = .ok value → first' = .ok value)
    (tail : ∀ value, next value = .ok result → next' value = .ok result)
    (run : (first >>= next) = .ok result) : (first' >>= next') = .ok result := by
  obtain ⟨value, yielded, rest⟩ := except_bind_eq_ok.mp run
  exact except_bind_eq_ok.mpr ⟨value, head value yielded, tail value rest⟩

theorem estate_bind_eq_ok {first : EStateM ε σ α} {next : α → EStateM ε σ β} {s s' : σ}
    {result : β} :
    (first >>= next) s = .ok result s' ↔
      ∃ value between, first s = .ok value between ∧ next value between = .ok result s' := by
  cases h : first s with
  | error e t => simp [bind, EStateM.bind, h]
  | ok value t =>
    constructor
    · intro run
      exact ⟨value, t, rfl, by simpa [bind, EStateM.bind, h] using run⟩
    · rintro ⟨_, _, same, rest⟩
      cases same
      simpa [bind, EStateM.bind, h] using rest

/-- What follows an action that succeeds goes on from the state behind it. -/
theorem estate_bind_of_ok {first : EStateM ε σ α} {next : α → EStateM ε σ β} {s between : σ}
    {value : α} (ran : first s = .ok value between) : (first >>= next) s = next value between := by
  simp only [bind, EStateM.bind, ran]

theorem estate_bind_of_error {first : EStateM ε σ α} {next : α → EStateM ε σ β} {s between : σ}
    {failure : ε} (failed : first s = .error failure between) :
    (first >>= next) s = .error failure between := by
  simp only [bind, EStateM.bind, failed]

/-- A sequence fails in its first part, or in the rest on what that yields. -/
theorem estate_bind_eq_error {first : EStateM ε σ α} {next : α → EStateM ε σ β} {s s' : σ}
    {failure : ε} :
    (first >>= next) s = .error failure s' ↔
      first s = .error failure s' ∨
        ∃ value between, first s = .ok value between ∧ next value between = .error failure s' := by
  cases h : first s with
  | error e t => simp [bind, EStateM.bind, h]
  | ok value t =>
    constructor
    · intro run
      exact .inr ⟨value, t, rfl, by simpa [bind, EStateM.bind, h] using run⟩
    · rintro (impossible | ⟨_, _, same, rest⟩)
      · cases impossible
      · cases same
        simpa [bind, EStateM.bind, h] using rest

/-- Only what the first action does in the state at hand matters. -/
theorem estate_bind_congr {first first' : EStateM ε σ α} {next : α → EStateM ε σ β} {s : σ}
    (same : first s = first' s) : (first >>= next) s = (first' >>= next) s := by
  simp only [bind, EStateM.bind, same]

theorem estate_pure_eq_ok {s s' : σ} {value result : α} :
    (pure value : EStateM ε σ α) s = .ok result s' ↔ value = result ∧ s = s' := by
  simp [pure, EStateM.pure]

theorem estate_pure_ne_error {s s' : σ} {value : α} {failure : ε} :
    (pure value : EStateM ε σ α) s ≠ .error failure s' := by
  simp [pure, EStateM.pure]

theorem estate_modify_eq_ok {change : σ → σ} {s s' : σ} {result : PUnit} :
    (modify change : EStateM ε σ PUnit) s = .ok result s' ↔ s' = change s := by
  constructor
  · intro run
    cases run
    rfl
  · rintro rfl
    rfl

/-- What follows a look at the state is given the state. -/
theorem estate_get_bind {body : σ → EStateM ε σ α} {s : σ} :
    ((get : EStateM ε σ σ) >>= body) s = body s s := rfl

/-- A guard lets through what it does not block. -/
theorem estate_guard_eq_ok {blocked : Prop} [Decidable blocked] {stop next : EStateM ε σ α}
    {s s' : σ} {result : α}
    (halts : ∀ value s', stop s ≠ .ok value s' := by intro _ _ impossible; cases impossible) :
    (if blocked then stop else next) s = .ok result s' ↔
      ¬ blocked ∧ next s = .ok result s' := by
  by_cases h : blocked <;> simp [h, halts]

end TokenLedger
