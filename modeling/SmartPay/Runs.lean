import Mathlib

/-!
Runs of a system given by a partial step function on labelled actions, and the
rule that carries an invariant along a run whose steps meet a condition.
-/

namespace CLib

theorem bind_eq_ok {ε α β : Type} {first : Except ε α} {next : α → Except ε β} {result : β} :
    first >>= next = .ok result ↔ ∃ value, first = .ok value ∧ next value = .ok result := by
  cases first with
  | error fault => simp [bind, Except.bind]
  | ok value => simp [bind, Except.bind]

theorem bind_eq_error {ε α β : Type} {first : Except ε α} {next : α → Except ε β} {fault : ε} :
    first >>= next = .error fault ↔
      first = .error fault ∨ ∃ value, first = .ok value ∧ next value = .error fault := by
  cases first with
  | error fault => simp [bind, Except.bind]
  | ok value => simp [bind, Except.bind]

theorem ok_bind {ε α β : Type} (value : α) (next : α → Except ε β) :
    Except.ok value >>= next = next value := rfl

theorem map_of_bind {ε α β γ : Type} (first : Except ε α) (next : α → Except ε β) (read : β → γ) :
    (first >>= next).map read = first >>= fun value => (next value).map read := by
  cases first <;> rfl

theorem bind_map {ε α α' β β' : Type} {run : Except ε α} {next : α → Except ε β}
    {other : α' → Except ε β'} (f : β → β') (g : α → α')
    (same : ∀ value, (next value).map f = other (g value)) :
    (run >>= next).map f = run.map g >>= other := by
  cases run with
  | error fault => rfl
  | ok value => exact same value

section Runs

variable {σ α ε : Type} (step : σ → α → Except ε σ)

def runFrom : σ → List α → Except ε σ
  | state, [] => .ok state
  | state, action :: rest => do
      let next ← step state action
      runFrom next rest

/-- Every step that a run takes is taken under a condition on the state before it. -/
def Along (allowed : σ → α → Prop) : σ → List α → Prop
  | _, [] => True
  | state, action :: rest =>
      allowed state action ∧ ∀ next, step state action = .ok next → Along allowed next rest

variable {step}

theorem along_and {first second : σ → α → Prop} {state : σ} {actions : List α} :
    Along step (fun state action => first state action ∧ second state action) state actions ↔
      Along step first state actions ∧ Along step second state actions := by
  induction actions generalizing state with
  | nil => simp [Along]
  | cons action rest ih =>
      simp only [Along, ih]
      constructor
      · rintro ⟨⟨here, there⟩, later⟩
        exact ⟨⟨here, fun next taken => (later next taken).1⟩, there,
          fun next taken => (later next taken).2⟩
      · rintro ⟨⟨here, later⟩, there, last⟩
        exact ⟨⟨here, there⟩, fun next taken => ⟨later next taken, last next taken⟩⟩

/-- A condition that can be decided in each state can be decided along a run. -/
instance decidableAlong {allowed : σ → α → Prop}
    [∀ state action, Decidable (allowed state action)] :
    ∀ state actions, Decidable (Along step allowed state actions)
  | _, [] => isTrue trivial
  | state, action :: rest =>
      match taken : step state action with
      | .error fault =>
          decidable_of_iff (allowed state action) (by
            simp only [Along, taken, reduceCtorEq, false_implies, implies_true, and_true])
      | .ok next =>
          have : Decidable (Along step allowed next rest) := decidableAlong next rest
          decidable_of_iff (allowed state action ∧ Along step allowed next rest) (by
            simp only [Along, taken, Except.ok.injEq, forall_eq'])

theorem along_imp {first second : σ → α → Prop} {invariant : σ → Prop}
    (preserved : ∀ state action next, invariant state → first state action →
      step state action = .ok next → invariant next)
    (implies : ∀ state action, invariant state → first state action → second state action)
    {state : σ} {actions : List α} (start : invariant state)
    (conditions : Along step first state actions) : Along step second state actions := by
  induction actions generalizing state with
  | nil => trivial
  | cons action rest ih =>
      refine ⟨implies state action start conditions.1, fun next taken => ?_⟩
      exact ih (preserved state action next start conditions.1 taken) (conditions.2 next taken)

theorem map_eq_ok {ε β γ : Type} {result : Except ε β} {read : β → γ} {value : γ}
    (mapped : result.map read = .ok value) : ∃ final, result = .ok final ∧ read final = value := by
  cases result with
  | error fault => cases mapped
  | ok final => exact ⟨final, rfl, Except.ok.inj mapped⟩

theorem runFrom_concat (state : σ) (first second : List α) :
    runFrom step state (first ++ second) =
      runFrom step state first >>= fun middle => runFrom step middle second := by
  induction first generalizing state with
  | nil => rfl
  | cons action rest ih =>
      simp only [List.cons_append, runFrom, bind_assoc]
      exact bind_congr fun next => ih next

theorem runFrom_append {state middle final : σ} {first second : List α}
    (reached : runFrom step state first = .ok middle)
    (ran : runFrom step middle second = .ok final) :
    runFrom step state (first ++ second) = .ok final := by
  rw [runFrom_concat, reached]
  exact ran

/-- The induction rule for runs: what every allowed step preserves holds after the run. -/
theorem runFrom_invariant {allowed : σ → α → Prop} {invariant : σ → Prop}
    (preserved : ∀ state action next, invariant state → allowed state action →
      step state action = .ok next → invariant next)
    {state final : σ} {actions : List α} (start : invariant state)
    (conditions : Along step allowed state actions)
    (reached : runFrom step state actions = .ok final) : invariant final := by
  induction actions generalizing state with
  | nil =>
      simp only [runFrom, Except.ok.injEq] at reached
      exact reached ▸ start
  | cons action rest ih =>
      obtain ⟨next, taken, later⟩ := bind_eq_ok.mp reached
      exact ih (preserved state action next start conditions.1 taken) (conditions.2 next taken) later

/-- The simulation rule: where every allowed step is taken and follows a specification, the whole
run is taken and follows it. -/
theorem runFrom_simulates {τ : Type} (specStep : τ → α → τ) (spec : τ) {allowed : σ → α → Prop}
    {related : σ → τ → Prop}
    (simulates : ∀ state spec action, related state spec → allowed state action →
      ∃ next, step state action = .ok next ∧ related next (specStep spec action))
    {state : σ} {actions : List α} (start : related state spec)
    (conditions : Along step allowed state actions) :
    ∃ final, runFrom step state actions = .ok final ∧
      related final (actions.foldl specStep spec) := by
  induction actions generalizing state spec with
  | nil => exact ⟨state, rfl, start⟩
  | cons action rest ih =>
      obtain ⟨next, taken, nextRelated⟩ := simulates state spec action start conditions.1
      obtain ⟨final, done, finalRelated⟩ := ih _ nextRelated (conditions.2 next taken)
      refine ⟨final, ?_, finalRelated⟩
      simp only [runFrom, taken, bind, Except.bind, done]

/-- The view rule: where every step from a state of the invariant, seen through a view, is the step
of another system, every run is its run. -/
theorem runFrom_view {τ : Type} {other : τ → α → Except ε τ} {view : σ → τ} {invariant : σ → Prop}
    (preserved : ∀ state action next, invariant state → step state action = .ok next →
      invariant next)
    (seen : ∀ state action, invariant state →
      (step state action).map view = other (view state) action)
    {state : σ} (start : invariant state) (actions : List α) :
    (runFrom step state actions).map view = runFrom other (view state) actions := by
  induction actions generalizing state with
  | nil => rfl
  | cons action rest ih =>
      simp only [runFrom, map_of_bind, ← seen state action start]
      cases taken : step state action with
      | error fault => rfl
      | ok next => exact ih (preserved state action next start taken)

theorem runFrom_total {allowed : σ → α → Prop} {invariant : σ → Prop}
    (steps : ∀ state action, invariant state → allowed state action →
      ∃ next, step state action = .ok next ∧ invariant next)
    {state : σ} {actions : List α} (start : invariant state)
    (conditions : Along step allowed state actions) :
    ∃ final, runFrom step state actions = .ok final ∧ invariant final :=
  runFrom_simulates (fun spec _ => spec) () (fun state _ action => steps state action) start
    conditions

/-- The progress rule: where a rank goes down in every counted step and up in none, as many
counted steps as the rank at the start lead to the goal. -/
theorem runFrom_bounded {allowed : σ → α → Prop} {invariant goal : σ → Prop}
    {rank : σ → Nat → Prop} (counted : α → Bool)
    (preserved : ∀ state action next, invariant state → allowed state action →
      step state action = .ok next → invariant next)
    (stays : ∀ state action next, allowed state action → step state action = .ok next →
      goal state → goal next)
    (lowers : ∀ state action next n, invariant state → allowed state action →
      step state action = .ok next → rank state n →
        goal next ∨ ∃ m, rank next m ∧ m + (if counted action then 1 else 0) ≤ n)
    (positive : ∀ state, ¬rank state 0) {state final : σ} {actions : List α} {n : Nat}
    (start : invariant state) (conditions : Along step allowed state actions)
    (reached : runFrom step state actions = .ok final) (begins : rank state n)
    (enough : n ≤ actions.countP counted) : goal final := by
  induction actions generalizing state n with
  | nil =>
      rw [List.countP_nil, Nat.le_zero] at enough
      exact absurd (enough ▸ begins) (positive state)
  | cons action rest ih =>
      obtain ⟨next, taken, later⟩ := bind_eq_ok.mp reached
      have inside := preserved state action next start conditions.1 taken
      rcases lowers state action next n start conditions.1 taken begins with done | ⟨m, ranked, less⟩
      · exact runFrom_invariant (fun state action next goalHolds permitted stepped =>
          stays state action next permitted stepped goalHolds) done (conditions.2 next taken) later
      · refine ih inside (conditions.2 next taken) later ranked ?_
        rw [List.countP_cons] at enough
        omega

/-- The budget rule: where a budget pays for every counted step, and no step but a paid-in one adds
to it, a run takes no more counted steps than its start and what is paid in allow. -/
theorem runFrom_spends {allowed : σ → α → Prop} {invariant : σ → Prop} {budget : σ → Nat → Prop}
    (counted paid : α → Bool) (worth : Nat)
    (preserved : ∀ state action next, invariant state → allowed state action →
      step state action = .ok next → invariant next)
    (pays : ∀ state action next n, invariant state → allowed state action →
      step state action = .ok next → budget state n →
        ∃ m, budget next m ∧ m + (if counted action then 1 else 0) ≤
          n + worth * (if paid action then 1 else 0))
    {state final : σ} {actions : List α} {n : Nat} (start : invariant state)
    (conditions : Along step allowed state actions)
    (reached : runFrom step state actions = .ok final) (begins : budget state n) :
    ∃ m, budget final m ∧ m + actions.countP counted ≤ n + worth * actions.countP paid := by
  induction actions generalizing state n with
  | nil =>
      simp only [runFrom, Except.ok.injEq] at reached
      exact ⟨n, reached ▸ begins, by simp⟩
  | cons action rest ih =>
      obtain ⟨next, taken, later⟩ := bind_eq_ok.mp reached
      have inside := preserved state action next start conditions.1 taken
      obtain ⟨k, between, less⟩ := pays state action next n start conditions.1 taken begins
      obtain ⟨m, ends, rested⟩ := ih inside (conditions.2 next taken) later between
      refine ⟨m, ends, ?_⟩
      rw [List.countP_cons, List.countP_cons, Nat.mul_add]
      omega

theorem runFrom_fault {allowed : σ → α → Prop} {invariant : σ → Prop} {possible : ε → Prop}
    (preserved : ∀ state action next, invariant state → allowed state action →
      step state action = .ok next → invariant next)
    (faults : ∀ state action fault, invariant state → allowed state action →
      step state action = .error fault → possible fault)
    {state : σ} {actions : List α} {fault : ε} (start : invariant state)
    (conditions : Along step allowed state actions)
    (stopped : runFrom step state actions = .error fault) : possible fault := by
  induction actions generalizing state with
  | nil => simp [runFrom] at stopped
  | cons action rest ih =>
      rcases bind_eq_error.mp stopped with now | ⟨next, taken, later⟩
      · exact faults state action fault start conditions.1 now
      · exact ih (preserved state action next start conditions.1 taken) (conditions.2 next taken) later

/-- A condition on every element of a list, given the elements before it. -/
def AtEach (condition : List α → α → Prop) : List α → List α → Prop
  | _, [] => True
  | before, item :: rest => condition before item ∧ AtEach condition (before ++ [item]) rest

theorem atEach_and {first second : List α → α → Prop} {before items : List α} :
    AtEach (fun before item => first before item ∧ second before item) before items ↔
      AtEach first before items ∧ AtEach second before items := by
  induction items generalizing before with
  | nil => simp [AtEach]
  | cons item rest ih =>
      simp only [AtEach, ih]
      exact and_and_and_comm

theorem along_of_forall {allowed : α → Prop} {actions : List α}
    (all : ∀ action ∈ actions, allowed action) (state : σ) :
    Along step (fun _ action => allowed action) state actions := by
  induction actions generalizing state with
  | nil => trivial
  | cons action rest ih =>
      exact ⟨all action (by simp), fun next _ =>
        ih (fun later member => all later (by simp [member])) next⟩

end Runs

end CLib
