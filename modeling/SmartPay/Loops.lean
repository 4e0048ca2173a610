import SmartPay.Runs

/-!
Loops that a measure of their state bounds. A loop is run with as much fuel as the
measure asks for; where every further round lowers the measure it unfolds like the
loop itself, and no fuel is left in its equations.
-/

namespace CLib

section Loop

variable {σ ε : Type} {step : σ → Except ε (Bool × σ)} {size : σ → Nat} {state next : σ}

/-- One round says whether another one follows. -/
def loopFor (step : σ → Except ε (Bool × σ)) : Nat → σ → Except ε σ
  | 0, state => .ok state
  | fuel + 1, state => do
      let (again, state) ← step state
      if again then loopFor step fuel state else .ok state

def loop (step : σ → Except ε (Bool × σ)) (size : σ → Nat) (state : σ) : Except ε σ :=
  loopFor step (size state + 1) state

def Decreases (step : σ → Except ε (Bool × σ)) (size : σ → Nat) : Prop :=
  ∀ state next, step state = .ok (true, next) → size next < size state

theorem loopFor_enough (decreases : Decreases step size) {fuel : Nat}
    (enough : size state < fuel) : loopFor step fuel state = loop step size state := by
  have same : ∀ first second state, size state < first → size state < second →
      loopFor step first state = loopFor step second state := by
    intro first
    induction first with
    | zero => intro second state impossible; omega
    | succ first ih =>
        intro second state enoughFirst enoughSecond
        obtain ⟨second, rfl⟩ := Nat.exists_eq_succ_of_ne_zero (Nat.ne_of_gt (by omega : 0 < second))
        simp only [loopFor]
        cases stepped : step state with
        | error fault => rfl
        | ok result =>
            obtain ⟨again, next⟩ := result
            cases again with
            | false => rfl
            | true =>
                have smaller := decreases state next stepped
                exact ih second next (by omega) (by omega)
  exact same _ _ _ enough (by omega)

theorem loop_again (decreases : Decreases step size) (stepped : step state = .ok (true, next)) :
    loop step size state = loop step size next := by
  rw [← loopFor_enough decreases (decreases state next stepped)]
  simp only [loop, loopFor, stepped, ok_bind, if_true]

theorem loop_stop (stepped : step state = .ok (false, next)) :
    loop step size state = .ok next := by
  simp only [loop, loopFor, stepped, ok_bind, Bool.false_eq_true, if_false]

theorem loop_fault {fault : ε} (stepped : step state = .error fault) :
    loop step size state = .error fault := by
  simp only [loop, loopFor, stepped]
  rfl

/-- One predicate holds between the rounds, another one after the last. -/
theorem loop_rule {during after : σ → Prop}
    (continues : ∀ state next, during state → step state = .ok (true, next) → during next)
    (stops : ∀ state next, during state → step state = .ok (false, next) → after next)
    (decreases : Decreases step size) (holds : during state)
    (done : loop step size state = .ok next) : after next := by
  generalize bound : size state = fuel
  induction fuel using Nat.strongRecOn generalizing state with
  | ind fuel ih =>
      cases stepped : step state with
      | error fault =>
          rw [loop_fault stepped] at done
          cases done
      | ok result =>
          obtain ⟨again, middle⟩ := result
          cases again with
          | false =>
              rw [loop_stop stepped] at done
              cases done
              exact stops state next holds stepped
          | true =>
              rw [loop_again decreases stepped] at done
              exact ih (size middle) (bound ▸ decreases state middle stepped)
                (continues state middle holds stepped) done rfl

/-- A loop over more state than another one, with the same rounds. -/
theorem loop_map {τ : Type} {other : τ → Except ε (Bool × τ)} (otherSize : τ → Nat) (f : σ → τ)
    (same : ∀ state, (step state).map (fun round => (round.1, f round.2)) = other (f state))
    (sizes : ∀ state, size state = otherSize (f state)) (state : σ) :
    (loop step size state).map f = loop other otherSize (f state) := by
  have rounds : ∀ fuel state, (loopFor step fuel state).map f = loopFor other fuel (f state) := by
    intro fuel
    induction fuel with
    | zero =>
        intro state
        rfl
    | succ fuel ih =>
        intro state
        simp only [loopFor, ← same]
        refine bind_map f _ fun round => ?_
        obtain ⟨again, next⟩ := round
        cases again with
        | false => rfl
        | true => exact ih next
  rw [loop, loop, ← sizes]
  exact rounds _ state

end Loop

end CLib
