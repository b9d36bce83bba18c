/-!
# Activities in steps

A run, a debug session and a whole command are all given by what one step of them does. They are
carried out by repeating that step.

## Main definitions

* `TapeMachine.Progress` — what a step leads to.
* `TapeMachine.Progress.iterate` — the repetition of a step, as far as some fuel reaches.

## Main results

* `TapeMachine.Progress.iterate_mono` — more fuel does not change a result.
-/

set_option autoImplicit false

namespace TapeMachine

/-- What one step of an activity leads to. -/
inductive Progress (σ α : Type)
  /-- The activity goes on. -/
  | running (state : σ)
  /-- The activity has ended with a result. -/
  | ended (result : α) (state : σ)

namespace Progress

variable {σ α : Type}

/-- Repeats a step until the activity ends. The result is `none` if `fuel` steps do not
suffice. -/
def iterate (step : σ → Progress σ α) : Nat → σ → Option (α × σ)
  | 0, _ => none
  | fuel + 1, state =>
    match step state with
    | running state => iterate step fuel state
    | ended result state => some (result, state)

/-- More fuel does not change a result. -/
theorem iterate_mono (step : σ → Progress σ α) {fuel fuel' : Nat} {state : σ} {r : α × σ}
    (h : iterate step fuel state = some r) (hle : fuel ≤ fuel') :
    iterate step fuel' state = some r := by
  induction fuel generalizing fuel' state with
  | zero => simp [iterate] at h
  | succ fuel ih =>
    obtain ⟨fuel', rfl⟩ : ∃ n, fuel' = n + 1 := ⟨fuel' - 1, by omega⟩
    unfold iterate at h ⊢
    split at h
    · exact ih h (by omega)
    · exact h

end Progress

end TapeMachine
