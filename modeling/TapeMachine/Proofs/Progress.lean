import Mathlib.Tactic
import TapeMachine.Proofs.Machine.Walk

/-!
# Activities followed step by step

What an activity has come to after a number of steps tells both where it is and how it has ended.
A stretch of it leads from one state to another: what it reaches it reaches on the way, or from
there.

## Main definitions

* `TapeMachine.Progress.state`, `TapeMachine.Progress.map` — where an activity is, and the same with
  other states.
* `TapeMachine.Progress.follow` — what an activity has come to after a number of steps.
* `TapeMachine.Progress.Leads` — an activity leads to a state through states of some kind.
* `TapeMachine.Progress.Emits` — an activity gets to a state, with what it has given off on the way.
* `TapeMachine.Progress.Related` — two activities have come to corresponding states, and to the same
  result if they have ended.

## Main results

* `TapeMachine.Progress.halts_iff_follow` — an activity ends after some number of steps.
* `TapeMachine.Progress.Reaches.preserves`, `TapeMachine.Progress.Reaches.halts_iff` — what holds of
  all that an activity reaches, and how it ends from there.
* `TapeMachine.Progress.forall_reaches_of_running` — an activity that always goes on never ends.
* `TapeMachine.Progress.Leads.cases_of_reaches`, `TapeMachine.Progress.Leads.halts_iff` — what an
  activity reaches and how it ends, from where it leads.
-/

set_option autoImplicit false

namespace TapeMachine

namespace Progress

variable {σ τ α : Type} {step : σ → Progress σ α} {s s' t u : σ} {r : α}

/-- The state that an activity is in, or has ended in. -/
def state : Progress σ α → σ
  | running s => s
  | ended _ s => s

/-- The same with states of another kind. -/
def map (f : σ → τ) : Progress σ α → Progress τ α
  | running s => running (f s)
  | ended r s => ended r (f s)

/-- What an activity has come to after a number of steps. Once it has ended it stays as it is. -/
def follow (step : σ → Progress σ α) : Nat → σ → Progress σ α
  | 0, s => running s
  | n + 1, s =>
    match step s with
    | running s' => follow step n s'
    | ended r s' => ended r s'

lemma follow_succ_of_running (h : step s = running s') (n : Nat) :
    follow step (n + 1) s = follow step n s' := by
  simp only [follow, h]

lemma follow_succ_of_ended (h : step s = ended r s') (n : Nat) :
    follow step (n + 1) s = ended r s' := by
  simp only [follow, h]

/-- An activity ends exactly if it has ended after some number of steps. -/
lemma halts_iff_follow : Halts step s r t ↔ ∃ n, follow step n s = ended r t := by
  constructor
  · intro h
    induction h with
    | ended h => exact ⟨1, follow_succ_of_ended h 0⟩
    | running h _ ih =>
      obtain ⟨n, hn⟩ := ih
      exact ⟨n + 1, (follow_succ_of_running h n).trans hn⟩
  · rintro ⟨n, h⟩
    induction n generalizing s with
    | zero => cases h
    | succ n ih =>
      cases hs : step s with
      | running s' =>
        rw [follow_succ_of_running hs] at h
        exact .running hs (ih h)
      | ended r' t' =>
        rw [follow_succ_of_ended hs] at h
        cases h
        exact .ended hs

/-- What each step preserves is preserved. -/
lemma Reaches.preserves {P : σ → Prop} (hstep : ∀ s s', P s → step s = .running s' → P s')
    (h : Reaches step s t) (hs : P s) : P t := by
  induction h with
  | refl => exact hs
  | running h _ ih => exact ih (hstep _ _ hs h)

/-- An activity ends as it does from what it reaches. -/
lemma Reaches.halts_iff (h : Reaches step s t) : Halts step s r u ↔ Halts step t r u := by
  induction h with
  | refl => exact Iff.rfl
  | running h _ ih => exact (halts_iff_of_running h).trans ih

/-- An activity that goes on in every state of a kind, to another state of this kind, never ends. -/
lemma forall_reaches_of_running {P : σ → Prop} (hP : ∀ s, P s → ∃ s', step s = running s' ∧ P s')
    (hs : P s) : (∀ t, Reaches step s t → P t) ∧ ∀ r t, ¬ Halts step s r t := by
  constructor
  · intro t h
    induction h with
    | refl => exact hs
    | running h _ ih =>
      obtain ⟨s', hs', hPs'⟩ := hP _ hs
      rw [hs'] at h
      cases h
      exact ih hPs'
  · intro r t h
    induction h with
    | ended h =>
      obtain ⟨s', hs', -⟩ := hP _ hs
      rw [hs'] at h
      cases h
    | running h _ ih =>
      obtain ⟨s', hs', hPs'⟩ := hP _ hs
      rw [hs'] at h
      cases h
      exact ih hPs'

/-! ## Stretches of an activity -/

/-- An activity leads to a state, in at least one step, and all states on the way are of some
kind. -/
inductive Leads (step : σ → Progress σ α) (between : σ → Prop) : σ → σ → Prop
  | last {s t : σ} (h : step s = running t) : Leads step between s t
  | more {s s' t : σ} (h : step s = running s') (hs : between s') (rest : Leads step between s' t) :
    Leads step between s t

namespace Leads

variable {between : σ → Prop}

/-- What an activity leads to is reached. -/
lemma reaches (h : Leads step between s t) : Reaches step s t := by
  induction h with
  | last h => exact .single h
  | more h _ _ ih => exact .running h ih

/-- One stretch after another. -/
lemma trans (h : Leads step between s t) (ht : between t) (h' : Leads step between t u) :
    Leads step between s u := by
  induction h with
  | last h => exact .more h ht h'
  | more h hs _ ih => exact .more h hs (ih ht h')

/-- What is reached is reached on the way, or from where the activity leads. -/
theorem cases_of_reaches (h : Leads step between s t) (h' : Reaches step s u) :
    u = s ∨ between u ∨ Reaches step t u := by
  induction h with
  | last h => exact ((reaches_iff_of_running h).mp h').imp_right Or.inr
  | more h hs _ ih =>
    rcases (reaches_iff_of_running h).mp h' with rfl | h'
    · exact Or.inl rfl
    · rcases ih h' with rfl | hbetween | hrest
      · exact Or.inr (Or.inl hs)
      · exact Or.inr (Or.inl hbetween)
      · exact Or.inr (Or.inr hrest)

/-- An activity ends as it does from where it leads. -/
theorem halts_iff (h : Leads step between s t) : Halts step s r u ↔ Halts step t r u := by
  induction h with
  | last h => exact halts_iff_of_running h
  | more h _ _ ih => exact (halts_iff_of_running h).trans ih

end Leads

/-! ## What an activity gives off -/

variable {β : Type} {out : σ → List β} {given later : List β}

/-- Repeating a step leads to a state, at which the activity has not ended. Each step gives off what
belongs to the state that it is made from. -/
inductive Emits (step : σ → Progress σ α) (out : σ → List β) : σ → List β → σ → Prop
  | refl (s : σ) : Emits step out s [] s
  | running {s s' t : σ} {later : List β} (h : step s = .running s')
    (rest : Emits step out s' later t) : Emits step out s (out s ++ later) t

variable (out) in
/-- A state is reached exactly if it is reached with something given off. -/
lemma reaches_iff_emits : Reaches step s t ↔ ∃ later, Emits step out s later t := by
  constructor
  · intro h
    induction h with
    | refl s => exact ⟨[], .refl s⟩
    | running h _ ih =>
      obtain ⟨later, hrest⟩ := ih
      exact ⟨_, .running h hrest⟩
  · rintro ⟨later, h⟩
    induction h with
    | refl s => exact .refl s
    | running h _ ih => exact .running h ih

/-- What each step preserves is preserved, together with what has been given off. -/
theorem Emits.preserves {P : List β → σ → Prop}
    (hstep : ∀ given s s', P given s → step s = .running s' → P (given ++ out s) s')
    (h : Emits step out s later t) (hs : P given s) : P (given ++ later) t := by
  induction h generalizing given with
  | refl s => rwa [List.append_nil]
  | running h _ ih =>
    rw [← List.append_assoc]
    exact ih (hstep _ _ _ hs h)

/-! ## Activities that correspond -/

/-- Two activities have come to corresponding states. If one of them has ended so has the other,
with the same result. -/
def Related (R : σ → τ → Prop) : Progress σ α → Progress τ α → Prop
  | running s, running t => R s t
  | ended r s, ended r' t => r = r' ∧ R s t
  | _, _ => False

end Progress

end TapeMachine
