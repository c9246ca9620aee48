import Mathlib.Algebra.GroupWithZero.Nat
import Mathlib.Data.List.Basic
import Mathlib.Algebra.BigOperators.Group.List.Basic

namespace CloudLabs.Interaction.Transition

variable {σ μ : Type} {step : σ → μ → Option σ}

-- The run of a list of moves.
def run (step : σ → μ → Option σ) (state : σ) : List μ → Option σ
  | [] => some state
  | move :: moves => (step state move).bind fun next => run step next moves

-- Every step keeps the property.
def Keeps (step : σ → μ → Option σ) (kept : σ → Prop) : Prop :=
  ∀ state move next, kept state → step state move = some next → kept next

-- The steps that are allowed.
def guard (allowed : σ → μ → Bool) (step : σ → μ → Option σ) : σ → μ → Option σ := fun state move =>
  if allowed state move then step state move else none

theorem guard_eq_some {allowed : σ → μ → Bool} {state next : σ} {move : μ}
    (h : guard allowed step state move = some next) :
    allowed state move = true ∧ step state move = some next := by
  unfold guard at h
  split at h
  · next hallowed => exact ⟨hallowed, h⟩
  · cases h

theorem run_cons {state next : σ} {move : μ} (hstep : step state move = some next) (moves : List μ) :
    run step state (move :: moves) = run step next moves := by
  rw [run, hstep]
  rfl

theorem run_append (state : σ) (moves more : List μ) :
    run step state (moves ++ more) = (run step state moves).bind fun next => run step next more := by
  induction moves generalizing state with
  | nil => rfl
  | cons move moves ih =>
      rw [List.cons_append, run, run]
      cases step state move with
      | none => rfl
      | some next => exact ih next

theorem Keeps.run {kept : σ → Prop} (hkeeps : Keeps step kept) {state last : σ} {moves : List μ}
    (hstate : kept state) (hrun : run step state moves = some last) : kept last := by
  induction moves generalizing state with
  | nil => exact Option.some.inj hrun ▸ hstate
  | cons move moves ih =>
      obtain ⟨next, hstep, hrest⟩ := Option.bind_eq_some_iff.mp hrun
      exact ih (hkeeps state move next hstate hstep) hrest

-- When every step lowers the measure, except for what its move adds to it, the
-- measure at the start bounds the length of a run.
theorem length_le {kept : σ → Prop} (hkeeps : Keeps step kept) (measure : σ → Nat) (adds : μ → Nat)
    (hmeasure : ∀ state move next, kept state → step state move = some next →
      measure next + 1 ≤ measure state + adds move)
    {state last : σ} {moves : List μ} (hstate : kept state) (hrun : run step state moves = some last) :
    measure last + moves.length ≤ measure state + (moves.map adds).sum := by
  induction moves generalizing state with
  | nil =>
      have hlast : state = last := Option.some.inj hrun
      simp [hlast]
  | cons move moves ih =>
      obtain ⟨next, hstep, hrest⟩ := Option.bind_eq_some_iff.mp hrun
      have hnext := ih (hkeeps state move next hstate hstep) hrest
      have hmove := hmeasure state move next hstate hstep
      rw [List.length_cons, List.map_cons, List.sum_cons]
      omega

-- When every step lowers the measure, any run can be continued until no step is left.
theorem exists_stuck {kept : σ → Prop} (hkeeps : Keeps step kept) (measure : σ → Nat)
    (hmeasure : ∀ state move next, kept state → step state move = some next → measure next < measure state)
    {state : σ} (hstate : kept state) :
    ∃ moves last, run step state moves = some last ∧ kept last ∧ ∀ move, step last move = none := by
  induction hn : measure state using Nat.strongRecOn generalizing state with
  | ind n ih =>
      by_cases hstuck : ∀ move, step state move = none
      · exact ⟨[], state, rfl, hstate, hstuck⟩
      · obtain ⟨move, hmove⟩ := not_forall.mp hstuck
        obtain ⟨next, hstep⟩ := Option.ne_none_iff_exists'.mp hmove
        have hless := hmeasure state move next hstate hstep
        obtain ⟨moves, last, hrun, hlast, hnone⟩ := ih (measure next) (by omega)
          (hkeeps state move next hstate hstep) rfl
        exact ⟨move :: moves, last, by rw [run_cons hstep, hrun], hlast, hnone⟩

end CloudLabs.Interaction.Transition
