import CloudLabs.Interaction.Service

namespace CloudLabs.Interaction

variable {E : Type} {R : E → Type} {σ χ ρ : Type} {S : Service E R σ χ ρ} {T : Terms E σ χ} {known : σ → Prop}

-- The terms with what is known of every state: it may be used where a step is taken,
-- and of an effect behind it as well.
def Terms.knowing (T : Terms E σ χ) (S : Service E R σ χ ρ) (known : σ → Prop) : Terms E σ χ where
  effect mode s effect choice := T.effect mode s effect choice ∧ known s ∧
    ∀ answer t, S.exec s effect choice = some (answer, t) → known t
  environment s choice := T.environment s choice ∧ known s
  crash s := T.crash s ∧ known s
  early := T.early

-- What holds in all states of the runs restricts no run.
theorem Service.Reachable.knowing {start pool : Pool E R σ}
    (hknown : ∀ pool, S.Reachable T start pool → known pool.shared) (h : S.Reachable T start pool) :
    S.Reachable (T.knowing S known) start pool := by
  induction h with
  | start => exact .start
  | @step pool next move hreach hmove hstep ih =>
      have hnow := hknown pool hreach
      have hthen := hknown next (hreach.step move hmove hstep)
      refine ih.step move ?_ hstep
      cases move with
      | advance thread choice =>
          intro effect hnext
          refine ⟨hmove effect hnext, hnow, fun answer t hexec => ?_⟩
          obtain ⟨_, hsame⟩ := S.exec_of_step hnext hstep
          cases hsame.symm.trans hexec
          exact hthen
      | environment choice => exact ⟨hmove, hnow⟩
      | crash => exact ⟨hmove, hnow⟩
      | early passes request => exact hmove
      | arrive request => trivial
      | serve passes => trivial

end CloudLabs.Interaction
