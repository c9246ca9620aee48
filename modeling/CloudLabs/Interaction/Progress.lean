import CloudLabs.Interaction.Contract.Theorems

namespace CloudLabs.Interaction

section Accessible

variable {α : Type} {r : α → α → Prop}

-- One of the values has become a smaller one.
def OneLess (r : α → α → Prop) (after before : List α) : Prop :=
  ∃ i old new, before[i]? = some old ∧ r new old ∧ after = before.set i new

theorem acc_cons {value : α} {values : List α} (hvalue : Acc r value) (hvalues : Acc (OneLess r) values) :
    Acc (OneLess r) (value :: values) := by
  induction hvalue generalizing values with
  | intro value _ ih =>
      induction hvalues with
      | intro values hsmaller ih' =>
          constructor
          rintro after ⟨i, old, new, hold, hless, rfl⟩
          cases i with
          | zero =>
              cases hold
              exact ih new hless ⟨values, hsmaller⟩
          | succ i => exact ih' (values.set i new) ⟨i, old, new, hold, hless, rfl⟩

theorem acc_oneLess {values : List α} (h : ∀ value ∈ values, Acc r value) : Acc (OneLess r) values := by
  induction values with
  | nil =>
      constructor
      rintro after ⟨i, old, new, hold, -⟩
      cases hold
  | cons value values ih => exact acc_cons (h value (by simp)) (ih fun other hother => h other (by simp [hother]))

end Accessible

variable {E : Type} {R : E → Type} {σ χ ρ : Type}

-- How a program goes on from its first step.
def Program.Rest (after : Program E R Unit) : Program E R Unit → Prop
  | .ret _ => False
  | .op _ next => ∃ answer, after = next answer
  | .acquire next => after = next
  | .release next => after = next

theorem Program.acc_rest (program : Program E R Unit) : Acc Program.Rest program := by
  induction program with
  | ret value => exact ⟨_, fun after h => h.elim⟩
  | op effect next ih =>
      constructor
      rintro _ ⟨answer, rfl⟩
      exact ih answer
  | acquire next ih =>
      constructor
      rintro _ rfl
      exact ih
  | release next ih =>
      constructor
      rintro _ rfl
      exact ih

namespace Pool

def programs (pool : Pool E R σ) : List (Program E R Unit) :=
  match pool.phase with
  | .booting _ program => [program]
  | .serving _ threads => threads

-- All that was started has come to its end.
def Finished (pool : Pool E R σ) : Prop := ∀ program ∈ pool.programs, program = .ret ()

theorem Finished.next? {pool : Pool E R σ} (h : pool.Finished) (thread : Nat) : pool.next? thread = none := by
  obtain ⟨s, phase⟩ := pool
  cases phase with
  | booting locked program =>
      have hret : program = .ret () := h program (by simp [programs])
      rw [hret]
      rfl
  | serving holder threads =>
      cases hthread : threads[thread]? with
      | none => simp [Pool.next?, hthread]
      | some program =>
          have hret : program = .ret () := h program (List.mem_of_getElem? hthread)
          rw [hret] at hthread
          simp [Pool.next?, hthread, Program.next?]

end Pool

namespace Service

variable (S : Service E R σ χ ρ)

-- Some thread has taken a step.
def Advances (after before : Pool E R σ) : Prop := ∃ thread choice, S.step before (.advance thread choice) = some after

variable {S}

theorem Advances.oneLess {before after : Pool E R σ} (h : S.Advances after before) :
    OneLess Program.Rest after.programs before.programs := by
  obtain ⟨thread, choice, hstep⟩ := h
  obtain ⟨s, phase⟩ := before
  cases phase with
  | booting locked program =>
      refine ⟨0, program, ?_⟩
      cases program with
      | ret value => cases hstep
      | op effect next =>
          simp only [step, stepBoot, Option.map_map] at hstep
          obtain ⟨answer, -, rfl⟩ := Option.map_eq_some_iff.mp hstep
          exact ⟨next answer.1, rfl, ⟨answer.1, rfl⟩, rfl⟩
      | acquire next =>
          cases locked with
          | true => cases hstep
          | false =>
              cases hstep
              exact ⟨next, rfl, rfl, rfl⟩
      | release next =>
          cases locked with
          | false => cases hstep
          | true =>
              cases hstep
              exact ⟨next, rfl, rfl, rfl⟩
  | serving holder threads =>
      obtain ⟨program, hthread, hrest⟩ := Option.bind_eq_some_iff.mp hstep
      obtain ⟨⟨t, holder', rest⟩, hrun, rfl⟩ := Option.map_eq_some_iff.mp hrest
      refine ⟨thread, program, rest, hthread, ?_, rfl⟩
      cases program with
      | ret value => cases hrun
      | op effect next =>
          obtain ⟨answer, -, hnext⟩ := Option.map_eq_some_iff.mp hrun
          cases hnext
          exact ⟨answer.1, rfl⟩
      | acquire next =>
          simp only [stepThread] at hrun
          split at hrun
          · cases hrun
            rfl
          · cases hrun
      | release next =>
          simp only [stepThread] at hrun
          split at hrun
          · cases hrun
            rfl
          · cases hrun

-- The threads come to an end, whatever order they run in and however their effects
-- turn out.
theorem acc_advances (pool : Pool E R σ) : Acc S.Advances pool :=
  Subrelation.accessible Advances.oneLess <|
    InvImage.accessible Pool.programs (acc_oneLess fun program _ => program.acc_rest)

theorem not_advances_forever (run : Nat → Pool E R σ) : ¬ ∀ n, S.Advances (run (n + 1)) (run n) := by
  intro hforever
  have hnone : ∀ pool, Acc S.Advances pool → ∀ n, run n ≠ pool := by
    intro pool hacc
    induction hacc with
    | intro pool _ ih =>
        rintro n rfl
        exact ih (run (n + 1)) (hforever n) (n + 1) rfl
  exact hnone (run 0) (acc_advances _) 0 rfl

end Service

section Enabled

variable {S : Service E R σ χ ρ} {T T' : Terms E σ χ} {K : Contract E σ} {pool : Pool E R σ}

-- What the contract lets a thread carry out can be carried out under these terms.
def Contract.Enables (K : Contract E σ) (S : Service E R σ χ ρ) (T : Terms E σ χ) : Prop :=
  ∀ mode s effect, K.always s → K.issue mode s effect →
    ∃ choice answer, T.effect mode s effect choice ∧ S.exec s effect choice = some answer

-- Some thread can take a step that the terms allow.
def Pool.CanAdvance (S : Service E R σ χ ρ) (T : Terms E σ χ) (pool : Pool E R σ) : Prop :=
  ∃ thread choice next, T.permits (R := R) (ρ := ρ) pool (.advance thread choice) ∧
    S.step pool (.advance thread choice) = some next

variable [Nonempty χ]

-- A thread can go on unless another one has the mutex.
theorem Safe.canAdvance {s : σ} {holder : Option Nat} {threads : List (Program E R Unit)} {thread : Nat}
    {program : Program E R Unit} (henables : K.Enables S T') (hthread : threads[thread]? = some program)
    (h : Safe S T K (.of thread) endsOutside (.of holder thread) program s) (ha : K.always s)
    (hholder : holder = none ∨ holder = some thread) (hprogram : program ≠ .ret ()) :
    Pool.CanAdvance S T' ⟨s, .serving holder threads⟩ := by
  cases program with
  | ret value => exact absurd rfl hprogram
  | op effect next =>
      obtain ⟨hissue, -⟩ := h s (K.rely_refl _ _ s) ha
      obtain ⟨choice, answer, hT, hexec⟩ := henables _ s effect ha hissue
      refine ⟨thread, choice, ⟨answer.2, .serving holder (threads.set thread (next answer.1))⟩, ?_, ?_⟩
      · intro other hother
        simp only [Pool.next?, hthread, Option.bind_some, Program.next?, Option.some.injEq] at hother
        subst hother
        exact hT
      · simp [Service.step, hthread, Service.stepThread, hexec]
  | acquire next =>
      have hfree : holder = none := by
        rcases hholder with hfree | hheld
        · exact hfree
        · rw [hheld, Mode.of_self] at h
          exact h.elim
      subst hfree
      refine ⟨thread, Classical.arbitrary χ, ⟨s, .serving (some thread) (threads.set thread next)⟩, ?_, ?_⟩
      · intro effect heffect
        simp [Pool.next?, hthread, Program.next?] at heffect
      · simp [Service.step, hthread, Service.stepThread]
  | release next =>
      have hheld : holder = some thread := by
        rcases hholder with hfree | hheld
        · rw [hfree, Mode.of_none] at h
          exact h.elim
        · exact hheld
      subst hheld
      refine ⟨thread, Classical.arbitrary χ, ⟨s, .serving none (threads.set thread next)⟩, ?_, ?_⟩
      · intro effect heffect
        simp [Pool.next?, hthread, Program.next?] at heffect
      · simp [Service.step, hthread, Service.stepThread]

-- While it boots, a process does not wait for the mutex that it has itself.
theorem Boots.canAdvance {s : σ} {locked : Bool} {program : Program E R Unit} (henables : K.Enables S T')
    (h : Boots S T K locked program s) (ha : K.always s) (hprogram : program ≠ .ret ()) :
    Pool.CanAdvance S T' ⟨s, .booting locked program⟩ := by
  obtain ⟨hbalanced, halone, -⟩ := h
  cases program with
  | ret value => exact absurd rfl hprogram
  | op effect next =>
      obtain ⟨hissue, -⟩ := halone s (K.rely_refl _ _ s) ha
      obtain ⟨choice, answer, hT, hexec⟩ := henables _ s effect ha hissue
      refine ⟨0, choice, ⟨answer.2, .booting locked (next answer.1)⟩, ?_, ?_⟩
      · intro other hother
        simp only [Pool.next?, Program.next?, Option.some.injEq] at hother
        subst hother
        exact hT
      · simp [Service.step, Service.stepBoot, hexec]
  | acquire next =>
      obtain ⟨rfl, -⟩ := hbalanced
      refine ⟨0, Classical.arbitrary χ, ⟨s, .booting true next⟩, ?_, rfl⟩
      intro effect heffect
      cases heffect
  | release next =>
      obtain ⟨rfl, -⟩ := hbalanced
      refine ⟨0, Classical.arbitrary χ, ⟨s, .booting false next⟩, ?_, rfl⟩
      intro effect heffect
      cases heffect

-- Nobody waits for ever: until all have ended, somebody can take a step. Who has the
-- mutex is still running, and does not wait for it.
theorem Kept.canAdvance (henables : K.Enables S T') (hkept : Kept S T K pool) :
    pool.Finished ∨ pool.CanAdvance S T' := by
  obtain ⟨s, phase⟩ := pool
  obtain ⟨ha, hphase⟩ := hkept
  by_cases hfinished : Pool.Finished ⟨s, phase⟩
  · exact .inl hfinished
  right
  obtain ⟨program, hmem, hprogram⟩ : ∃ program ∈ Pool.programs ⟨s, phase⟩, program ≠ .ret () := by
    simpa [Pool.Finished] using hfinished
  cases phase with
  | booting locked first =>
      obtain rfl := List.mem_singleton.mp hmem
      exact hphase.canAdvance henables ha hprogram
  | serving holder threads =>
      obtain ⟨-, -, hlt, hthreads⟩ := hphase
      obtain ⟨thread, hthread⟩ := List.mem_iff_getElem?.mp hmem
      cases holder with
      | none => exact Safe.canAdvance henables hthread (hthreads thread program hthread) ha (.inl rfl) hprogram
      | some owner =>
          have hown := List.getElem?_eq_getElem (hlt owner rfl)
          have hsafe := hthreads owner _ hown
          refine Safe.canAdvance henables hown hsafe ha (.inr rfl) ?_
          intro hret
          rw [hret, Mode.of_self] at hsafe
          have houtside : Mode.inside = .outside := hsafe s (K.rely_refl _ _ s) ha
          cases houtside

end Enabled

end CloudLabs.Interaction
