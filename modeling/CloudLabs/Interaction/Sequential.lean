import CloudLabs.Interaction.Triple

namespace CloudLabs.Interaction

variable {E : Type} {R : E → Type} {σ χ ρ : Type} {α : Type}

-- A program that runs to its end while nobody else takes a step; `pick` says how
-- each effect turns out.
def Program.outcome (S : Service E R σ χ ρ) (pick : σ → E → χ) (program : Program E R α) (mode : Mode)
    (s : σ) : Option (α × Mode × σ) :=
  match program, mode with
  | .ret value, mode => some (value, mode, s)
  | .op effect next, mode => (S.exec s effect (pick s effect)).bind fun answer =>
      (next answer.1).outcome S pick mode answer.2
  | .acquire next, .alone => next.outcome S pick .alone s
  | .acquire next, .outside => next.outcome S pick .inside s
  | .acquire _, .inside => none
  | .release next, .alone => next.outcome S pick .alone s
  | .release next, .inside => next.outcome S pick .outside s
  | .release _, .outside => none

theorem Program.outcome_bind {β : Type} {S : Service E R σ χ ρ} {pick : σ → E → χ}
    (program : Program E R α) (rest : α → Program E R β) (mode : Mode) (s : σ) :
    (program.bind rest).outcome S pick mode s =
      (program.outcome S pick mode s).bind fun ended =>
        (rest ended.1).outcome S pick ended.2.1 ended.2.2 := by
  induction program generalizing mode s with
  | ret value => rfl
  | op effect next ih =>
      simp only [Program.bind, Program.outcome, Option.bind_assoc]
      exact congrArg _ (funext fun answer => ih answer.1 mode answer.2)
  | acquire next ih =>
      cases mode with
      | inside => rfl
      | alone => exact ih .alone s
      | outside => exact ih .inside s
  | release next ih =>
      cases mode with
      | outside => rfl
      | alone => exact ih .alone s
      | inside => exact ih .outside s

-- A scope under the lock guard.
theorem Program.outcome_critical {S : Service E R σ χ ρ} {pick : σ → E → χ} {body : Program E R α}
    {s t : σ} {value : α} (h : body.outcome S pick .inside s = some (value, .inside, t)) :
    (Program.critical body).outcome S pick .outside s = some (value, .outside, t) := by
  simp only [Program.critical, Program.outcome, Program.outcome_bind, h, Option.bind_some]

-- The program leads from one state to the other, and gives the value.
def Program.Yields (S : Service E R σ χ ρ) (pick : σ → E → χ) (mode : Mode) (program : Program E R α) (s : σ)
    (value : α) (t : σ) : Prop :=
  program.outcome S pick mode s = some (value, mode, t)

namespace Program.Yields

variable {S : Service E R σ χ ρ} {pick : σ → E → χ} {mode : Mode} {β : Type} {s t u : σ}

theorem ret (value : α) : Yields S pick mode (.ret value : Program E R α) s value s := rfl

theorem unique {program : Program E R α} {value value' : α} (h : Yields S pick mode program s value t)
    (h' : Yields S pick mode program s value' u) : value = value' ∧ t = u := by
  have hsame := Option.some.inj (h.symm.trans h')
  exact ⟨congrArg Prod.fst hsame, congrArg (·.2.2) hsame⟩

theorem op {effect : E} {answer : R effect} (h : S.exec s effect (pick s effect) = some (answer, t)) :
    Yields S pick mode (.op effect .ret) s answer t := by
  unfold Yields
  rw [outcome, h]
  rfl

theorem bind {program : Program E R α} {rest : α → Program E R β} {value : α} {last : β}
    (h : Yields S pick mode program s value t) (hrest : Yields S pick mode (rest value) t last u) :
    Yields S pick mode (program.bind rest) s last u := by
  unfold Yields at *
  rw [outcome_bind, h]
  exact hrest

theorem critical {body : Program E R α} {value : α} (h : Yields S pick .inside body s value t) :
    Yields S pick .outside (Program.critical body) s value t :=
  outcome_critical h

theorem critical_alone {body : Program E R α} {value : α} (h : Yields S pick .alone body s value t) :
    Yields S pick .alone (Program.critical body) s value t := by
  have hrelease : Yields S pick .alone (.release (.ret value) : Program E R α) t value t := rfl
  exact h.bind hrelease

end Program.Yields

-- Who holds the mutex while the thread runs like that and nobody else has it.
def Mode.holder (mode : Mode) (thread : Nat) : Option Nat :=
  if mode = .inside then some thread else none

variable {S : Service E R σ χ ρ} {T : Terms E σ χ} {K : Contract E σ} {role : Role} {pick : σ → E → χ}

-- Every effect that may be issued can turn out as the pick says.
def Contract.Performs (S : Service E R σ χ ρ) (T : Terms E σ χ) (K : Contract E σ)
    (pick : σ → E → χ) : Prop :=
  ∀ mode s effect, K.always s → K.issue mode s effect → T.effect mode s effect (pick s effect) ∧
    ∃ answer, S.exec s effect (pick s effect) = some answer

-- A safe program gets to its end when its effects can be performed.
theorem Safe.outcome {post : Mode → α → σ → Prop} {mode : Mode} {program : Program E R α} {s : σ}
    (hpick : K.Performs S T pick) (h : Safe S T K role post mode program s) (ha : K.always s)
    (hidle : mode = .outside → K.idle s) :
    ∃ value last t, program.outcome S pick mode s = some (value, last, t) ∧ K.always t ∧
      (last = .outside → K.idle t) ∧ post last value t := by
  induction program generalizing mode s with
  | ret value => exact ⟨value, mode, s, rfl, ha, hidle, h s (K.rely_refl role mode s) ha⟩
  | op effect next ih =>
      obtain ⟨hissue, hstep⟩ := h s (K.rely_refl role mode s) ha
      obtain ⟨hT, ⟨answer, t⟩, hexec⟩ := hpick mode s effect ha hissue
      obtain ⟨hat, hgive, hnext⟩ := hstep _ _ _ hT hexec
      obtain ⟨value, last, u, hrun, hlast⟩ :=
        ih answer hnext hat fun hout => K.idle_quiet (hidle hout) (hgive.1 hout) hat
      exact ⟨value, last, u, by rw [Program.outcome, hexec, Option.bind_some, hrun], hlast⟩
  | acquire next ih =>
      cases mode with
      | inside => exact h.elim
      | alone => exact @ih .alone s h ha nofun
      | outside => exact ih (h s (K.rely_refl role .outside s) ha (hidle rfl)) ha nofun
  | release next ih =>
      cases mode with
      | outside => exact h.elim
      | alone => exact @ih .alone s h ha nofun
      | inside =>
          obtain ⟨hi, hnext⟩ := h s (K.quiet_refl s) ha
          exact ih hnext ha fun _ => hi

theorem Triple.outcome {mode : Mode} {pre : σ → Prop} {post : α → σ → Prop} {program : Program E R α}
    {s : σ} (h : Triple S T K role mode pre program post) (hpick : K.Performs S T pick)
    (ha : K.always s) (hs : pre s) (hidle : mode = .outside → K.idle s) :
    ∃ value t, program.outcome S pick mode s = some (value, mode, t) ∧ K.always t ∧ post value t := by
  obtain ⟨value, last, t, hrun, hat, -, rfl, ht⟩ := (h s ha hs).outcome hpick ha hidle
  exact ⟨value, t, hrun, hat, ht⟩

namespace Service.Reachable

variable [Inhabited χ] {start : Pool E R σ} {s t : σ} {program : Program E R Unit} {value : Unit}
  {last mode : Mode}

-- A step that is no effect needs no choice.
theorem silent {threads : List (Program E R Unit)} {thread : Nat} {holder : Option Nat}
    (holder' : Option Nat) (next : Program E R Unit) (hreach : S.Reachable T start ⟨s, .serving holder threads⟩)
    (hthread : threads[thread]? = some program) (hsilent : program.next? = none)
    (hstep : S.stepThread s holder thread default program = some (s, holder', next)) :
    S.Reachable T start ⟨s, .serving holder' (threads.set thread next)⟩ := by
  refine hreach.step (.advance thread default) (fun effect heffect => ?_) ?_
  · simp [Pool.next?, hthread, hsilent] at heffect
  · simp [Service.step, hthread, hstep]

-- One thread of the pool runs to its end.
theorem thread {threads : List (Program E R Unit)} {thread : Nat}
    (hreach : S.Reachable T start ⟨s, .serving (mode.holder thread) threads⟩)
    (hthread : threads[thread]? = some program) (hmode : mode ≠ .alone)
    (hpick : ∀ mode s effect, T.effect mode s effect (pick s effect))
    (hrun : program.outcome S pick mode s = some (value, last, t)) :
    S.Reachable T start ⟨t, .serving (last.holder thread) (threads.set thread (.ret value))⟩ := by
  have hlength : thread < threads.length := (List.getElem?_eq_some_iff.mp hthread).1
  induction program generalizing mode s threads with
  | ret value =>
      cases hrun
      obtain ⟨hlt, heq⟩ := List.getElem?_eq_some_iff.mp hthread
      rwa [← heq, List.set_getElem_self]
  | op effect next ih =>
      obtain ⟨⟨answer, u⟩, hexec, hnext⟩ := Option.bind_eq_some_iff.mp hrun
      have hstep : S.Reachable T start
          ⟨u, .serving (mode.holder thread) (threads.set thread (next answer))⟩ := by
        refine hreach.step (.advance thread (pick s effect)) (fun effect' heffect => ?_) ?_
        · have hsame : effect = effect' := by simpa [Pool.next?, hthread, Program.next?] using heffect
          rw [← hsame]
          exact hpick _ _ _
        · simp [Service.step, hthread, Service.stepThread, hexec]
      have hset := ih answer hstep (by simp [hlength]) hmode hnext (by simpa using hlength)
      rwa [List.set_set] at hset
  | acquire next ih =>
      cases mode with
      | alone => exact absurd rfl hmode
      | inside => cases hrun
      | outside =>
          have hstep := silent (Mode.inside.holder thread) next hreach hthread rfl rfl
          have hset := @ih s .inside _ hstep (by simp [hlength]) (by decide) hrun (by simpa using hlength)
          rwa [List.set_set] at hset
  | release next ih =>
      cases mode with
      | alone => exact absurd rfl hmode
      | outside => cases hrun
      | inside =>
          have hstep := silent none next hreach hthread rfl
            (by simp [Service.stepThread, Mode.holder])
          have hset := @ih s .outside _ hstep (by simp [hlength]) (by decide) hrun (by simpa using hlength)
          rwa [List.set_set] at hset

-- A request arrives, and its thread runs to its end before any other does anything.
theorem serve {threads : List (Program E R Unit)} (request : ρ)
    (hreach : S.Reachable T start ⟨s, .serving none threads⟩)
    (hpick : ∀ mode s effect, T.effect mode s effect (pick s effect))
    (hrun : (S.handler request).Yields S pick .outside s () t) :
    ∃ threads, S.Reachable T start ⟨t, .serving none threads⟩ := by
  have harrive : S.Reachable T start ⟨s, .serving (Mode.outside.holder threads.length)
      (threads ++ [S.handler request])⟩ := hreach.step (.arrive request) trivial rfl
  exact ⟨_, harrive.thread (by simp) (by decide) hpick hrun⟩

-- The process boots.
theorem boot {locked : Bool} (hreach : S.Reachable T start ⟨s, .booting locked program⟩)
    (hbalanced : program.Balanced locked) (hpick : ∀ mode s effect, T.effect mode s effect (pick s effect))
    (hrun : program.outcome S pick .alone s = some (value, last, t)) :
    S.Reachable T start ⟨t, .booting false (.ret value)⟩ := by
  induction program generalizing s locked with
  | ret value =>
      obtain rfl : locked = false := hbalanced
      cases hrun
      exact hreach
  | op effect next ih =>
      obtain ⟨⟨answer, u⟩, hexec, hnext⟩ := Option.bind_eq_some_iff.mp hrun
      refine ih answer (hreach.step (.advance 0 (pick s effect)) (fun effect' heffect => ?_) ?_)
        (hbalanced answer) hnext
      · cases heffect
        exact hpick _ _ _
      · simp [Service.step, Service.stepBoot, hexec]
  | acquire next ih =>
      obtain ⟨rfl, hbalanced⟩ := hbalanced
      exact ih (hreach.step (.advance 0 default) (fun _ heffect => by cases heffect) rfl) hbalanced hrun
  | release next ih =>
      obtain ⟨rfl, hbalanced⟩ := hbalanced
      exact ih (hreach.step (.advance 0 default) (fun _ heffect => by cases heffect) rfl) hbalanced hrun

end Service.Reachable

end CloudLabs.Interaction
