import CloudLabs.Interaction.Service

namespace CloudLabs.Interaction

-- What holds of a state still holds after a change of this kind.
class Withstands {σ : Type} (r : σ → σ → Prop) (P : σ → Prop) : Prop where
  keep : ∀ {s t}, P s → r s t → P t

namespace Withstands

variable {σ : Type} {r : σ → σ → Prop} {P Q : σ → Prop}

-- What says nothing of the state is not taken apart.
instance (priority := 1100) {p : Prop} : Withstands r fun _ => p := ⟨fun h _ => h⟩

instance [hP : Withstands r P] [hQ : Withstands r Q] : Withstands r fun s => P s ∧ Q s :=
  ⟨fun h hst => ⟨hP.keep h.1 hst, hQ.keep h.2 hst⟩⟩

instance [hP : Withstands r P] [hQ : Withstands r Q] : Withstands r fun s => P s ∨ Q s :=
  ⟨fun h hst => h.imp (fun h => hP.keep h hst) fun h => hQ.keep h hst⟩

instance {p : Prop} [hP : Withstands r P] : Withstands r fun s => p → P s :=
  ⟨fun h hst hp => hP.keep (h hp) hst⟩

instance {α : Type} {P : α → σ → Prop} [hP : ∀ a, Withstands r (P a)] : Withstands r fun s => ∃ a, P a s :=
  ⟨fun ⟨a, h⟩ hst => ⟨a, (hP a).keep h hst⟩⟩

end Withstands

-- What the threads of a service promise each other. `always` holds in every
-- state, `idle` whenever the mutex is free, and `issue` at every effect that a
-- thread carries out. `quiet` is all that anybody may do to a state while
-- somebody else holds the mutex, `follow` all that the handlers may do to it
-- while the main thread does not.
structure Contract (E σ : Type) where
  always : σ → Prop
  idle : σ → Prop
  quiet : σ → σ → Prop
  follow : σ → σ → Prop
  issue : Mode → σ → E → Prop
  quiet_refl : ∀ s, quiet s s
  quiet_trans : ∀ {s t u}, quiet s t → quiet t u → quiet s u
  follow_refl : ∀ s, follow s s
  follow_trans : ∀ {s t u}, follow s t → follow t u → follow s u
  idle_quiet : ∀ {s t}, idle s → quiet s t → always t → idle t

-- The main thread of a process and the threads of its handlers.
inductive Role where
  | leader
  | worker
  deriving DecidableEq

variable {E : Type} {R : E → Type} {σ χ ρ : Type} {α β : Type}

namespace Contract

-- What a thread that has last seen the one state may find in its place.
def rely (K : Contract E σ) (role : Role) (mode : Mode) (s t : σ) : Prop :=
  match role, mode with
  | .worker, .outside => True
  | .leader, .outside => K.follow s t
  | _, _ => K.quiet s t

-- What a thread that takes a step owes to the others.
def give (K : Contract E σ) (role : Role) (mode : Mode) (s t : σ) : Prop :=
  (mode = .outside → K.quiet s t) ∧ (role = .worker → K.follow s t)

theorem rely_refl (K : Contract E σ) (role : Role) (mode : Mode) (s : σ) : K.rely role mode s s := by
  cases role <;> cases mode
  case worker.outside => exact trivial
  case leader.outside => exact K.follow_refl s
  all_goals exact K.quiet_refl s

theorem rely_trans {K : Contract E σ} {role : Role} {mode : Mode} {s t u : σ}
    (hst : K.rely role mode s t) (htu : K.rely role mode t u) : K.rely role mode s u := by
  cases role <;> cases mode
  case worker.outside => exact trivial
  case leader.outside => exact K.follow_trans hst htu
  all_goals exact K.quiet_trans hst htu

theorem rely_iff_quiet {K : Contract E σ} {role : Role} {mode : Mode} {s t : σ}
    (hmode : mode ≠ .outside) : K.rely role mode s t ↔ K.quiet s t := by
  cases role <;> cases mode
  case worker.outside => exact absurd rfl hmode
  case leader.outside => exact absurd rfl hmode
  all_goals exact Iff.rfl

end Contract

-- `Safe S T K role post mode program s`: from the state `s`, every run of the
-- program whose steps meet the terms keeps the contract and ends as `post` says.
def Safe (S : Service E R σ χ ρ) (T : Terms E σ χ) (K : Contract E σ) (role : Role)
    (post : Mode → α → σ → Prop) (mode : Mode) (program : Program E R α) (s : σ) : Prop :=
  match program, mode with
  | .ret value, mode => ∀ t, K.rely role mode s t → K.always t → post mode value t
  | .op effect next, mode => ∀ t, K.rely role mode s t → K.always t → K.issue mode t effect ∧
      ∀ choice answer u, T.effect mode t effect choice → S.exec t effect choice = some (answer, u) →
        K.always u ∧ K.give role mode t u ∧ Safe S T K role post mode (next answer) u
  | .acquire next, .outside => ∀ t, K.rely role .outside s t → K.always t → K.idle t →
      Safe S T K role post .inside next t
  | .acquire _, .inside => False
  | .acquire next, .alone => Safe S T K role post .alone next s
  | .release _, .outside => False
  | .release next, .inside => ∀ t, K.quiet s t → K.always t →
      K.idle t ∧ Safe S T K role post .outside next t
  | .release next, .alone => Safe S T K role post .alone next s

variable {S : Service E R σ χ ρ} {T : Terms E σ χ} {K : Contract E σ} {role : Role}

namespace Safe

theorem mono {post post' : Mode → α → σ → Prop} {mode : Mode} {program : Program E R α} {s : σ}
    (h : Safe S T K role post mode program s)
    (himp : ∀ mode value t, K.always t → post mode value t → post' mode value t) :
    Safe S T K role post' mode program s := by
  induction program generalizing mode s with
  | ret value => exact fun t hrely ha => himp _ _ _ ha (h t hrely ha)
  | op effect next ih =>
      intro t hrely ha
      refine ⟨(h t hrely ha).1, fun choice answer u hT hexec => ?_⟩
      obtain ⟨hu, hgive, hnext⟩ := (h t hrely ha).2 choice answer u hT hexec
      exact ⟨hu, hgive, ih answer hnext⟩
  | acquire next ih =>
      cases mode with
      | outside => exact fun t hrely ha hi => ih (h t hrely ha hi)
      | alone => exact @ih .alone s h
      | inside => exact h
  | release next ih =>
      cases mode with
      | outside => exact h
      | alone => exact @ih .alone s h
      | inside => exact fun t hq ha => ⟨(h t hq ha).1, ih (h t hq ha).2⟩

-- What others do between two steps of a program does not disturb it.
theorem stable {post : Mode → α → σ → Prop} {mode : Mode} {program : Program E R α} {s t : σ}
    (h : Safe S T K role post mode program s) (hst : K.rely role mode s t) :
    Safe S T K role post mode program t := by
  induction program generalizing mode s t with
  | ret value => exact fun u hrely ha => h u (K.rely_trans hst hrely) ha
  | op effect next ih => exact fun u hrely ha => h u (K.rely_trans hst hrely) ha
  | acquire next ih =>
      cases mode with
      | outside => exact fun u hrely ha hi => h u (K.rely_trans hst hrely) ha hi
      | alone => exact @ih .alone s t h hst
      | inside => exact h
  | release next ih =>
      cases mode with
      | outside => exact h
      | alone => exact @ih .alone s t h hst
      | inside =>
          have hquiet : K.quiet s t := by cases role <;> exact hst
          exact fun u hq ha => h u (K.quiet_trans hquiet hq) ha

theorem bind {post : Mode → β → σ → Prop} {mode : Mode} {program : Program E R α}
    {rest : α → Program E R β} {s : σ} (ha : K.always s)
    (h : Safe S T K role (fun mode value t => Safe S T K role post mode (rest value) t) mode program s) :
    Safe S T K role post mode (program.bind rest) s := by
  induction program generalizing mode s with
  | ret value => exact h s (K.rely_refl role mode s) ha
  | op effect next ih =>
      intro t hrely ht
      refine ⟨(h t hrely ht).1, fun choice answer u hT hexec => ?_⟩
      obtain ⟨hu, hgive, hnext⟩ := (h t hrely ht).2 choice answer u hT hexec
      exact ⟨hu, hgive, ih answer hu hnext⟩
  | acquire next ih =>
      cases mode with
      | outside => exact fun t hrely ht hi => ih ht (h t hrely ht hi)
      | alone => exact @ih .alone s ha h
      | inside => exact h
  | release next ih =>
      cases mode with
      | outside => exact h
      | alone => exact @ih .alone s ha h
      | inside => exact fun t hq ht => ⟨(h t hq ht).1, ih ht (h t hq ht).2⟩

-- Only the effects matter.
theorem congr {ρ' : Type} {S' : Service E R σ χ ρ'} (hexec : S.exec = S'.exec)
    {post : Mode → α → σ → Prop} {mode : Mode} {program : Program E R α} {s : σ}
    (h : Safe S T K role post mode program s) : Safe S' T K role post mode program s := by
  induction program generalizing mode s with
  | ret value => exact h
  | op effect next ih =>
      intro t hrely ha
      refine ⟨(h t hrely ha).1, fun choice answer u hT hu => ?_⟩
      obtain ⟨hau, hgive, hnext⟩ := (h t hrely ha).2 choice answer u hT (by rw [hexec]; exact hu)
      exact ⟨hau, hgive, ih answer hnext⟩
  | acquire next ih =>
      cases mode with
      | outside => exact fun t hrely ha hi => ih (h t hrely ha hi)
      | alone => exact @ih .alone s h
      | inside => exact h
  | release next ih =>
      cases mode with
      | outside => exact h
      | alone => exact @ih .alone s h
      | inside => exact fun t hq ha => ⟨(h t hq ha).1, ih (h t hq ha).2⟩

end Safe

end CloudLabs.Interaction
