import CloudLabs.Interaction.Contract

namespace CloudLabs.Interaction

variable {E : Type} {R : E → Type} {σ χ ρ : Type} {α β : Type}

-- What holds of a state keeps holding while the thread does nothing.
def Contract.Stable (K : Contract E σ) (role : Role) (mode : Mode) (P : σ → Prop) : Prop :=
  ∀ s t, P s → K.rely role mode s t → K.always t → P t

theorem Contract.Stable.of_quiet {K : Contract E σ} {role : Role} {mode : Mode} {P : σ → Prop}
    (hmode : mode ≠ .outside) (h : ∀ s t, P s → K.quiet s t → K.always t → P t) :
    K.Stable role mode P :=
  fun s t hs hrely hat => h s t hs ((Contract.rely_iff_quiet hmode).mp hrely) hat

theorem Contract.Stable.const {K : Contract E σ} {role : Role} {mode : Mode} (p : Prop) :
    K.Stable role mode fun _ => p := fun _ _ h _ _ => h

-- What a thread that holds the mutex knows of the state: nobody else makes it
-- false.
structure Contract.Assertion (K : Contract E σ) where
  holds : σ → Prop
  quiet : ∀ {s t}, holds s → K.quiet s t → K.always t → holds t

namespace Contract.Assertion

instance {K : Contract E σ} : CoeFun K.Assertion fun _ => σ → Prop := ⟨holds⟩

variable {K : Contract E σ} {role : Role} {mode : Mode}

theorem stable (A : K.Assertion) (hmode : mode ≠ .outside) : K.Stable role mode A.holds :=
  .of_quiet hmode fun _ _ h => A.quiet h

end Contract.Assertion

theorem Contract.Stable.and {K : Contract E σ} {role : Role} {mode : Mode} {P Q : σ → Prop}
    (hP : K.Stable role mode P) (hQ : K.Stable role mode Q) : K.Stable role mode fun s => P s ∧ Q s :=
  fun s t h hrely hat => ⟨hP s t h.1 hrely hat, hQ s t h.2 hrely hat⟩

-- From every state in which `pre` holds, the program keeps the contract without
-- touching the mutex in the end, and returns in states in which `post` holds.
def Triple (S : Service E R σ χ ρ) (T : Terms E σ χ) (K : Contract E σ) (role : Role) (mode : Mode)
    (pre : σ → Prop) (program : Program E R α) (post : α → σ → Prop) : Prop :=
  ∀ s, K.always s → pre s →
    Safe S T K role (fun last value t => last = mode ∧ post value t) mode program s

variable {S : Service E R σ χ ρ} {T : Terms E σ χ} {K : Contract E σ} {role : Role} {mode : Mode}

namespace Triple

theorem ret {pre : σ → Prop} {post : α → σ → Prop} {value : α} (hstable : K.Stable role mode pre)
    (h : ∀ s, K.always s → pre s → post value s) :
    Triple S T K role mode pre (.ret value) post :=
  fun _ _ hpre t hrely hat => ⟨rfl, h t hat (hstable _ t hpre hrely hat)⟩

-- One effect: what it needs when it is issued, and what each outcome leaves.
theorem op {effect : E} {pre : σ → Prop} {post : R effect → σ → Prop}
    (hpre : K.Stable role mode pre) (hpost : ∀ answer, K.Stable role mode (post answer))
    (h : ∀ s, K.always s → pre s → K.issue mode s effect ∧
      ∀ choice answer t, T.effect mode s effect choice → S.exec s effect choice = some (answer, t) →
        K.always t ∧ K.give role mode s t ∧ post answer t) :
    Triple S T K role mode pre (.op effect .ret) post := by
  intro s _ hs t hrely hat
  obtain ⟨hissue, hstep⟩ := h t hat (hpre s t hs hrely hat)
  refine ⟨hissue, fun choice answer u hT hexec => ?_⟩
  obtain ⟨hau, hgive, hu⟩ := hstep choice answer u hT hexec
  exact ⟨hau, hgive, fun v hv hav => ⟨rfl, hpost answer u v hu hv hav⟩⟩

theorem bind {pre : σ → Prop} {mid : α → σ → Prop} {post : β → σ → Prop} {program : Program E R α}
    {rest : α → Program E R β} (h : Triple S T K role mode pre program mid)
    (hrest : ∀ value, Triple S T K role mode (mid value) (rest value) post) :
    Triple S T K role mode pre (program.bind rest) post := by
  intro s ha hs
  refine Safe.bind ha ((h s ha hs).mono ?_)
  rintro last value t hat ⟨rfl, ht⟩
  exact hrest value t hat ht

theorem imp {pre pre' : σ → Prop} {post post' : α → σ → Prop} {program : Program E R α}
    (h : Triple S T K role mode pre program post)
    (hpre : ∀ s, K.always s → pre' s → pre s)
    (hpost : ∀ value s, K.always s → post value s → post' value s) :
    Triple S T K role mode pre' program post' :=
  fun s ha hs => (h s ha (hpre s ha hs)).mono fun _ value t hat ht => ⟨ht.1, hpost value t hat ht.2⟩

theorem pre {pre pre' : σ → Prop} {post : α → σ → Prop} {program : Program E R α}
    (h : Triple S T K role mode pre program post) (hpre : ∀ s, K.always s → pre' s → pre s) :
    Triple S T K role mode pre' program post :=
  h.imp hpre fun _ _ _ => id

theorem post {pre : σ → Prop} {post post' : α → σ → Prop} {program : Program E R α}
    (h : Triple S T K role mode pre program post)
    (hpost : ∀ value s, K.always s → post value s → post' value s) :
    Triple S T K role mode pre program post' :=
  h.imp (fun _ _ => id) hpost

-- The same where the assertion in between has to be named.
theorem seq {pre : σ → Prop} (mid : α → σ → Prop) {post : β → σ → Prop} {program : Program E R α}
    {rest : α → Program E R β} (h : Triple S T K role mode pre program mid)
    (hrest : ∀ value, Triple S T K role mode (mid value) (rest value) post) :
    Triple S T K role mode pre (program.bind rest) post := h.bind hrest

-- A precondition that allows no state.
theorem of_false {pre : σ → Prop} {post : α → σ → Prop} {program : Program E R α}
    (h : ∀ s, K.always s → ¬ pre s) : Triple S T K role mode pre program post :=
  fun s ha hs => absurd hs (h s ha)

theorem of_forall {pre : σ → Prop} {post : α → σ → Prop} {program : Program E R α}
    (h : ∀ s, pre s → Triple S T K role mode pre program post) :
    Triple S T K role mode pre program post :=
  fun s ha hs => h s hs s ha hs

-- A fact that the precondition entails.
theorem assuming {pre : σ → Prop} {post : α → σ → Prop} {program : Program E R α} {fact : Prop}
    (hfact : ∀ s, K.always s → pre s → fact) (h : fact → Triple S T K role mode pre program post) :
    Triple S T K role mode pre program post :=
  fun s ha hs => h (hfact s ha hs) s ha hs

-- What each effect of a kind keeps, a program keeps that has only such effects.
theorem of_within {kind : E → Prop} {keeps : σ → Prop} {program : Program E R α} (hprogram : program.Within kind)
    (hstable : K.Stable role mode keeps)
    (h : ∀ effect, kind effect → ∀ s, K.always s → keeps s → K.issue mode s effect ∧
      ∀ choice answer t, T.effect mode s effect choice → S.exec s effect choice = some (answer, t) →
        K.always t ∧ K.give role mode s t ∧ keeps t) :
    Triple S T K role mode keeps program fun _ => keeps := by
  induction program with
  | ret value => exact ret hstable fun _ _ hs => hs
  | op effect next ih =>
      have hfirst := op hstable (fun _ => hstable) (h effect hprogram.1)
      exact bind hfirst fun answer => ih answer (hprogram.2 answer)
  | acquire next ih => exact hprogram.elim
  | release next ih => exact hprogram.elim

-- A scope under a lock guard, while the process boots.
theorem critical_alone {pre : σ → Prop} {post : α → σ → Prop} {body : Program E R α}
    (h : Triple S T K role .alone pre body post) (hpost : ∀ value, K.Stable role .alone (post value)) :
    Triple S T K role .alone pre (Program.critical body) post := by
  intro s ha hs
  refine Safe.bind ha ((h s ha hs).mono ?_)
  rintro last value t hat ⟨rfl, ht⟩
  exact fun u hrely hau => ⟨rfl, hpost value t u ht hrely hau⟩

-- A scope under a lock guard, while others run: it finds the state idle and
-- leaves it idle.
theorem critical {pre : σ → Prop} {post : α → σ → Prop} {body : Program E R α}
    (hpre : K.Stable role .outside pre)
    (h : Triple S T K role .inside (fun s => K.idle s ∧ pre s) body fun value s => K.idle s ∧ post value s)
    (hinside : ∀ value s t, post value s → K.quiet s t → K.always t → post value t)
    (houtside : ∀ value, K.Stable role .outside (post value)) :
    Triple S T K role .outside pre (Program.critical body) post := by
  intro s _ hs t hrely hat hidle
  refine Safe.bind hat ((h t hat ⟨hidle, hpre s t hs hrely hat⟩).mono ?_)
  rintro last value u _ ⟨rfl, hiu, hu⟩ v hq hav
  exact ⟨K.idle_quiet hiu hq hav, fun x hrx hax =>
    ⟨rfl, houtside value v x (hinside value u v hu hq hav) hrx hax⟩⟩

-- A program that ends outside of the mutex, as a thread must.
theorem ends {pre : σ → Prop} {post : Unit → σ → Prop} {program : Program E R Unit} {s : σ}
    (h : Triple S T K role .outside pre program post) (ha : K.always s) (hs : pre s) :
    Safe S T K role (fun last _ _ => last = .outside) .outside program s :=
  (h s ha hs).mono fun _ _ _ _ ht => ht.1

end Triple

end CloudLabs.Interaction
