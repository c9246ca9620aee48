import CloudLabs.Interaction.Triple

namespace CloudLabs.Interaction

variable {E : Type} {R : E → Type} {σ χ ρ : Type} {α : Type}

-- A thread may end only after it has released the mutex.
def endsOutside (mode : Mode) (_ : Unit) (_ : σ) : Prop := mode = .outside

-- The process is ready to serve when it has booted.
def bootsIdle (K : Contract E σ) (_ : Mode) (_ : Unit) (s : σ) : Prop := K.idle s

-- While nobody has the mutex the state is idle, and the main thread may go on among
-- handlers.
def Shareable (S : Service E R σ χ ρ) (T : Terms E σ χ) (K : Contract E σ) (locked : Bool)
    (program : Program E R Unit) (s : σ) : Prop :=
  (locked = false → K.idle s) ∧ ∀ passes, Safe S T K .leader endsOutside
    (if locked then .inside else .outside) (program.bind fun _ => S.main passes) s

-- A process that has run its recovery() so far. Where requests may arrive before it
-- is over, it has to be safe among them as well.
structure Boots (S : Service E R σ χ ρ) (T : Terms E σ χ) (K : Contract E σ) (locked : Bool)
    (program : Program E R Unit) (s : σ) : Prop where
  balanced : program.Balanced locked
  alone : Safe S T K .leader (bootsIdle K) .alone program s
  early : T.early → Shareable S T K locked program s

-- The parts of a service keep the contract. What the terms allow a process that is
-- alone they allow any thread.
structure Honours (S : Service E R σ χ ρ) (T : Terms E σ χ) (K : Contract E σ) : Prop where
  main : ∀ passes s, K.always s → K.idle s →
    Safe S T K .leader endsOutside .outside (S.main passes) s
  handler : ∀ request s, K.always s →
    Safe S T K .worker endsOutside .outside (S.handler request) s
  environment : ∀ s choice t, K.always s → T.environment s choice →
    S.environment s choice = some t → K.always t ∧ K.quiet s t ∧ K.follow s t
  restart : ∀ s t, K.always s → T.crash s → S.restart s = some t →
    K.always t ∧ Boots S T K false S.recovery t
  effect : T.early → ∀ mode s effect choice, T.effect .alone s effect choice → T.effect mode s effect choice

-- The thread that was there first is the main thread.
def Role.of (thread : Nat) : Role := if thread = 0 then .leader else .worker

def ThreadsSafe (S : Service E R σ χ ρ) (T : Terms E σ χ) (K : Contract E σ)
    (holder : Option Nat) (threads : List (Program E R Unit)) (s : σ) : Prop :=
  ∀ thread program, threads[thread]? = some program →
    Safe S T K (.of thread) endsOutside (.of holder thread) program s

-- A process with these threads, of which the holder has the mutex.
structure Serves (S : Service E R σ χ ρ) (T : Terms E σ χ) (K : Contract E σ)
    (holder : Option Nat) (threads : List (Program E R Unit)) (s : σ) : Prop where
  started : threads ≠ []
  idle : holder = none → K.idle s
  holds : ∀ thread, holder = some thread → thread < threads.length
  safe : ThreadsSafe S T K holder threads s

-- The contract as an invariant of the whole pool.
def Kept (S : Service E R σ χ ρ) (T : Terms E σ χ) (K : Contract E σ) (pool : Pool E R σ) : Prop :=
  K.always pool.shared ∧
    match pool.phase with
    | .booting locked program => Boots S T K locked program pool.shared
    | .serving holder threads => Serves S T K holder threads pool.shared

variable {S : Service E R σ χ ρ} {T : Terms E σ χ} {K : Contract E σ} {role : Role}

theorem Role.of_eq_worker {thread other : Nat} (hne : other ≠ thread) (hleader : Role.of other = .leader) :
    Role.of thread = .worker := by
  simp only [Role.of] at *
  split at hleader
  · exact if_neg (by omega)
  · cases hleader

theorem Mode.of_eq_inside {holder : Option Nat} {thread : Nat} (h : Mode.of holder thread = .inside) :
    holder = some thread := by
  simp only [Mode.of] at h
  split at h
  · assumption
  · cases h

theorem Mode.of_self (thread : Nat) : Mode.of (some thread) thread = .inside := if_pos rfl

theorem Mode.of_none (thread : Nat) : Mode.of none thread = .outside := if_neg (by simp)

theorem Mode.of_ne {holder : Option Nat} {thread : Nat} (h : holder ≠ some thread) :
    Mode.of holder thread = .outside := if_neg h

theorem ThreadsSafe.stable {holder : Option Nat} {threads : List (Program E R Unit)} {s t : σ}
    (h : ThreadsSafe S T K holder threads s) (hquiet : K.quiet s t) (hfollow : K.follow s t) :
    ThreadsSafe S T K holder threads t := by
  intro thread program hp
  refine (h thread program hp).stable ?_
  cases Role.of thread <;> cases Mode.of holder thread
  case worker.outside => exact trivial
  case leader.outside => exact hfollow
  all_goals exact hquiet

-- One thread has moved on, and possibly taken or released the mutex.
theorem ThreadsSafe.set {holder holder' : Option Nat} {threads : List (Program E R Unit)} {s t : σ}
    {thread : Nat} {program : Program E R Unit} (h : ThreadsSafe S T K holder threads s)
    (hself : Safe S T K (.of thread) endsOutside (.of holder' thread) program t)
    (hother : ∀ other, other ≠ thread → Mode.of holder' other = Mode.of holder other ∧
      K.rely (.of other) (.of holder other) s t) :
    ThreadsSafe S T K holder' (threads.set thread program) t := by
  intro other q hq
  by_cases ho : thread = other
  · subst ho
    rw [List.getElem?_set_self'] at hq
    obtain ⟨_, _, rfl⟩ := Option.map_eq_some_iff.mp hq
    exact hself
  · rw [List.getElem?_set_ne ho] at hq
    obtain ⟨hmode, hrely⟩ := hother other (Ne.symm ho)
    rw [hmode]
    exact (h other q hq).stable hrely

-- What a step of one thread gives is what the others rely on.
theorem rely_of_give {holder : Option Nat} {thread other : Nat} {s t : σ} (hne : other ≠ thread)
    (hgive : K.give (.of thread) (.of holder thread) s t) : K.rely (.of other) (.of holder other) s t := by
  obtain ⟨hquiet, hfollow⟩ := hgive
  have hinside : Mode.of holder other = .inside → K.quiet s t := fun hin => hquiet <| by
    rw [Mode.of_eq_inside hin]
    exact Mode.of_ne (by simpa using hne)
  cases hrole : Role.of other with
  | leader =>
      cases hmode : Mode.of holder other with
      | outside => exact hfollow (Role.of_eq_worker hne hrole)
      | inside => exact hinside hmode
      | alone => simp only [Mode.of] at hmode; split at hmode <;> cases hmode
  | worker =>
      cases hmode : Mode.of holder other with
      | outside => exact trivial
      | inside => exact hinside hmode
      | alone => simp only [Mode.of] at hmode; split at hmode <;> cases hmode

-- A process that is served by nobody before it has recovered.
theorem Triple.boots {pre : σ → Prop} {post : Unit → σ → Prop} {program : Program E R Unit} {s : σ}
    (h : Triple S T K .leader .alone pre program post) (hbalanced : program.Balanced false)
    (hlate : ¬ T.early) (ha : K.always s) (hs : pre s) (hpost : ∀ t, K.always t → post () t → K.idle t) :
    Boots S T K false program s :=
  ⟨hbalanced, (h s ha hs).mono fun _ _ t hat ht => hpost t hat ht.2, fun hearly => absurd hearly hlate⟩

theorem Shareable.op {locked : Bool} {effect : E} {rest : R effect → Program E R Unit} {s t : σ}
    {choice : χ} {answer : R effect} (h : Shareable S T K locked (.op effect rest) s) (ha : K.always s)
    (hpermits : ∀ mode, T.effect mode s effect choice) (hexec : S.exec s effect choice = some (answer, t)) :
    Shareable S T K locked (rest answer) t := by
  obtain ⟨hidle, hsafe⟩ := h
  have hstep : ∀ passes, K.always t ∧ K.give .leader (if locked then .inside else .outside) s t ∧
      Safe S T K .leader endsOutside (if locked then .inside else .outside)
        ((rest answer).bind fun _ => S.main passes) t := fun passes =>
    (hsafe passes s (K.rely_refl _ _ s) ha).2 choice answer t (hpermits _) hexec
  refine ⟨fun hfree => ?_, fun passes => (hstep passes).2.2⟩
  obtain ⟨hat, hgive, -⟩ := hstep 0
  exact K.idle_quiet (hidle hfree) (hgive.1 (by rw [hfree]; rfl)) hat

theorem Boots.step {s : σ} {locked : Bool} {program : Program E R Unit} {choice : χ}
    {next : σ × Bool × Program E R Unit} (H : Honours S T K) (ha : K.always s)
    (hboots : Boots S T K locked program s)
    (hpermits : ∀ effect, program.next? = some effect → T.effect .alone s effect choice)
    (hstep : S.stepBoot s locked choice program = some next) :
    K.always next.1 ∧ Boots S T K next.2.1 next.2.2 next.1 := by
  obtain ⟨hbalanced, halone, hearly⟩ := hboots
  cases program with
  | ret value => cases hstep
  | op effect rest =>
      obtain ⟨⟨answer, t⟩, hexec, rfl⟩ := Option.map_eq_some_iff.mp hstep
      have hT := hpermits effect rfl
      obtain ⟨hat, -, hrest⟩ := (halone s (K.quiet_refl s) ha).2 choice answer t hT hexec
      refine ⟨hat, hbalanced answer, hrest, fun h => ?_⟩
      exact (hearly h).op ha (fun mode => H.effect h mode s effect choice hT) hexec
  | acquire rest =>
      obtain ⟨rfl, hbalanced⟩ := hbalanced
      cases hstep
      refine ⟨ha, hbalanced, halone, fun h => ⟨nofun, fun passes => ?_⟩⟩
      obtain ⟨hidle, hsafe⟩ := hearly h
      exact hsafe passes s (K.rely_refl _ _ s) ha (hidle rfl)
  | release rest =>
      obtain ⟨rfl, hbalanced⟩ := hbalanced
      cases hstep
      refine ⟨ha, hbalanced, halone, fun h => ?_⟩
      have hstep := fun passes => (hearly h).2 passes s (K.quiet_refl s) ha
      exact ⟨fun _ => (hstep 0).1, fun passes => (hstep passes).2⟩

-- What others may always do leaves a process that boots safe.
theorem Boots.stable {s t : σ} {locked : Bool} {program : Program E R Unit} (h : Boots S T K locked program s)
    (hat : K.always t) (hquiet : K.quiet s t) (hfollow : K.follow s t) : Boots S T K locked program t := by
  obtain ⟨hbalanced, halone, hearly⟩ := h
  refine ⟨hbalanced, halone.stable hquiet, fun h => ?_⟩
  obtain ⟨hidle, hsafe⟩ := hearly h
  refine ⟨fun hfree => K.idle_quiet (hidle hfree) hquiet hat, fun passes => (hsafe passes).stable ?_⟩
  cases locked
  · exact hfollow
  · exact hquiet

-- The first request starts a thread beside the main one.
theorem Shareable.serves {s : σ} {locked : Bool} {program : Program E R Unit} (H : Honours S T K)
    (ha : K.always s) (h : Shareable S T K locked program s) (passes : Nat) (request : ρ) :
    Serves S T K (if locked then some 0 else none) [program.bind fun _ => S.main passes, S.handler request] s := by
  obtain ⟨hidle, hsafe⟩ := h
  have hmode : Mode.of (if locked then some 0 else none) 0 = if locked then .inside else .outside := by
    cases locked <;> rfl
  have hother : Mode.of (if locked then some 0 else none) 1 = .outside := by
    cases locked <;> rfl
  refine ⟨by simp, fun hnone => hidle ?_, fun thread ht => ?_, fun thread started hp => ?_⟩
  · cases locked
    · rfl
    · cases hnone
  · cases locked
    · cases ht
    · cases ht
      simp
  · match thread with
    | 0 =>
        cases hp
        rw [hmode]
        exact hsafe passes
    | 1 =>
        cases hp
        rw [hother]
        exact H.handler request s ha
    | thread + 2 => cases hp

theorem Kept.step_thread {s : σ} {holder : Option Nat} {threads : List (Program E R Unit)}
    {thread : Nat} {program : Program E R Unit} {choice : χ} {next : σ × Option Nat × Program E R Unit}
    (ha : K.always s) (hidle : holder = none → K.idle s)
    (hholder : ∀ thread, holder = some thread → thread < threads.length)
    (hsafe : ThreadsSafe S T K holder threads s) (hthread : threads[thread]? = some program)
    (hpermits : ∀ effect, program.next? = some effect → T.effect (.of holder thread) s effect choice)
    (hstep : S.stepThread s holder thread choice program = some next) :
    K.always next.1 ∧ (next.2.1 = none → K.idle next.1) ∧
      (∀ other, next.2.1 = some other → other < threads.length) ∧
      ThreadsSafe S T K next.2.1 (threads.set thread next.2.2) next.1 := by
  have hself := hsafe thread program hthread
  cases program with
  | ret value => cases hstep
  | op effect rest =>
      obtain ⟨⟨answer, t⟩, hexec, rfl⟩ := Option.map_eq_some_iff.mp hstep
      obtain ⟨hat, hgive, hrest⟩ :=
        (hself s (K.rely_refl _ _ s) ha).2 choice answer t (hpermits effect rfl) hexec
      refine ⟨hat, fun hnone => ?_, hholder,
        hsafe.set hrest fun other ho => ⟨rfl, rely_of_give ho hgive⟩⟩
      subst hnone
      exact K.idle_quiet (hidle rfl) (hgive.1 (Mode.of_none thread)) hat
  | acquire rest =>
      simp only [Service.stepThread] at hstep
      split at hstep
      · rename_i hfree
        cases hstep
        subst hfree
        refine ⟨ha, (fun hnone => by cases hnone), fun other ho => ?_, hsafe.set ?_ fun other ho => ⟨?_, K.rely_refl _ _ s⟩⟩
        · cases ho
          exact (List.getElem?_eq_some_iff.mp hthread).1
        · rw [Mode.of_none] at hself
          simp only [Mode.of_self]
          exact hself s (K.rely_refl _ _ s) ha (hidle rfl)
        · exact (Mode.of_ne (by simpa using Ne.symm ho)).trans (Mode.of_none other).symm
      · cases hstep
  | release rest =>
      simp only [Service.stepThread] at hstep
      split at hstep
      · rename_i hheld
        cases hstep
        subst hheld
        rw [Mode.of_self] at hself
        obtain ⟨hi, hrest⟩ := hself s (K.quiet_refl s) ha
        refine ⟨ha, fun _ => hi, (fun other ho => by cases ho), hsafe.set ?_ fun other ho => ⟨?_, K.rely_refl _ _ s⟩⟩
        · simpa only [Mode.of_none] using hrest
        · exact (Mode.of_none other).trans (Mode.of_ne (by simpa using Ne.symm ho)).symm
      · cases hstep

theorem Kept.step {pool next : Pool E R σ} {move : Move χ ρ} (H : Honours S T K)
    (hkept : Kept S T K pool) (hmove : T.permits pool move) (hstep : S.step pool move = some next) :
    Kept S T K next := by
  obtain ⟨s, phase⟩ := pool
  obtain ⟨ha, hphase⟩ := hkept
  cases move with
  | crash =>
      have hrestart : (S.restart s).map (fun shared => Pool.mk shared (.booting false S.recovery)) = some next := by
        cases phase with
        | booting locked program => cases program <;> exact hstep
        | serving holder threads => exact hstep
      obtain ⟨t, ht, rfl⟩ := Option.map_eq_some_iff.mp hrestart
      exact H.restart s t ha hmove ht
  | environment choice =>
      have henv : (S.environment s choice).map (fun shared => Pool.mk shared phase) = some next := by
        cases phase with
        | booting locked program => cases program <;> exact hstep
        | serving holder threads => exact hstep
      obtain ⟨t, ht, rfl⟩ := Option.map_eq_some_iff.mp henv
      obtain ⟨hat, hquiet, hfollow⟩ := H.environment s choice t ha hmove ht
      cases phase with
      | booting locked program => exact ⟨hat, hphase.stable hat hquiet hfollow⟩
      | serving holder threads =>
          obtain ⟨hne, hidle, hholder, hthreads⟩ := hphase
          exact ⟨hat, hne, fun hn => K.idle_quiet (hidle hn) hquiet hat, hholder,
            hthreads.stable hquiet hfollow⟩
  | advance thread choice =>
      cases phase with
      | booting locked program =>
          have hboot : (S.stepBoot s locked choice program).map
              (fun next => Pool.mk next.1 (.booting next.2.1 next.2.2)) = some next := by
            cases program <;> exact hstep
          obtain ⟨t, ht, rfl⟩ := Option.map_eq_some_iff.mp hboot
          exact Boots.step H ha hphase hmove ht
      | serving holder threads =>
          obtain ⟨hne, hidle, hholder, hthreads⟩ := hphase
          obtain ⟨program, hthread, hrest⟩ := Option.bind_eq_some_iff.mp hstep
          obtain ⟨t, ht, rfl⟩ := Option.map_eq_some_iff.mp hrest
          have hnext := Kept.step_thread ha hidle hholder hthreads hthread
            (fun effect he => hmove effect (by simp [Pool.next?, hthread, he])) ht
          exact ⟨hnext.1, by simpa using hne, hnext.2.1, by simpa using hnext.2.2.1, hnext.2.2.2⟩
  | early passes request =>
      cases phase with
      | booting locked program =>
          have hserves : some (Pool.mk s (.serving (if locked then some 0 else none)
              [program.bind fun _ => S.main passes, S.handler request])) = some next := by
            cases program <;> exact hstep
          obtain rfl := Option.some.inj hserves
          exact ⟨ha, (hphase.early hmove).serves H ha passes request⟩
      | serving holder threads => cases hstep
  | arrive request =>
      cases phase with
      | booting locked program => cases program <;> cases hstep
      | serving holder threads =>
          obtain ⟨hne, hidle, hholder, hthreads⟩ := hphase
          cases hstep
          refine ⟨ha, by simp, hidle, fun thread ht => ?_, fun thread program hp => ?_⟩
          · have := hholder thread ht
            simp only [List.length_append]
            omega
          · rw [List.getElem?_append] at hp
            split at hp
            · exact hthreads thread program hp
            · rename_i hnew
              have hworker : Role.of thread = .worker := by
                have := List.length_pos_iff.mpr hne
                exact if_neg (by omega)
              rw [List.mem_singleton.mp (List.mem_of_getElem? hp), hworker,
                Mode.of_ne fun ht => hnew (hholder thread ht)]
              exact H.handler request s ha
  | serve passes =>
      cases phase with
      | booting locked program =>
          cases program with
          | ret value =>
              cases hstep
              have hidle : K.idle s := hphase.alone s (K.quiet_refl s) ha
              refine ⟨ha, by simp, fun _ => hidle, nofun, fun thread program hp => ?_⟩
              have hzero : thread = 0 := by
                have := (List.getElem?_eq_some_iff.mp hp).1
                simpa using this
              subst hzero
              rw [List.mem_singleton.mp (List.mem_of_getElem? hp), Mode.of_none]
              exact H.main passes s ha hidle
          | op effect rest => cases hstep
          | acquire rest => cases hstep
          | release rest => cases hstep
      | serving holder threads => cases hstep

theorem Service.Reachable.kept {start pool : Pool E R σ} (hreach : S.Reachable T start pool)
    (H : Honours S T K) (hstart : Kept S T K start) : Kept S T K pool := by
  induction hreach with
  | start => exact hstart
  | step move hreach hmove hstep ih => exact ih.step H hmove hstep

-- What a run may be cut at: whenever the mutex is free the state is idle.
theorem Kept.idle {pool : Pool E R σ} (hkept : Kept S T K pool) (hfree : pool.unlocked) :
    K.idle pool.shared := by
  obtain ⟨s, phase⟩ := pool
  obtain ⟨threads, rfl⟩ := hfree
  exact hkept.2.idle rfl

-- Every effect is carried out in a state in which it may be issued.
theorem Kept.issue {pool : Pool E R σ} (hkept : Kept S T K pool) {thread : Nat} {effect : E}
    (hnext : pool.next? thread = some effect) : K.issue (pool.mode thread) pool.shared effect := by
  obtain ⟨s, phase⟩ := pool
  obtain ⟨ha, hphase⟩ := hkept
  cases phase with
  | booting locked program =>
      cases program with
      | op first rest => cases hnext; exact (hphase.alone s (K.quiet_refl s) ha).1
      | ret value => cases hnext
      | acquire rest => cases hnext
      | release rest => cases hnext
  | serving holder threads =>
      obtain ⟨program, hthread, hprogram⟩ := Option.bind_eq_some_iff.mp hnext
      have hself := hphase.safe thread program hthread
      cases program with
      | op first rest => cases hprogram; exact (hself s (K.rely_refl _ _ s) ha).1
      | ret value => cases hprogram
      | acquire rest => cases hprogram
      | release rest => cases hprogram

-- Between its effects, what is known at each of them is known to the holder of
-- the mutex. An effect at which nothing is known has an outcome that changes
-- nothing.
theorem Safe.held {P : σ → Prop} {program : Program E R Unit} {s : σ}
    (h : Safe S T K role endsOutside .inside program s) (ha : K.always s)
    (hissue : ∀ effect, K.issue .inside s effect → P s ∨
      ∃ choice answer, T.effect .inside s effect choice ∧ S.exec s effect choice = some (answer, s))
    (hidle : K.idle s → P s) : P s := by
  induction program with
  | ret value => cases h s (K.rely_refl _ _ s) ha
  | op effect next ih =>
      obtain ⟨hi, hstep⟩ := h s (K.rely_refl _ _ s) ha
      rcases hissue effect hi with hP | ⟨choice, answer, hT, hexec⟩
      · exact hP
      · exact ih answer (hstep choice answer s hT hexec).2.2
  | acquire next ih => exact h.elim
  | release next ih => exact hidle (h s (K.quiet_refl s) ha).1

theorem Kept.held {P : σ → Prop} {pool : Pool E R σ} (hkept : Kept S T K pool) {holder : Nat}
    {threads : List (Program E R Unit)} (hphase : pool.phase = .serving (some holder) threads)
    (hissue : ∀ effect, K.issue .inside pool.shared effect → P pool.shared ∨ ∃ choice answer,
      T.effect .inside pool.shared effect choice ∧ S.exec pool.shared effect choice = some (answer, pool.shared))
    (hidle : K.idle pool.shared → P pool.shared) : P pool.shared := by
  obtain ⟨s, phase⟩ := pool
  cases hphase
  obtain ⟨ha, -, -, hholder, hthreads⟩ := hkept
  have hlt := hholder holder rfl
  have hself := hthreads holder threads[holder] (List.getElem?_eq_getElem hlt)
  rw [Mode.of_self] at hself
  exact hself.held ha hissue hidle

end CloudLabs.Interaction
