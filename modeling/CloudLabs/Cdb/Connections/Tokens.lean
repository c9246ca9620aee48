import CloudLabs.Cdb.Connections.Clients

namespace CloudLabs.Cdb.Connections

open TcpServer

section Step

variable {s next : Shared} {busy : Kind × Nat → Bool} {job job' : Job}

theorem Action.rank_of_token {action : Action} {c : Nat} (h : .token c ∈ action.marks) :
    action.rank = 2 ∨ action.rank = 4 := by
  cases action with
  | serve kind _ => cases kind <;> simp [Action.marks] at h
  | submit _ request =>
      cases request with
      | read _ => exact .inr rfl
      | write _ => simp [Action.marks, Request.marks] at h
  | onReadAvailable => exact .inl rfl
  | handleDbRequests => exact .inl rfl
  | dispatch => exact .inr rfl
  | _ => simp [Action.marks] at h

-- The read that was pushed is not in the job any longer.
theorem not_token_of_pushed {c other : Nat} {prevData : Option Bytes} (h : job.Shaped)
    (hheld : job.held = some (.push c (.read prevData))) :
    .token other ∉ Job.marks { job with held := none } := by
  intro htoken
  simp only [Job.marks, Option.map_none, Option.getD_none, List.nil_append, List.mem_append,
    List.mem_flatMap] at htoken
  obtain hrole | ⟨action, haction, htoken⟩ := htoken
  · unfold Role.marks at hrole
    split at hrole <;> simp at hrole
  · unfold Job.Shaped at h
    rw [ranks_of_held hheld] at h
    have hlow := (List.pairwise_cons.mp h).1 action.rank (List.mem_map_of_mem haction)
    have hrank := Action.rank_of_token htoken
    simp only [follows, Held.rank, Request.rank] at hlow
    omega

-- The queue of reads gets shorter, or the read that the job has goes into it.
theorem readRequests_step (c : Nat) (hstep : JobStep s busy job next job') :
    (next.clients c).readRequests <:+ (s.clients c).readRequests ∨
      ∃ prevData, job.held = some (.push c (.read prevData)) ∧ job' = { job with held := none } ∧
        (next.clients c).readRequests = (s.clients c).readRequests ++ [prevData] := by
  have hset : ∀ (other : Nat) (client : Client), next.clients = (s.setClient other client).clients →
      client.readRequests <:+ (s.clients other).readRequests →
      (next.clients c).readRequests <:+ (s.clients c).readRequests := by
    intro other client hclients hsuffix
    rw [hclients]
    by_cases hother : c = other
    · subst hother
      rw [Shared.setClient_clients_self]
      exact hsuffix
    · rw [Shared.setClient_clients_ne _ hother]
  cases hstep with
  | @received other cb requests data hheld hrequests =>
      exact .inl (hset _ _ rfl (hrequests ▸ List.suffix_cons cb requests))
  | @recvFailed other cb requests hheld hrequests =>
      exact .inl (hset _ _ rfl (hrequests ▸ List.suffix_cons cb requests))
  | sent success hheld hrequests => exact .inl (hset _ _ rfl (List.suffix_refl _))
  | @pushed other request hheld =>
      cases request with
      | read prevData =>
          by_cases hother : c = other
          · subst hother
            exact .inr ⟨prevData, hheld, rfl, by rw [Shared.setClient_clients_self]; rfl⟩
          · left
            rw [Shared.setClient_clients_ne _ hother]
      | write request => exact .inl (hset _ _ rfl (List.suffix_refl _))
  | accepted hheld htodo hfree => exact .inl (hset _ _ rfl (List.nil_suffix))
  | parsed hheld htodo => exact .inl (hset _ _ rfl (List.suffix_refl _))
  | setDisconnected hheld htodo => exact .inl (hset _ _ rfl (List.suffix_refl _))
  | @requestsCleared kind other rest hheld htodo hbusy =>
      left
      refine hset _ _ rfl ?_
      cases kind with
      | rd => exact List.nil_suffix
      | wr => exact List.suffix_refl _
  | closed hheld htodo => exact .inl (hset _ _ rfl (List.suffix_refl _))
  | @unregistered other rest hheld htodo =>
      rw [(s.unregister_clients other).1]
      exact .inl (List.suffix_refl _)
  | @completed kind fd callback rest hheld htodo hrole =>
      rw [(s.complete_clients kind fd).1]
      exact .inl (List.suffix_refl _)
  | _ => exact .inl (List.suffix_refl _)

-- A queue of one read is empty once the read is served.
theorem readRequests_served {c : Nat} (hsingle : (s.clients c).readRequests.length ≤ 1)
    (hstep : JobStep s busy job next job') (hheld : job.held = some (.serve .rd c))
    (hne : (s.clients c).readRequests ≠ []) : (next.clients c).readRequests = [] := by
  have hrest : ∀ {cb : Option Bytes} {requests : List (Option Bytes)},
      (s.clients c).readRequests = cb :: requests → requests = [] := by
    intro cb requests hrequests
    rw [hrequests, List.length_cons] at hsingle
    exact List.length_eq_zero_iff.mp (by omega)
  cases hstep with
  | readNothing result hheld' hnone =>
      cases hheld.symm.trans hheld'
      exact absurd hnone hne
  | received data hheld' hrequests =>
      cases hheld.symm.trans hheld'
      rw [Shared.setClient_clients_self]
      exact hrest hrequests
  | recvFailed hheld' hrequests =>
      cases hheld.symm.trans hheld'
      rw [Shared.setClient_clients_self]
      exact hrest hrequests
  | wroteNothing success hheld' hnone => cases hheld.symm.trans hheld'
  | sent success hheld' hrequests => cases hheld.symm.trans hheld'
  | cleared hheld' => cases hheld.symm.trans hheld'
  | refused hheld' hconnected => cases hheld.symm.trans hheld'
  | submitted hheld' hconnected => cases hheld.symm.trans hheld'
  | callbackSet hheld' => cases hheld.symm.trans hheld'
  | pushed hheld' => cases hheld.symm.trans hheld'
  | replied data disconnects hheld' htodo => cases hheld.symm.trans hheld'
  | serves hheld' htodo hbusy => cases hheld.symm.trans hheld'
  | submits hheld' htodo hbusy => cases hheld.symm.trans hheld'
  | accepted hheld' htodo hfree => cases hheld.symm.trans hheld'
  | requestsCleared hheld' htodo hbusy => cases hheld.symm.trans hheld'
  | removed hheld' htodo hremoved => cases hheld.symm.trans hheld'
  | completed hheld' htodo hrole => cases hheld.symm.trans hheld'
  | ended hheld' htodo hrole => cases hheld.symm.trans hheld'
  | _ => next hheld' htodo => cases hheld.symm.trans hheld'

end Step

namespace System

variable {s : System}

-- Every job does its actions in order, and no two jobs hold the same mutex.
structure Ordered (s : System) : Prop where
  shaped : ∀ i, (s.jobs i).Shaped
  numbered : ∀ i, (s.jobs i).Numbered
  guarded : ∀ i j mutex, (s.jobs i).held.map Held.mutex = some mutex →
    (s.jobs j).held.map Held.mutex = some mutex → i = j

theorem Ordered.step_job (h : s.Ordered) (hexecuting : s.Executing) {i : Nat} {shared : Shared} {job : Job}
    (hstep : JobStep s.toShared s.busy (s.jobs i) shared job) :
    Ordered { s.setJob i job with toShared := shared } := by
  refine ⟨forall_setJob (P := fun _ job => job.Shaped) ((h.shaped i).step hstep) fun j _ => h.shaped j,
    forall_setJob (P := fun _ job => job.Numbered) ((h.numbered i).step (h.shaped i) hstep)
      fun j _ => h.numbered j, ?_⟩
  -- a mutex that the job holds after the step it held before, or nobody held it
  have hone : ∀ j mutex, j ≠ i → job.held.map Held.mutex = some mutex →
      (s.jobs j).held.map Held.mutex ≠ some mutex := by
    intro j mutex hj hjob hother
    obtain hold | hbusy := mutex_step hstep hjob
    · exact hj (h.guarded j i mutex hother hold)
    · exact hexecuting.busy_eq_false hbusy j hother
  intro j k mutex hj hk
  have hj : ((s.setJob i job).jobs j).held.map Held.mutex = some mutex := hj
  have hk : ((s.setJob i job).jobs k).held.map Held.mutex = some mutex := hk
  by_cases hji : j = i
  · by_cases hki : k = i
    · rw [hji, hki]
    · rw [hji, setJob_jobs_self] at hj
      rw [setJob_jobs_ne hki] at hk
      exact absurd hk (hone k mutex hki hj)
  · rw [setJob_jobs_ne hji] at hj
    by_cases hki : k = i
    · rw [hki, setJob_jobs_self] at hk
      exact absurd hj (hone j mutex hji hk)
    · rw [setJob_jobs_ne hki] at hk
      exact h.guarded j k mutex hj hk

theorem Ordered.spawn (h : s.Ordered) {job : Job} (hshaped : job.Shaped) (hnumbered : job.Numbered)
    (hheld : job.held = none) : (s.spawn job).Ordered := by
  refine ⟨forall_setJob (P := fun _ job => job.Shaped) hshaped fun j _ => h.shaped j,
    forall_setJob (P := fun _ job => job.Numbered) hnumbered fun j _ => h.numbered j, ?_⟩
  have hnone : ∀ mutex, ¬job.held.map Held.mutex = some mutex := by
    intro mutex hmutex
    rw [hheld] at hmutex
    cases hmutex
  intro j k mutex hj hk
  have hj : ((s.setJob s.spawned job).jobs j).held.map Held.mutex = some mutex := hj
  have hk : ((s.setJob s.spawned job).jobs k).held.map Held.mutex = some mutex := hk
  by_cases hji : j = s.spawned
  · rw [hji, setJob_jobs_self] at hj
    exact absurd hj (hnone mutex)
  · by_cases hki : k = s.spawned
    · rw [hki, setJob_jobs_self] at hk
      exact absurd hk (hnone mutex)
    · rw [setJob_jobs_ne hji] at hj
      rw [setJob_jobs_ne hki] at hk
      exact h.guarded j k mutex hj hk

theorem ofTask_shaped (task : CallbackTask Callback) : (Job.ofTask task).Shaped := by
  obtain ⟨kind, fd, callback⟩ := task
  cases callback <;> simp [Job.Shaped, Job.ranks, Job.ofTask, Callback.start, Action.rank, follows]

theorem ofTask_numbered (task : CallbackTask Callback) : (Job.ofTask task).Numbered := by
  obtain ⟨kind, fd, callback⟩ := task
  cases callback <;> exact .nil

theorem Ordered.of_jobs {next : System} (h : s.Ordered) (hjobs : next.jobs = s.jobs) : next.Ordered := by
  refine ⟨?_, ?_, ?_⟩
  · rw [hjobs]
    exact h.shaped
  · rw [hjobs]
    exact h.numbered
  · rw [hjobs]
    exact h.guarded

theorem Ordered.dispatch (h : s.Ordered) (ready : Kind → List Fd) (fd : Fd) (kind : Kind) :
    (dispatchKind ready s fd kind).Ordered := by
  obtain heq | ⟨info, callback, -, -, -, heq⟩ := dispatch_eq ready fd kind s
  · rw [heq]
    exact h
  · rw [heq]
    have hset : Ordered { s with tracked := (s.tracked.dispatch kind fd).1 } := h.of_jobs rfl
    exact hset.spawn (ofTask_shaped _) (ofTask_numbered _) rfl

theorem Ordered.stepPoll (h : s.Ordered) (ready : Option Ready) : (s.stepPoll ready).Ordered := by
  apply stepPoll_keeps (P := Ordered) _ _ _ ready h
  · exact fun _ _ _ h => h.of_jobs rfl
  · exact fun ready _ fd kind h => h.dispatch ready fd kind
  · exact fun _ _ h => h.of_jobs rfl

-- The one read that a client waits for is in its queue or in one job.
structure Tokens (s : System) : Prop where
  unique : ∀ i j c, .token c ∈ (s.jobs i).marks → .token c ∈ (s.jobs j).marks → i = j
  queue : ∀ i c, .token c ∈ (s.jobs i).marks → (s.clients c).readRequests = []
  single : ∀ c, (s.clients c).readRequests.length ≤ 1

theorem Tokens.step_job (h : s.Tokens) (hplaced : s.Placed) (hordered : s.Ordered) {i : Nat}
    {shared : Shared} {job : Job} (hstep : JobStep s.toShared s.busy (s.jobs i) shared job) :
    Tokens { s.setJob i job with toShared := shared } := by
  -- a read that the job has after the step is in no other job
  have hone : ∀ j c, j ≠ i → .token c ∈ job.marks → .token c ∉ (s.jobs j).marks := by
    intro j c hj hmark hother
    obtain hold | ⟨_, heq, _, hne⟩ | ⟨heq | heq, _⟩ | ⟨_, heq, _⟩ := marks_step hstep hmark
    · exact hj (h.unique j i c hother hold)
    · cases heq
      exact hne (h.queue j _ hother)
    · cases heq
    · cases heq
      exact Nat.lt_irrefl _ (hplaced.mentions j _ (mentions_of_token hother))
    · cases heq
  refine ⟨?_, ?_, ?_⟩
  · intro j k c hj hk
    have hj : Mark.token c ∈ ((s.setJob i job).jobs j).marks := hj
    have hk : Mark.token c ∈ ((s.setJob i job).jobs k).marks := hk
    by_cases hji : j = i
    · by_cases hki : k = i
      · rw [hji, hki]
      · rw [hji, setJob_jobs_self] at hj
        rw [setJob_jobs_ne hki] at hk
        exact absurd hk (hone k c hki hj)
    · rw [setJob_jobs_ne hji] at hj
      by_cases hki : k = i
      · rw [hki, setJob_jobs_self] at hk
        exact absurd hj (hone j c hji hk)
      · rw [setJob_jobs_ne hki] at hk
        exact h.unique j k c hj hk
  · intro j c hj
    have hj : Mark.token c ∈ ((s.setJob i job).jobs j).marks := hj
    show (shared.clients c).readRequests = []
    by_cases hji : j = i
    · rw [hji, setJob_jobs_self] at hj
      obtain hsuffix | ⟨prevData, hheld, hjob, -⟩ := readRequests_step c hstep
      · obtain hold | ⟨_, heq, hheld, hne⟩ | ⟨heq | heq, hnext⟩ | ⟨_, heq, _⟩ := marks_step hstep hj
        · rw [h.queue i c hold] at hsuffix
          exact List.suffix_nil.mp hsuffix
        · cases heq
          exact readRequests_served (h.single c) hstep hheld hne
        · cases heq
        · cases heq
          obtain ⟨fd, rfl⟩ := hnext
          show ((s.toShared.setClient s.accepted (.accepted fd)).clients s.accepted).readRequests = []
          rw [Shared.setClient_clients_self]
          rfl
        · cases heq
      · rw [hjob] at hj
        exact absurd hj (not_token_of_pushed (hordered.shaped i) hheld)
    · rw [setJob_jobs_ne hji] at hj
      obtain hsuffix | ⟨prevData, hheld, -, -⟩ := readRequests_step c hstep
      · rw [h.queue j c hj] at hsuffix
        exact List.suffix_nil.mp hsuffix
      · have hown : Mark.token c ∈ (s.jobs i).marks := mem_marks_held hheld (by simp [Held.marks, Request.marks])
        exact absurd (h.unique j i c hj hown) hji
  · intro c
    show (shared.clients c).readRequests.length ≤ 1
    obtain hsuffix | ⟨prevData, hheld, -, heq⟩ := readRequests_step c hstep
    · exact Nat.le_trans hsuffix.length_le (h.single c)
    · have hown : Mark.token c ∈ (s.jobs i).marks := mem_marks_held hheld (by simp [Held.marks, Request.marks])
      rw [heq, h.queue i c hown]
      exact Nat.le_refl 1

theorem Tokens.spawn (h : s.Tokens) {job : Job} (hjob : ∀ c, .token c ∉ job.marks) :
    (s.spawn job).Tokens := by
  refine ⟨?_, ?_, h.single⟩
  · intro j k c hj hk
    have hj : Mark.token c ∈ ((s.setJob s.spawned job).jobs j).marks := hj
    have hk : Mark.token c ∈ ((s.setJob s.spawned job).jobs k).marks := hk
    by_cases hji : j = s.spawned
    · rw [hji, setJob_jobs_self] at hj
      exact absurd hj (hjob c)
    · by_cases hki : k = s.spawned
      · rw [hki, setJob_jobs_self] at hk
        exact absurd hk (hjob c)
      · rw [setJob_jobs_ne hji] at hj
        rw [setJob_jobs_ne hki] at hk
        exact h.unique j k c hj hk
  · exact forall_setJob
      (P := fun _ job => ∀ c, .token c ∈ job.marks → (s.clients c).readRequests = [])
      (fun c hmark => absurd hmark (hjob c)) fun j _ => h.queue j

theorem ofTask_not_token (task : CallbackTask Callback) (c : Nat) : .token c ∉ (Job.ofTask task).marks := by
  obtain ⟨kind, fd, callback⟩ := task
  cases callback <;> cases kind <;>
    simp [Job.marks, Job.ofTask, Callback.start, Role.marks, Action.marks]

theorem Tokens.of_jobs {next : System} (h : s.Tokens) (hjobs : next.jobs = s.jobs)
    (hclients : next.clients = s.clients) : next.Tokens := by
  refine ⟨?_, ?_, ?_⟩
  · rw [hjobs]
    exact h.unique
  · rw [hjobs, hclients]
    exact h.queue
  · rw [hclients]
    exact h.single

theorem Tokens.dispatch (h : s.Tokens) (ready : Kind → List Fd) (fd : Fd) (kind : Kind) :
    (dispatchKind ready s fd kind).Tokens := by
  obtain heq | ⟨info, callback, -, -, -, heq⟩ := dispatch_eq ready fd kind s
  · rw [heq]
    exact h
  · rw [heq]
    have hset : Tokens { s with tracked := (s.tracked.dispatch kind fd).1 } := h.of_jobs rfl rfl
    exact hset.spawn (ofTask_not_token _)

theorem Tokens.stepPoll (h : s.Tokens) (ready : Option Ready) : (s.stepPoll ready).Tokens := by
  apply stepPoll_keeps (P := Tokens) _ _ _ ready h
  · exact fun _ _ _ h => h.of_jobs rfl rfl
  · exact fun ready _ fd kind h => h.dispatch ready fd kind
  · exact fun _ _ h => h.of_jobs rfl rfl

end System

end CloudLabs.Cdb.Connections
