import CloudLabs.Cdb.Connections.Tasks

namespace CloudLabs.Cdb.Connections

open TcpServer

section Step

variable {s next : Shared} {busy : Kind × Nat → Bool} {job job' : Job}

@[simp] theorem Shared.setClient_clients_self (s : Shared) (c : Nat) (client : Client) :
    (s.setClient c client).clients c = client := if_pos rfl

theorem Shared.setClient_clients_ne (s : Shared) {c other : Nat} (h : other ≠ c) (client : Client) :
    (s.setClient c client).clients other = s.clients other := if_neg h

theorem Shared.unregister_clients (s : Shared) (c : Nat) :
    (s.unregister c).clients = s.clients ∧ (s.unregister c).accepted = s.accepted := by
  unfold Shared.unregister
  split <;> exact ⟨rfl, rfl⟩

theorem Shared.complete_clients (s : Shared) (kind : Kind) (fd : Fd) :
    (s.complete kind fd).clients = s.clients ∧ (s.complete kind fd).accepted = s.accepted := by
  unfold Shared.complete
  split <;> exact ⟨rfl, rfl⟩

-- The client that a step is about, if the step changes it, is one that the job
-- knows, unless the step accepts it.
theorem clients_step (hstep : JobStep s busy job next job') :
    (∃ fd, s.isFree fd = true ∧ next = s.accept fd) ∨
      (next.accepted = s.accepted ∧
        ∃ c client, .mentions c ∈ job.marks ∧ next.clients = (s.setClient c client).clients) ∨
      (next.accepted = s.accepted ∧ next.clients = s.clients) := by
  cases hstep with
  | @received c cb requests data hheld hrequests =>
      exact .inr (.inl ⟨rfl, c, _, mem_marks_held hheld (by simp [Held.marks]), rfl⟩)
  | @recvFailed c cb requests hheld hrequests =>
      exact .inr (.inl ⟨rfl, c, _, mem_marks_held hheld (by simp [Held.marks]), rfl⟩)
  | @sent c request requests success hheld hrequests =>
      exact .inr (.inl ⟨rfl, c, _, mem_marks_held hheld (by simp [Held.marks]), rfl⟩)
  | @pushed c request hheld =>
      refine .inr (.inl ⟨rfl, c, _, mem_marks_held hheld ?_, rfl⟩)
      cases request <;> simp [Held.marks, Request.marks]
  | @accepted fd rest hheld htodo hfree => exact .inl ⟨fd, hfree, rfl⟩
  | @parsed c prevData data rest hheld htodo =>
      exact .inr (.inl ⟨rfl, c, _, mem_marks_head htodo (by simp [Action.marks]), rfl⟩)
  | @setDisconnected c wait rest hheld htodo =>
      exact .inr (.inl ⟨rfl, c, _, mem_marks_head htodo (by simp [Action.marks]), rfl⟩)
  | @requestsCleared kind c rest hheld htodo hbusy =>
      exact .inr (.inl ⟨rfl, c, _, mem_marks_head htodo (by simp [Action.marks]), rfl⟩)
  | @closed c rest hheld htodo =>
      exact .inr (.inl ⟨rfl, c, _, mem_marks_head htodo (by simp [Action.marks]), rfl⟩)
  | @unregistered c rest hheld htodo =>
      exact .inr (.inr ⟨(s.unregister_clients c).2, (s.unregister_clients c).1⟩)
  | @completed kind fd callback rest hheld htodo hrole =>
      exact .inr (.inr ⟨(s.complete_clients kind fd).2, (s.complete_clients kind fd).1⟩)
  | _ => exact .inr (.inr ⟨rfl, rfl⟩)

-- A client that is connected after a step was connected before it, on the same
-- descriptor, unless it was accepted by the step.
theorem connected_step {c : Nat} (hstep : JobStep s busy job next job')
    (hgone : ∀ c, .gone c ∈ job.marks → (s.clients c).isConnected = false)
    (hconnected : (next.clients c).isConnected = true) :
    (∃ fd, c = s.accepted ∧ s.isFree fd = true ∧ next = s.accept fd) ∨
      ((s.clients c).isConnected = true ∧ (next.clients c).fd = (s.clients c).fd) := by
  have hset : ∀ (other : Nat) (client : Client), next.clients = (s.setClient other client).clients →
      (client.isConnected = true → (s.clients other).isConnected = true ∧
        client.fd = (s.clients other).fd) →
      (s.clients c).isConnected = true ∧ (next.clients c).fd = (s.clients c).fd := by
    intro other client hclients hclient
    rw [hclients] at hconnected ⊢
    by_cases hother : c = other
    · subst hother
      rw [Shared.setClient_clients_self] at hconnected ⊢
      exact hclient hconnected
    · rw [Shared.setClient_clients_ne _ hother] at hconnected ⊢
      exact ⟨hconnected, rfl⟩
  cases hstep with
  | received data hheld hrequests => exact .inr (hset _ _ rfl fun h => ⟨h, rfl⟩)
  | recvFailed hheld hrequests => exact .inr (hset _ _ rfl fun h => ⟨h, rfl⟩)
  | sent success hheld hrequests => exact .inr (hset _ _ rfl fun h => ⟨h, rfl⟩)
  | @pushed c request hheld =>
      refine .inr (hset _ _ rfl fun h => ?_)
      cases request <;> exact ⟨h, rfl⟩
  | @accepted fd rest hheld htodo hfree =>
      by_cases hnew : c = s.accepted
      · exact .inl ⟨fd, hnew, hfree, rfl⟩
      · right
        have hclients : (s.accept fd).clients = (s.setClient s.accepted (.accepted fd)).clients := rfl
        rw [hclients, Shared.setClient_clients_ne _ hnew] at hconnected ⊢
        exact ⟨hconnected, rfl⟩
  | parsed hheld htodo => exact .inr (hset _ _ rfl fun h => ⟨h, rfl⟩)
  | setDisconnected hheld htodo => exact .inr (hset _ _ rfl fun h => nomatch h)
  | @requestsCleared kind c rest hheld htodo hbusy =>
      refine .inr (hset _ _ rfl fun h => ?_)
      cases kind <;> exact ⟨h, rfl⟩
  | @closed c rest hheld htodo =>
      refine .inr (hset _ _ rfl fun h => ?_)
      have hclosed := hgone c (mem_marks_head htodo (by simp [Action.marks]))
      have hopen : (s.clients c).isConnected = true := h
      rw [hclosed] at hopen
      cases hopen
  | @unregistered c rest hheld htodo =>
      rw [(s.unregister_clients c).1] at hconnected ⊢
      exact .inr ⟨hconnected, rfl⟩
  | @completed kind fd callback rest hheld htodo hrole =>
      rw [(s.complete_clients kind fd).1] at hconnected ⊢
      exact .inr ⟨hconnected, rfl⟩
  | _ => exact .inr ⟨hconnected, rfl⟩

-- A callback that is set after a step was set before it, unless it is the one of
-- the client whose request is being submitted.
theorem callbacks_step {fd : Fd} {kind : Kind} {info : FdInfo Callback} {callback : Callback}
    (hstep : JobStep s busy job next job') (hget : next.tracked.get fd = some info)
    (hcallback : info.callback kind = some callback) :
    (∃ info', s.tracked.get fd = some info' ∧ info'.callback kind = some callback) ∨
      ∃ c request, job.held = some (.setCallback c request) ∧ callback = .client c ∧
        fd = (s.clients c).fd ∧ kind = request.kind := by
  have hset : ∀ (other : Kind) (c : Nat) (new : Option Callback),
      (s.setCallback other c new).tracked.get fd = some info →
      (∃ info', s.tracked.get fd = some info' ∧ info'.callback kind = some callback) ∨
        (new = some callback ∧ fd = (s.clients c).fd ∧ kind = other) := by
    intro other c new hget
    simp only [Shared.setCallback, Tracked.get_setCallback] at hget
    by_cases hfd : fd = (s.clients c).fd
    · rw [if_pos hfd] at hget
      cases hget
      by_cases hkind : kind = other
      · subst hkind
        rw [FdInfo.setCallback_callback] at hcallback
        exact .inr ⟨hcallback, hfd, rfl⟩
      · rw [FdInfo.setCallback_callback_ne _ hkind] at hcallback
        left
        rw [hfd]
        cases hold : s.tracked.get (s.clients c).fd with
        | none =>
            rw [hold] at hcallback
            cases hcallback
        | some old =>
            rw [hold] at hcallback
            exact ⟨old, rfl, hcallback⟩
    · rw [if_neg hfd] at hget
      exact .inl ⟨info, hget, hcallback⟩
  cases hstep with
  | cleared hheld =>
      obtain h | ⟨h, -, -⟩ := hset _ _ _ hget
      · exact .inl h
      · cases h
  | @callbackSet c request hheld =>
      obtain h | ⟨h, hfd, hkind⟩ := hset _ _ _ hget
      · exact .inl h
      · exact .inr ⟨c, request, hheld, (Option.some.inj h).symm, hfd, hkind⟩
  | @unregistered c rest hheld htodo =>
      left
      unfold Shared.unregister at hget
      split at hget
      · exact ⟨info, hget, hcallback⟩
      · simp only [Tracked.get_unregister] at hget
        by_cases hfd : fd = (s.clients c).fd
        · rw [if_pos hfd] at hget
          obtain ⟨old, hold, rfl⟩ := Option.map_eq_some_iff.mp hget
          exact ⟨old, hfd ▸ (Option.filter_eq_some_iff.mp hold).1, hcallback⟩
        · rw [if_neg hfd] at hget
          exact ⟨info, hget, hcallback⟩
  | @completed other fd' callback rest hheld htodo hrole =>
      left
      unfold Shared.complete at hget
      split at hget
      · exact ⟨info, hget, hcallback⟩
      · simp only [Tracked.get_complete] at hget
        by_cases hfd : fd = fd'
        · rw [if_pos hfd] at hget
          obtain ⟨old, hold, rfl⟩ := Option.map_eq_some_iff.mp (Option.filter_eq_some_iff.mp hget).1
          exact ⟨old, hfd ▸ hold, hcallback⟩
        · rw [if_neg hfd] at hget
          exact ⟨info, hget, hcallback⟩
  | _ => exact .inl ⟨info, hget, hcallback⟩

end Step

namespace System

variable {s : System}

-- The jobs and the entries know only clients that were accepted, and what they do
-- for a client that is connected they do on its descriptor.
structure Placed (s : System) : Prop where
  mentions : ∀ i c, .mentions c ∈ (s.jobs i).marks → c < s.accepted
  gone : ∀ i c, .gone c ∈ (s.jobs i).marks → (s.clients c).isConnected = false
  absent : ∀ c, s.accepted ≤ c → s.clients c = .none
  known : ∀ fd info kind c, s.tracked.get fd = some info → info.callback kind = some (.client c) →
    c < s.accepted
  callbacks : ∀ fd info kind c, s.tracked.get fd = some info → info.callback kind = some (.client c) →
    (s.clients c).isConnected = true → fd = (s.clients c).fd
  tasks : ∀ i kind fd c, (s.jobs i).role = .task kind fd (.client c) → (s.jobs i).live →
    (s.clients c).isConnected = true → fd = (s.clients c).fd
  reads : ∀ i c, .reads c ∈ (s.jobs i).marks → ∃ fd, (s.jobs i).role = .task .rd fd (.client c)

theorem mentions_of_role {job : Job} {kind : Kind} {fd : Fd} {c : Nat}
    (h : job.role = .task kind fd (.client c)) : .mentions c ∈ job.marks := by
  unfold Job.marks
  rw [h]
  exact List.mem_append_left _ (List.mem_singleton.mpr rfl)

-- The clients that a job knows after a step it knew before it, except for a new one.
theorem mentions_step {s next : Shared} {busy : Kind × Nat → Bool} {job job' : Job}
    (hstep : JobStep s busy job next job') {c : Nat} (hmark : .mentions c ∈ job'.marks) :
    .mentions c ∈ job.marks ∨ (c = s.accepted ∧ ∃ fd, next = s.accept fd) := by
  obtain hold | ⟨_, heq, _⟩ | ⟨heq, hnext⟩ | ⟨_, heq, _⟩ := marks_step hstep hmark
  · exact .inl hold
  · cases heq
  · obtain heq | heq := heq
    · cases heq
      exact .inr ⟨rfl, hnext⟩
    · cases heq
  · cases heq

theorem accepted_le_step {s next : Shared} {busy : Kind × Nat → Bool} {job job' : Job}
    (hstep : JobStep s busy job next job') : s.accepted ≤ next.accepted := by
  obtain ⟨fd, -, rfl⟩ | ⟨heq, -⟩ | ⟨heq, -⟩ := clients_step hstep
  · exact Nat.le_succ _
  · exact Nat.le_of_eq heq.symm
  · exact Nat.le_of_eq heq.symm

-- A client that is not connected before a step is not connected after it, unless
-- the step accepts it.
theorem Placed.not_connected_step (h : s.Placed) {i : Nat} {shared : Shared} {job : Job}
    (hstep : JobStep s.toShared s.busy (s.jobs i) shared job) {c : Nat} (hc : c < s.accepted)
    (hconnected : (s.clients c).isConnected = false) : (shared.clients c).isConnected = false := by
  by_contra hnext
  obtain ⟨fd, heq, -⟩ | ⟨hbefore, -⟩ := connected_step hstep (h.gone i) (by simpa using hnext)
  · omega
  · rw [hconnected] at hbefore
    cases hbefore

theorem Placed.step_job (h : s.Placed) {i : Nat} {shared : Shared} {job : Job}
    (hstep : JobStep s.toShared s.busy (s.jobs i) shared job) :
    Placed { s.setJob i job with toShared := shared } := by
  have hrole := role_step hstep
  have hlive := live_step hstep
  have hle := accepted_le_step hstep
  refine ⟨?_, ?_, ?_, ?_, ?_, ?_, ?_⟩
  · refine forall_setJob (P := fun _ job => ∀ c, .mentions c ∈ job.marks → c < shared.accepted) ?_ ?_
    · intro c hmark
      obtain hold | ⟨heq, fd, hnext⟩ := mentions_step hstep hmark
      · exact Nat.lt_of_lt_of_le (h.mentions i c hold) hle
      · rw [heq, hnext]
        exact Nat.lt_succ_self _
    · intro j hj c hmark
      exact Nat.lt_of_lt_of_le (h.mentions j c hmark) hle
  · refine forall_setJob
      (P := fun _ job => ∀ c, .gone c ∈ job.marks → (shared.clients c).isConnected = false) ?_ ?_
    · intro c hmark
      obtain hold | ⟨_, heq, _⟩ | ⟨heq | heq, _⟩ | ⟨other, heq, _, hgone⟩ :=
        marks_step hstep hmark
      · have hmentions : Mark.mentions c ∈ (s.jobs i).marks := mentions_of_gone hold
        exact h.not_connected_step hstep (h.mentions i c hmentions) (h.gone i c hold)
      · cases heq
      · cases heq
      · cases heq
      · cases heq
        exact hgone
    · intro j hj c hmark
      exact h.not_connected_step hstep (h.mentions j c (mentions_of_gone hmark)) (h.gone j c hmark)
  · intro c hc
    have hc : shared.accepted ≤ c := hc
    obtain ⟨fd, -, rfl⟩ | ⟨-, other, client, hmentions, hclients⟩ | ⟨-, hclients⟩ := clients_step hstep
    · have hne : c ≠ s.accepted := by
        have hsucc : (s.toShared.accept fd).accepted = s.accepted + 1 := rfl
        omega
      exact (Shared.setClient_clients_ne s.toShared hne (.accepted fd)).trans (h.absent c (by omega))
    · have hne : c ≠ other := by
        have hlt := h.mentions i other hmentions
        omega
      show shared.clients c = .none
      rw [hclients, Shared.setClient_clients_ne _ hne]
      exact h.absent c (by omega)
    · show shared.clients c = .none
      rw [hclients]
      exact h.absent c (by omega)
  · intro fd info kind c hget hcallback
    obtain ⟨old, hold, hcallback⟩ | ⟨other, request, hheld, heq, -, -⟩ :=
      callbacks_step hstep hget hcallback
    · exact Nat.lt_of_lt_of_le (h.known fd old kind c hold hcallback) hle
    · cases heq
      refine Nat.lt_of_lt_of_le (h.mentions i c (mem_marks_held hheld ?_)) hle
      cases request <;> simp [Held.marks, Request.marks]
  · intro fd info kind c hget hcallback hconnected
    obtain ⟨old, hold, hcallback⟩ | ⟨other, request, hheld, heq, hfd, -⟩ :=
      callbacks_step hstep hget hcallback
    · obtain ⟨fd', heq, -⟩ | ⟨hbefore, hsame⟩ := connected_step hstep (h.gone i) hconnected
      · have hlt := h.known fd old kind c hold hcallback
        omega
      · exact (h.callbacks fd old kind c hold hcallback hbefore).trans hsame.symm
    · cases heq
      obtain ⟨fd', heq, -⟩ | ⟨-, hsame⟩ := connected_step hstep (h.gone i) hconnected
      · have hlt := h.mentions i c (mem_marks_held hheld (by cases request <;> simp [Held.marks, Request.marks]))
        omega
      · exact hfd.trans hsame.symm
  · intro j kind fd c hj hjlive hconnected
    obtain ⟨hbeforeLive, hsameRole⟩ := live_setJob hlive hrole hjlive
    have hbeforeRole : (s.jobs j).role = .task kind fd (.client c) := hsameRole.symm.trans hj
    obtain ⟨fd', heq, -⟩ | ⟨hbefore, hsame⟩ := connected_step hstep (h.gone i) hconnected
    · have hlt := h.mentions j c (mentions_of_role hbeforeRole)
      omega
    · exact (h.tasks j kind fd c hbeforeRole hbeforeLive hbefore).trans hsame.symm
  · refine forall_setJob
      (P := fun _ job => ∀ c, .reads c ∈ job.marks → ∃ fd, job.role = .task .rd fd (.client c)) ?_ ?_
    · intro c hmark
      rw [hrole]
      obtain hold | ⟨_, heq, _⟩ | ⟨heq | heq, _⟩ | ⟨_, heq, _⟩ := marks_step hstep hmark
      · exact h.reads i c hold
      · cases heq
      · cases heq
      · cases heq
      · cases heq
    · exact fun j hj => h.reads j

-- Entries whose callbacks were there before.
theorem Placed.of_callbacks {next : System} (h : s.Placed) (hjobs : next.jobs = s.jobs)
    (hclients : next.clients = s.clients) (haccepted : next.accepted = s.accepted)
    (hkept : ∀ fd info, next.tracked.get fd = some info →
      ∃ info', s.tracked.get fd = some info' ∧ info'.callback = info.callback) : next.Placed := by
  refine ⟨?_, ?_, ?_, fun fd info kind c hget hcallback => ?_,
    fun fd info kind c hget hcallback hconnected => ?_, ?_, ?_⟩
  · rw [hjobs, haccepted]
    exact h.mentions
  · rw [hjobs, hclients]
    exact h.gone
  · rw [hclients, haccepted]
    exact h.absent
  · obtain ⟨info', hget', hsame⟩ := hkept fd info hget
    rw [haccepted]
    exact h.known fd info' kind c hget' (hsame ▸ hcallback)
  · obtain ⟨info', hget', hsame⟩ := hkept fd info hget
    rw [hclients] at hconnected ⊢
    exact h.callbacks fd info' kind c hget' (hsame ▸ hcallback) hconnected
  · rw [hjobs, hclients]
    exact h.tasks
  · rw [hjobs]
    exact h.reads

theorem Placed.spawn (h : s.Placed) {job : Job} (hmentions : ∀ c, .mentions c ∈ job.marks → c < s.accepted)
    (hgone : ∀ c, .gone c ∉ job.marks)
    (htasks : ∀ kind fd c, job.role = .task kind fd (.client c) → (s.clients c).isConnected = true →
      fd = (s.clients c).fd)
    (hreads : ∀ c, .reads c ∈ job.marks → ∃ fd, job.role = .task .rd fd (.client c)) :
    (s.spawn job).Placed := by
  refine ⟨?_, ?_, h.absent, h.known, h.callbacks, ?_, ?_⟩
  · exact forall_setJob (P := fun _ job => ∀ c, .mentions c ∈ job.marks → c < s.accepted) hmentions
      fun j _ => h.mentions j
  · exact forall_setJob
      (P := fun _ job => ∀ c, .gone c ∈ job.marks → (s.clients c).isConnected = false)
      (fun c hmark => absurd hmark (hgone c)) fun j _ => h.gone j
  · exact forall_setJob (P := fun _ job => ∀ kind fd c, job.role = .task kind fd (.client c) → job.live →
      (s.clients c).isConnected = true → fd = (s.clients c).fd)
      (fun kind fd c hrole _ => htasks kind fd c hrole) fun j _ => h.tasks j
  · exact forall_setJob
      (P := fun _ job => ∀ c, .reads c ∈ job.marks → ∃ fd, job.role = .task .rd fd (.client c))
      hreads fun j _ => h.reads j

theorem Placed.dispatch (h : s.Placed) (ready : Kind → List Fd) (fd : Fd) (kind : Kind) :
    (dispatchKind ready s fd kind).Placed := by
  obtain heq | ⟨info, callback, hget, hcallback, hidle, heq⟩ := dispatch_eq ready fd kind s
  · rw [heq]
    exact h
  · rw [heq]
    have hset : Placed { s with tracked := (s.tracked.dispatch kind fd).1 } := by
      refine h.of_callbacks rfl rfl rfl fun fd' info' hget' => ?_
      simp only [Tracked.get_dispatch] at hget'
      by_cases hfd : fd' = fd
      · rw [if_pos hfd, ← hfd] at hget'
        obtain ⟨old, hold, rfl⟩ := Option.map_eq_some_iff.mp hget'
        exact ⟨old, hold, rfl⟩
      · rw [if_neg hfd] at hget'
        exact ⟨info', hget', rfl⟩
    cases callback with
    | accept =>
        refine hset.spawn (fun c hmark => ?_) (fun c hmark => ?_) (fun kind fd c hrole => ?_) fun c hmark => ?_
        · simp [Job.marks, Job.ofTask, Callback.start, Role.marks, Action.marks] at hmark
        · simp [Job.marks, Job.ofTask, Callback.start, Role.marks, Action.marks] at hmark
        · cases hrole
        · simp [Job.marks, Job.ofTask, Callback.start, Role.marks, Action.marks] at hmark
    | client other =>
        refine hset.spawn (fun c hmark => ?_) (fun c hmark => ?_) (fun kind fd c hrole => ?_) fun c hmark => ?_
        · have heq : c = other := by
            cases kind <;> simpa [Job.marks, Job.ofTask, Callback.start, Role.marks, Action.marks] using hmark
          rw [heq]
          exact h.known fd info kind other hget hcallback
        · cases kind <;> simp [Job.marks, Job.ofTask, Callback.start, Role.marks, Action.marks] at hmark
        · cases hrole
          exact h.callbacks _ info _ _ hget hcallback
        · cases kind with
          | rd =>
              have heq : c = other := by
                simpa [Job.marks, Job.ofTask, Callback.start, Role.marks, Action.marks] using hmark
              rw [heq]
              exact ⟨fd, rfl⟩
          | wr => simp [Job.marks, Job.ofTask, Callback.start, Role.marks, Action.marks] at hmark

theorem Placed.sweep (h : s.Placed) (fd : Fd) : (sweepFd s fd).Placed := by
  refine h.of_callbacks rfl rfl rfl fun fd' info hget => ?_
  simp only [sweepFd_tracked, Tracked.get_sweep] at hget
  by_cases hfd : fd' = fd
  · rw [if_pos hfd, ← hfd] at hget
    exact ⟨info, (Option.filter_eq_some_iff.mp hget).1, rfl⟩
  · rw [if_neg hfd] at hget
    exact ⟨info, hget, rfl⟩

theorem Placed.stepPoll (h : s.Placed) (ready : Option Ready) : (s.stepPoll ready).Placed := by
  apply stepPoll_keeps (P := Placed) _ _ _ ready h
  · exact fun _ _ _ h => h.of_callbacks rfl rfl rfl fun _ info hget => ⟨info, hget, rfl⟩
  · exact fun ready _ fd kind h => h.dispatch ready fd kind
  · exact fun _ fd h => h.sweep fd

end System

end CloudLabs.Cdb.Connections
