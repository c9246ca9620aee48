import CloudLabs.Cdb.Connections.Replies

namespace CloudLabs.Cdb.Connections

open TcpServer

section Step

variable {s next : Shared} {busy : Kind × Nat → Bool} {job job' : Job}

-- What a step can do to the entry of a descriptor.
theorem entry_step (fd : Fd) (hstep : JobStep s busy job next job') :
    next.tracked.get fd = s.tracked.get fd ∨
      (∃ kind c, job.held = some (.clearCallback kind c) ∧ fd = (s.clients c).fd ∧
        next.tracked.get fd = some (((s.tracked.get fd).getD .new).setCallback kind none)) ∨
      (∃ c request, job.held = some (.setCallback c request) ∧ fd = (s.clients c).fd ∧
        next.tracked.get fd =
          some (((s.tracked.get fd).getD .new).setCallback request.kind (some (.client c)))) ∨
      (∃ c, .gone c ∈ job.marks ∧ fd = (s.clients c).fd) ∨
      ∃ kind, next.tracked.get fd =
        ((s.tracked.get fd).map fun info => info.setExecuting kind false).filter fun info => !info.isLeft := by
  cases hstep with
  | @cleared kind c hheld =>
      simp only [Shared.setCallback, Tracked.get_setCallback]
      by_cases hfd : fd = (s.clients c).fd
      · right; left
        refine ⟨kind, c, hheld, hfd, ?_⟩
        rw [if_pos hfd, hfd]
      · left
        rw [if_neg hfd]
  | @callbackSet c request hheld =>
      simp only [Shared.setCallback, Tracked.get_setCallback]
      by_cases hfd : fd = (s.clients c).fd
      · right; right; left
        refine ⟨c, request, hheld, hfd, ?_⟩
        rw [if_pos hfd, hfd]
      · left
        rw [if_neg hfd]
  | @unregistered c rest hheld htodo =>
      by_cases hfd : fd = (s.clients c).fd
      · right; right; right; left
        exact ⟨c, mem_marks_head htodo (by simp [Action.marks]), hfd⟩
      · left
        unfold Shared.unregister
        split
        · rfl
        · simp only [Tracked.get_unregister, if_neg hfd]
  | @completed kind fd' callback rest hheld htodo hrole =>
      unfold Shared.complete
      split
      · exact .inl rfl
      · simp only [Tracked.get_complete]
        by_cases hfd : fd = fd'
        · right; right; right; right
          exact ⟨kind, by rw [if_pos hfd, hfd]⟩
        · left
          rw [if_neg hfd]
  | _ => exact .inl rfl

-- A change of the entries wakes the poll thread up.
theorem notifications_step (hstep : JobStep s busy job next job') :
    (next.tracked = s.tracked ∧ next.notifications = s.notifications) ∨ 0 < next.notifications := by
  cases hstep with
  | cleared hheld => exact .inr (Nat.succ_pos _)
  | callbackSet hheld => exact .inr (Nat.succ_pos _)
  | unregistered hheld htodo =>
      unfold Shared.unregister
      split
      · exact .inl ⟨rfl, rfl⟩
      · exact .inr (Nat.succ_pos _)
  | completed hheld htodo hrole =>
      unfold Shared.complete
      split
      · exact .inl ⟨rfl, rfl⟩
      · exact .inr (Nat.succ_pos _)
  | _ => exact .inl ⟨rfl, rfl⟩

theorem Shared.accept_clients_self (s : Shared) (fd : Fd) :
    (s.accept fd).clients s.accepted = .accepted fd := if_pos rfl

theorem Shared.accept_clients_ne (s : Shared) {c : Nat} (h : c ≠ s.accepted) (fd : Fd) :
    (s.accept fd).clients c = s.clients c := if_neg h

-- A descriptor is closed, or it is the one of a new client.
theorem fd_step (c : Nat) (hstep : JobStep s busy job next job') :
    (next.clients c).fd = (s.clients c).fd ∨ (next.clients c).fd = -1 ∨
      ∃ fd, c = s.accepted ∧ s.isFree fd = true ∧ next = s.accept fd ∧ (next.clients c).fd = fd := by
  cases hstep with
  | received data hheld hrequests => exact .inl (Shared.setClient_field Client.fd rfl)
  | recvFailed hheld hrequests => exact .inl (Shared.setClient_field Client.fd rfl)
  | sent success hheld hrequests => exact .inl (Shared.setClient_field Client.fd rfl)
  | @pushed other request hheld =>
      cases request with
      | read prevData => exact .inl (Shared.setClient_field Client.fd rfl)
      | write request => exact .inl (Shared.setClient_field Client.fd rfl)
  | @accepted fd rest hheld htodo hfree =>
      by_cases heq : c = s.accepted
      · right; right
        refine ⟨fd, heq, hfree, rfl, ?_⟩
        rw [heq, Shared.accept_clients_self]
        rfl
      · left
        rw [Shared.accept_clients_ne s heq]
  | parsed hheld htodo => exact .inl (Shared.setClient_field Client.fd rfl)
  | setDisconnected hheld htodo => exact .inl (Shared.setClient_field Client.fd rfl)
  | @requestsCleared kind other rest hheld htodo hbusy =>
      cases kind with
      | rd => exact .inl (Shared.setClient_field Client.fd rfl)
      | wr => exact .inl (Shared.setClient_field Client.fd rfl)
  | @closed other rest hheld htodo =>
      by_cases heq : c = other
      · rw [heq, Shared.setClient_clients_self]
        exact .inr (.inl rfl)
      · rw [Shared.setClient_clients_ne _ heq]
        exact .inl rfl
  | @unregistered other rest hheld htodo =>
      rw [(s.unregister_clients other).1]
      exact .inl rfl
  | @completed kind fd callback rest hheld htodo hrole =>
      rw [(s.complete_clients kind fd).1]
      exact .inl rfl
  | _ => exact .inl rfl

theorem Client.hasRequests_push_ne {client : Client} {request : Request} {kind : Kind}
    (h : request.kind ≠ kind) : (client.push request).hasRequests kind = client.hasRequests kind := by
  cases request with
  | read prevData =>
      cases kind with
      | rd => exact absurd rfl h
      | wr => rfl
  | write request =>
      cases kind with
      | rd => rfl
      | wr => exact absurd rfl h

theorem Client.hasRequests_clear {client : Client} {other kind : Kind}
    (h : (client.clear other).hasRequests kind = true) : client.hasRequests kind = true := by
  cases other with
  | rd =>
      cases kind with
      | rd => simp [hasRequests, clear] at h
      | wr => exact h
  | wr =>
      cases kind with
      | rd => exact h
      | wr => simp [hasRequests, clear] at h

-- Requests that are there after a step were there before it, or the step pushed one.
theorem hasRequests_step {c : Nat} {kind : Kind} (hstep : JobStep s busy job next job')
    (h : (next.clients c).hasRequests kind = true) :
    (s.clients c).hasRequests kind = true ∨
      ∃ request, job.held = some (.push c request) ∧ request.kind = kind ∧ next.tracked = s.tracked := by
  have hset : ∀ (other : Nat) (client : Client),
      (client.hasRequests kind = true → (s.clients other).hasRequests kind = true) →
      ((s.setClient other client).clients c).hasRequests kind = true →
      (s.clients c).hasRequests kind = true := by
    intro other client hclient hafter
    by_cases hother : c = other
    · subst hother
      rw [Shared.setClient_clients_self] at hafter
      exact hclient hafter
    · rw [Shared.setClient_clients_ne _ hother] at hafter
      exact hafter
  cases hstep with
  | @received other cb requests data hheld hrequests =>
      refine .inl (hset other _ ?_ h)
      cases kind <;> simp [Client.hasRequests, hrequests]
  | @recvFailed other cb requests hheld hrequests =>
      refine .inl (hset other _ ?_ h)
      cases kind <;> simp [Client.hasRequests, hrequests]
  | @sent other request requests success hheld hrequests =>
      refine .inl (hset other _ ?_ h)
      cases kind <;> simp [Client.hasRequests, hrequests]
  | @pushed other request hheld =>
      by_cases hpushed : c = other ∧ request.kind = kind
      · obtain ⟨rfl, hkind⟩ := hpushed
        exact .inr ⟨request, hheld, hkind, rfl⟩
      · left
        by_cases hother : c = other
        · subst hother
          rw [Shared.setClient_clients_self,
            Client.hasRequests_push_ne fun hkind => hpushed ⟨rfl, hkind⟩] at h
          exact h
        · rw [Shared.setClient_clients_ne _ hother] at h
          exact h
  | @accepted fd rest hheld htodo hfree =>
      refine .inl (hset s.accepted (.accepted fd) ?_ h)
      cases kind <;> simp [Client.hasRequests, Client.accepted]
  | parsed hheld htodo => exact .inl (hset _ _ (fun h => by cases kind <;> exact h) h)
  | setDisconnected hheld htodo => exact .inl (hset _ _ (fun h => by cases kind <;> exact h) h)
  | @requestsCleared other c' rest hheld htodo hbusy =>
      exact .inl (hset c' _ Client.hasRequests_clear h)
  | closed hheld htodo => exact .inl (hset _ _ (fun h => by cases kind <;> exact h) h)
  | @unregistered other rest hheld htodo =>
      rw [(s.unregister_clients other).1] at h
      exact .inl h
  | @completed kind' fd callback rest hheld htodo hrole =>
      rw [(s.complete_clients kind' fd).1] at h
      exact .inl h
  | _ => exact .inl h

-- What is held after a step was held before it, unless the step took it: the
-- callback is set before the request is pushed, and it is cleared once no
-- request is left.
theorem held_step {held : Held} (hstep : JobStep s busy job next job') (h : job'.held = some held) :
    (∃ kind c, held = .serve kind c) ∨ (∃ c request, held = .submit c request) ∨
      (∃ c request, held = .setCallback c request) ∨
      (∃ c request, held = .push c request ∧ job.held = some (.setCallback c request) ∧
        next = s.setCallback request.kind c (some (.client c))) ∨
      ∃ kind c, held = .clearCallback kind c ∧ (next.clients c).hasRequests kind = false := by
  have hserved : ∀ (kind : Kind) (c : Nat) (last : Bool) (action : Action),
      (job.served kind c last action).held = some held → last = true ∧ held = .clearCallback kind c := by
    intro kind c last action hsome
    cases last with
    | true => exact ⟨rfl, (Option.some.inj hsome).symm⟩
    | false => cases hsome
  cases hstep with
  | @received c cb requests data hheld hrequests =>
      obtain ⟨hlast, rfl⟩ := hserved _ _ _ _ h
      right; right; right; right
      refine ⟨_, c, rfl, ?_⟩
      rw [Shared.setClient_clients_self]
      simpa [Client.hasRequests] using hlast
  | @recvFailed c cb requests hheld hrequests =>
      obtain ⟨hlast, rfl⟩ := hserved _ _ _ _ h
      right; right; right; right
      refine ⟨_, c, rfl, ?_⟩
      rw [Shared.setClient_clients_self]
      simpa [Client.hasRequests] using hlast
  | @sent c request requests success hheld hrequests =>
      obtain ⟨hlast, rfl⟩ := hserved _ _ _ _ h
      right; right; right; right
      refine ⟨_, c, rfl, ?_⟩
      rw [Shared.setClient_clients_self]
      simpa [Client.hasRequests] using hlast
  | @submitted c request hheld hconnected =>
      cases h
      exact .inr (.inr (.inl ⟨c, request, rfl⟩))
  | @callbackSet c request hheld =>
      cases h
      exact .inr (.inr (.inr (.inl ⟨c, request, rfl, hheld, rfl⟩)))
  | @serves kind c rest hheld htodo hbusy =>
      cases h
      exact .inl ⟨kind, c, rfl⟩
  | @submits c request rest hheld htodo hbusy =>
      cases h
      exact .inr (.inl ⟨c, request, rfl⟩)
  | readNothing result hheld hnone => cases h
  | wroteNothing success hheld hnone => cases h
  | cleared hheld => cases h
  | refused hheld hconnected => cases h
  | pushed hheld => cases h
  | accepted hheld htodo hfree => cases hheld.symm.trans h
  | replied data disconnects hheld htodo => cases hheld.symm.trans h
  | requestsCleared hheld htodo hbusy => cases hheld.symm.trans h
  | removed hheld htodo hremoved => cases hheld.symm.trans h
  | completed hheld htodo hrole => cases hheld.symm.trans h
  | ended hheld htodo hrole => cases hheld.symm.trans h
  | _ => next hheld htodo => cases hheld.symm.trans h

end Step

namespace System

variable {s : System}

-- A client that is connected owns its descriptor, whose entry nobody marked, and
-- its callbacks are set for the requests that it has.
structure Registered (s : System) : Prop where
  opened : ∀ c, (s.clients c).isConnected = true → 0 ≤ (s.clients c).fd
  owned : ∀ c c', (s.clients c).isConnected = true → (s.clients c').fd = (s.clients c).fd → c' = c
  unmarked : ∀ c info, (s.clients c).isConnected = true → s.tracked.get (s.clients c).fd = some info →
    info.markedUntrack = false
  pending : ∀ c kind, (s.clients c).isConnected = true → (s.clients c).hasRequests kind = true →
    ∃ info, s.tracked.get (s.clients c).fd = some info ∧ info.callback kind = some (.client c)
  pushing : ∀ i c request, (s.clients c).isConnected = true →
    (s.jobs i).held = some (.push c request) →
    ∃ info, s.tracked.get (s.clients c).fd = some info ∧ info.callback request.kind = some (.client c)
  clearing : ∀ i c kind, (s.jobs i).held = some (.clearCallback kind c) →
    (s.clients c).hasRequests kind = false

theorem not_closed {fd : Fd} (h : 0 ≤ fd) : fd ≠ -1 := by
  rintro rfl
  exact absurd h (by decide)

theorem Registered.opened_owned_step (h : s.Registered) (hplaced : s.Placed) {i : Nat} {shared : Shared}
    {job : Job} (hstep : JobStep s.toShared s.busy (s.jobs i) shared job) {c : Nat}
    (hconnected : (shared.clients c).isConnected = true) :
    0 ≤ (shared.clients c).fd ∧ ∀ c', (shared.clients c').fd = (shared.clients c).fd → c' = c := by
  have hfree : ∀ {fd : Fd} {c' : Nat}, s.toShared.isFree fd = true → c' < s.accepted →
      (s.clients c').fd ≠ fd := by
    intro fd c' hfree hc'
    simp only [Shared.isFree, Bool.and_eq_true, List.all_eq_true, decide_eq_true_eq] at hfree
    exact hfree.2 c' (List.mem_range.mpr hc')
  have hnonneg : ∀ {fd : Fd}, s.toShared.isFree fd = true → 0 ≤ fd := by
    intro fd hfree
    simp only [Shared.isFree, Bool.and_eq_true, decide_eq_true_eq] at hfree
    exact hfree.1.1
  have habsent : ∀ {c' : Nat}, s.accepted ≤ c' → (s.clients c').fd = -1 := by
    intro c' hc'
    rw [hplaced.absent c' hc']
    rfl
  obtain ⟨fd, heq, hisFree, hnext⟩ | ⟨hbefore, hsame⟩ := connected_step hstep (hplaced.gone i) hconnected
  · have hfd : (shared.clients c).fd = fd := by
      rw [heq, hnext, Shared.accept_clients_self]
      rfl
    rw [hfd]
    refine ⟨hnonneg hisFree, fun c' hc' => ?_⟩
    by_contra hne
    have hold : (shared.clients c').fd = (s.clients c').fd := by
      rw [hnext, Shared.accept_clients_ne _ (heq ▸ hne)]
    rw [hold] at hc'
    by_cases hlt : c' < s.accepted
    · exact hfree hisFree hlt hc'
    · exact not_closed (hnonneg hisFree) (hc'.symm.trans (habsent (Nat.le_of_not_lt hlt)))
  · rw [hsame]
    have hopen := h.opened c hbefore
    refine ⟨hopen, fun c' hc' => ?_⟩
    obtain hkept | hclosed | ⟨fd, heq, hisFree, -, hfd⟩ := fd_step c' hstep
    · exact h.owned c c' hbefore (hkept ▸ hc')
    · exact absurd (hc'.symm.trans hclosed) (not_closed hopen)
    · have hlt : c < s.accepted := by
        by_contra hle
        exact not_closed hopen (habsent (Nat.le_of_not_lt hle))
      exact absurd (hc'.symm.trans hfd) (hfree hisFree hlt)

-- No step marks the entry of a client that is connected, and its callback is
-- lost only to the job that clears it.
theorem Registered.entry_step (h : s.Registered) (hplaced : s.Placed) {i : Nat} {shared : Shared}
    {job : Job} (hstep : JobStep s.toShared s.busy (s.jobs i) shared job) {c : Nat}
    (hconnected : (s.clients c).isConnected = true) :
    (∀ info, shared.tracked.get (s.clients c).fd = some info → info.markedUntrack = false) ∧
      ∀ kind info, s.tracked.get (s.clients c).fd = some info → info.callback kind = some (.client c) →
        (s.jobs i).held ≠ some (.clearCallback kind c) →
        ∃ info', shared.tracked.get (s.clients c).fd = some info' ∧
          info'.callback kind = some (.client c) := by
  have hnew : ((s.tracked.get (s.clients c).fd).getD .new).markedUntrack = false := by
    cases hget : s.tracked.get (s.clients c).fd with
    | none => rfl
    | some info => exact h.unmarked c info hconnected hget
  obtain heq | ⟨kind', c', hheld, hfd, heq⟩ | ⟨c', request, hheld, hfd, heq⟩ | ⟨c', hgone, hfd⟩ |
    ⟨kind', heq⟩ := Connections.entry_step (s.clients c).fd hstep
  · rw [heq]
    exact ⟨fun info => h.unmarked c info hconnected,
      fun kind info hget hcallback _ => ⟨info, hget, hcallback⟩⟩
  · rw [heq]
    obtain rfl := h.owned c c' hconnected hfd.symm
    refine ⟨fun info hget => ?_, fun kind info hget hcallback hnot => ⟨_, rfl, ?_⟩⟩
    · cases hget
      exact hnew
    · have hkind : kind ≠ kind' := fun hkind => hnot (hkind ▸ hheld)
      rw [FdInfo.setCallback_callback_ne _ hkind, hget]
      exact hcallback
  · rw [heq]
    obtain rfl := h.owned c c' hconnected hfd.symm
    refine ⟨fun info hget => ?_, fun kind info hget hcallback _ => ⟨_, rfl, ?_⟩⟩
    · cases hget
      exact hnew
    · by_cases hkind : kind = request.kind
      · rw [hkind, FdInfo.setCallback_callback]
      · rw [FdInfo.setCallback_callback_ne _ hkind, hget]
        exact hcallback
  · obtain rfl := h.owned c c' hconnected hfd.symm
    have hclosed := hplaced.gone i c' hgone
    rw [hconnected] at hclosed
    cases hclosed
  · rw [heq]
    refine ⟨fun info hget => ?_, fun kind info hget hcallback _ => ?_⟩
    · obtain ⟨old, hold, rfl⟩ := Option.map_eq_some_iff.mp (Option.filter_eq_some_iff.mp hget).1
      exact h.unmarked c old hconnected hold
    · have hunmarked := h.unmarked c info hconnected hget
      refine ⟨info.setExecuting kind' false, ?_, hcallback⟩
      rw [hget, Option.map_some, Option.filter_some, if_pos]
      simp [FdInfo.isLeft, hunmarked]

theorem Registered.step_job (h : s.Registered) (hplaced : s.Placed) (hordered : s.Ordered) {i : Nat}
    {shared : Shared} {job : Job} (hstep : JobStep s.toShared s.busy (s.jobs i) shared job)
    (hfresh : ∀ fd info, shared = s.toShared.accept fd → s.tracked.get fd = some info →
      info.markedUntrack = false) :
    Registered { s.setJob i job with toShared := shared } := by
  -- a client that a job knew and that is connected was so before the step
  have hbefore : ∀ j c, .mentions c ∈ (s.jobs j).marks → (shared.clients c).isConnected = true →
      (s.clients c).isConnected = true ∧ (shared.clients c).fd = (s.clients c).fd := by
    intro j c hmark hconnected
    obtain ⟨fd, heq, -⟩ | hbefore := connected_step hstep (hplaced.gone i) hconnected
    · exact absurd (hplaced.mentions j c hmark) (heq ▸ Nat.lt_irrefl _)
    · exact hbefore
  refine ⟨fun c hc => (h.opened_owned_step hplaced hstep hc).1,
    fun c c' hc => (h.opened_owned_step hplaced hstep hc).2 c', fun c info hc hget => ?_,
    fun c kind hc hrequests => ?_, fun j c request hc hheld => ?_, fun j c kind hheld => ?_⟩
  · have hget : shared.tracked.get (shared.clients c).fd = some info := hget
    obtain ⟨fd, heq, -, rfl⟩ | ⟨hbefore, hsame⟩ := connected_step hstep (hplaced.gone i) hc
    · refine hfresh fd info rfl ?_
      rw [heq, Shared.accept_clients_self] at hget
      exact hget
    · rw [hsame] at hget
      exact (h.entry_step hplaced hstep hbefore).1 info hget
  · show ∃ info, shared.tracked.get (shared.clients c).fd = some info ∧ _
    obtain hrequests | ⟨request, hheld, rfl, htracked⟩ := hasRequests_step hstep hrequests
    · obtain ⟨fd, heq, -⟩ | ⟨hbefore, hsame⟩ := connected_step hstep (hplaced.gone i) hc
      · rw [heq, hplaced.absent _ (Nat.le_refl _)] at hrequests
        cases kind <;> simp [Client.hasRequests, Client.none] at hrequests
      · obtain ⟨info, hget, hcallback⟩ := h.pending c kind hbefore hrequests
        rw [hsame]
        refine (h.entry_step hplaced hstep hbefore).2 kind info hget hcallback fun hclear => ?_
        rw [h.clearing i c kind hclear] at hrequests
        cases hrequests
    · obtain ⟨hbefore, hsame⟩ := hbefore i c
        (mem_marks_held hheld (by cases request <;> simp [Held.marks, Request.marks])) hc
      rw [htracked, hsame]
      exact h.pushing i c request hbefore hheld
  · have hheld : ((s.setJob i job).jobs j).held = some (.push c request) := hheld
    show ∃ info, shared.tracked.get (shared.clients c).fd = some info ∧ _
    by_cases hj : j = i
    · rw [hj, setJob_jobs_self] at hheld
      obtain ⟨_, _, heq⟩ | ⟨_, _, heq⟩ | ⟨_, _, heq⟩ | ⟨_, _, heq, -, rfl⟩ | ⟨_, _, heq, -⟩ :=
        held_step hstep hheld
      · cases heq
      · cases heq
      · cases heq
      · cases heq
        refine ⟨_, (Tracked.get_setCallback _ _ _ _ _).trans (if_pos rfl), ?_⟩
        exact FdInfo.setCallback_callback _ _ _
      · cases heq
    · rw [setJob_jobs_ne hj] at hheld
      obtain ⟨hbefore, hsame⟩ := hbefore j c
        (mem_marks_held hheld (by cases request <;> simp [Held.marks, Request.marks])) hc
      obtain ⟨info, hget, hcallback⟩ := h.pushing j c request hbefore hheld
      rw [hsame]
      refine (h.entry_step hplaced hstep hbefore).2 request.kind info hget hcallback fun hclear => ?_
      refine hj (hordered.guarded j i (request.kind, c) ?_ ?_)
      · rw [hheld]
        rfl
      · rw [hclear]
        rfl
  · have hheld : ((s.setJob i job).jobs j).held = some (.clearCallback kind c) := hheld
    show (shared.clients c).hasRequests kind = false
    by_cases hj : j = i
    · rw [hj, setJob_jobs_self] at hheld
      obtain ⟨_, _, heq⟩ | ⟨_, _, heq⟩ | ⟨_, _, heq⟩ | ⟨_, _, heq, -⟩ | ⟨_, _, heq, hnone⟩ :=
        held_step hstep hheld
      · cases heq
      · cases heq
      · cases heq
      · cases heq
      · cases heq
        exact hnone
    · rw [setJob_jobs_ne hj] at hheld
      by_contra hafter
      obtain hrequests | ⟨request, hpush, rfl, -⟩ := hasRequests_step hstep (by simpa using hafter)
      · rw [h.clearing j c kind hheld] at hrequests
        cases hrequests
      · refine hj (hordered.guarded j i (request.kind, c) ?_ ?_)
        · rw [hheld]
          rfl
        · rw [hpush]
          rfl

-- Entries that keep their callbacks and are not marked.
theorem Registered.of_kept {next : System} (h : s.Registered) (hjobs : next.jobs = s.jobs)
    (hclients : next.clients = s.clients)
    (hmarked : ∀ fd info, next.tracked.get fd = some info →
      ∃ info', s.tracked.get fd = some info' ∧ info'.markedUntrack = info.markedUntrack)
    (hkept : ∀ fd info, s.tracked.get fd = some info → info.markedUntrack = false →
      ∃ info', next.tracked.get fd = some info' ∧ info'.callback = info.callback) : next.Registered := by
  have hcallback : ∀ c kind, (s.clients c).isConnected = true →
      (∃ info, s.tracked.get (s.clients c).fd = some info ∧ info.callback kind = some (.client c)) →
      ∃ info, next.tracked.get (s.clients c).fd = some info ∧ info.callback kind = some (.client c) := by
    rintro c kind hconnected ⟨info, hget, hcallback⟩
    obtain ⟨info', hget', hsame⟩ := hkept _ info hget (h.unmarked c info hconnected hget)
    exact ⟨info', hget', hsame ▸ hcallback⟩
  refine ⟨?_, ?_, ?_, ?_, ?_, ?_⟩
  · rw [hclients]
    exact h.opened
  · rw [hclients]
    exact h.owned
  · rw [hclients]
    intro c info hconnected hget
    obtain ⟨info', hget', hsame⟩ := hmarked _ info hget
    exact hsame ▸ h.unmarked c info' hconnected hget'
  · rw [hclients]
    exact fun c kind hconnected hrequests => hcallback c kind hconnected (h.pending c kind hconnected hrequests)
  · rw [hclients, hjobs]
    exact fun i c request hconnected hheld =>
      hcallback c request.kind hconnected (h.pushing i c request hconnected hheld)
  · rw [hclients, hjobs]
    exact h.clearing

theorem Registered.of_tracked {next : System} (h : s.Registered) (hjobs : next.jobs = s.jobs)
    (hclients : next.clients = s.clients) (htracked : next.tracked = s.tracked) : next.Registered := by
  refine h.of_kept hjobs hclients ?_ ?_
  · rw [htracked]
    exact fun _ info hget => ⟨info, hget, rfl⟩
  · rw [htracked]
    exact fun _ info hget _ => ⟨info, hget, rfl⟩

theorem Registered.spawn (h : s.Registered) {job : Job} (hheld : job.held = none) :
    (s.spawn job).Registered := by
  refine ⟨h.opened, h.owned, h.unmarked, h.pending, ?_, ?_⟩
  · refine forall_setJob (P := fun _ job => ∀ c request, (s.clients c).isConnected = true →
      job.held = some (.push c request) → ∃ info, s.tracked.get (s.clients c).fd = some info ∧
        info.callback request.kind = some (.client c)) ?_ fun j _ => h.pushing j
    intro c request _ hsome
    cases hheld.symm.trans hsome
  · refine forall_setJob (P := fun _ job => ∀ c kind, job.held = some (.clearCallback kind c) →
      (s.clients c).hasRequests kind = false) ?_ fun j _ => h.clearing j
    intro c kind hsome
    cases hheld.symm.trans hsome

theorem Registered.dispatch (h : s.Registered) (ready : Kind → List Fd) (fd : Fd) (kind : Kind) :
    (dispatchKind ready s fd kind).Registered := by
  obtain heq | ⟨info, callback, hinfo, -, -, heq⟩ := dispatch_eq ready fd kind s
  · rw [heq]
    exact h
  · rw [heq]
    have hset : Registered { s with tracked := (s.tracked.dispatch kind fd).1 } := by
      refine h.of_kept rfl rfl (fun fd' info' hget => ?_) fun fd' info' hget _ => ?_
      · simp only [Tracked.get_dispatch] at hget
        by_cases hfd : fd' = fd
        · rw [if_pos hfd, ← hfd] at hget
          obtain ⟨old, hold, rfl⟩ := Option.map_eq_some_iff.mp hget
          exact ⟨old, hold, rfl⟩
        · rw [if_neg hfd] at hget
          exact ⟨info', hget, rfl⟩
      · simp only [Tracked.get_dispatch]
        by_cases hfd : fd' = fd
        · rw [if_pos hfd, ← hfd, hget]
          exact ⟨_, rfl, rfl⟩
        · rw [if_neg hfd]
          exact ⟨info', hget, rfl⟩
    exact hset.spawn rfl

theorem Registered.sweep (h : s.Registered) (fd : Fd) : (sweepFd s fd).Registered := by
  refine h.of_kept rfl rfl (fun fd' info hget => ?_) fun fd' info hget hunmarked => ?_
  · simp only [sweepFd_tracked, Tracked.get_sweep] at hget
    by_cases hfd : fd' = fd
    · rw [if_pos hfd, ← hfd] at hget
      exact ⟨info, (Option.filter_eq_some_iff.mp hget).1, rfl⟩
    · rw [if_neg hfd] at hget
      exact ⟨info, hget, rfl⟩
  · simp only [sweepFd_tracked, Tracked.get_sweep]
    by_cases hfd : fd' = fd
    · refine ⟨info, ?_, rfl⟩
      rw [if_pos hfd, ← hfd, hget, Option.filter_some, if_pos]
      simp [FdInfo.isLeft, hunmarked]
    · rw [if_neg hfd]
      exact ⟨info, hget, rfl⟩

theorem Registered.stepPoll (h : s.Registered) (ready : Option Ready) : (s.stepPoll ready).Registered := by
  apply stepPoll_keeps (P := Registered) _ _ _ ready h
  · exact fun _ _ _ h => h.of_tracked rfl rfl rfl
  · exact fun ready _ fd kind h => h.dispatch ready fd kind
  · exact fun _ fd h => h.sweep fd

-- While the poll thread is in select, what it has to poll for is in its sets, or
-- the notifier wakes it up.
def Woken (s : System) : Prop :=
  ∀ polled sets, s.poll = .selecting polled sets → 0 < s.notifications ∨
    ∀ fd info kind, s.tracked.get fd = some info → info.wants kind = true → fd ∈ sets kind

theorem Woken.step_job (h : s.Woken) {i : Nat} {shared : Shared} {job : Job}
    (hstep : JobStep s.toShared s.busy (s.jobs i) shared job) :
    Woken { s.setJob i job with toShared := shared } := by
  intro polled sets hpoll
  obtain ⟨htracked, hnotifications⟩ | hpos := notifications_step hstep
  · show 0 < shared.notifications ∨ ∀ fd info kind, shared.tracked.get fd = some info → _
    rw [htracked, hnotifications]
    exact h polled sets hpoll
  · exact .inl hpos

theorem woken_of_idle (h : s.poll = .idle) : s.Woken := by
  intro polled sets hpoll
  cases h.symm.trans hpoll

theorem stepPoll_woken (ready : Option Ready) : (s.stepPoll ready).Woken := by
  unfold System.stepPoll
  split
  · intro polled sets hpoll
    cases hpoll
    exact .inr fun fd info kind hget hwants => s.tracked.mem_selectFds fd hget hwants
  · split
    · exact woken_of_idle rfl
    · intro polled sets hpoll
      cases hpoll
  · refine woken_of_idle (dispatchSelect_keeps (P := fun s : System => s.poll = .idle) ?_ ?_ _ _ rfl)
    · intro s fd kind hidle
      obtain heq | ⟨info, callback, -, -, -, heq⟩ := dispatch_eq _ fd kind s
      · rw [heq]
        exact hidle
      · rw [heq]
        exact hidle
    · exact fun _ _ hidle => hidle

end System

end CloudLabs.Cdb.Connections
