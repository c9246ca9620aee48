import CloudLabs.Cdb.Connections.Registered

namespace CloudLabs.Cdb.Connections

open TcpServer

section Step

variable {s next : Shared} {busy : Kind × Nat → Bool} {job job' : Job}

-- A job that is in do_read or do_write of a client, or on its way there.
def Job.serves (kind : Kind) (c : Nat) (job : Job) : Prop :=
  job.held = some (.serve kind c) ∨ job.held = some (.clearCallback kind c) ∨ .serve kind c ∈ job.todo

theorem serves_of_todo {kind : Kind} {c : Nat} {action : Action} {rest : List Action} (new : List Action)
    (htodo : job.todo = action :: rest) (hnew : .serve kind c ∉ new)
    (h : Job.serves kind c { job with todo := new ++ rest }) : job.serves kind c := by
  rcases h with h | h | h
  · exact .inl h
  · exact .inr (.inl h)
  · rcases List.mem_append.mp h with h | h
    · exact absurd h hnew
    · exact .inr (.inr (by rw [htodo]; exact List.mem_cons_of_mem action h))

theorem serves_of_held {kind : Kind} {c : Nat} {held : Option Held} (new : List Action)
    (hheld : held = none ∨ held = job.held ∨ (∃ c' request, held = some (.setCallback c' request)) ∨
      (∃ c' request, held = some (.push c' request))) (hnew : .serve kind c ∉ new)
    (h : Job.serves kind c { job with held := held, todo := new ++ job.todo }) : job.serves kind c := by
  rcases h with h | h | h
  · rcases hheld with rfl | rfl | ⟨_, _, rfl⟩ | ⟨_, _, rfl⟩
    · cases h
    · exact .inl h
    · cases h
    · cases h
  · rcases hheld with rfl | rfl | ⟨_, _, rfl⟩ | ⟨_, _, rfl⟩
    · cases h
    · exact .inr (.inl h)
    · cases h
    · cases h
  · rcases List.mem_append.mp h with h | h
    · exact absurd h hnew
    · exact .inr (.inr h)

-- The end of do_read and do_write.
theorem serves_of_served {kind kind' : Kind} {c c' : Nat} {last : Bool} {action : Action}
    (hheld : job.held = some (.serve kind' c')) (haction : ∀ kind c, action ≠ .serve kind c)
    (h : Job.serves kind c (job.served kind' c' last action)) : job.serves kind c := by
  rcases h with h | h | h
  · cases last <;> cases h
  · cases last with
    | false => cases h
    | true =>
        cases h
        exact .inl hheld
  · rcases List.mem_cons.mp h with h | h
    · exact absurd h.symm (haction kind c)
    · exact .inr (.inr h)

theorem serves_step {kind : Kind} {c : Nat} (hstep : JobStep s busy job next job')
    (h : job'.serves kind c) : job.serves kind c := by
  cases hstep with
  | @readNothing c' result hheld hnone =>
      exact serves_of_held [.onReadAvailable c' result none] (.inl rfl) (by simp) h
  | received data hheld hrequests => exact serves_of_served hheld (by simp) h
  | recvFailed hheld hrequests => exact serves_of_served hheld (by simp) h
  | @wroteNothing c' success hheld hnone =>
      exact serves_of_held [.onWriteAvailable c' success false] (.inl rfl) (by simp) h
  | sent success hheld hrequests => exact serves_of_served hheld (by simp) h
  | cleared hheld => exact serves_of_held [] (.inl rfl) (by simp) h
  | @refused c' request hheld hconnected =>
      refine serves_of_held (Job.notConnected c' request) (.inl rfl) ?_ h
      cases request <;> simp [Job.notConnected]
  | submitted hheld hconnected =>
      exact serves_of_held [] (.inr (.inr (.inl ⟨_, _, rfl⟩))) (by simp) h
  | callbackSet hheld => exact serves_of_held [] (.inr (.inr (.inr ⟨_, _, rfl⟩))) (by simp) h
  | pushed hheld => exact serves_of_held [] (.inl rfl) (by simp) h
  | @serves kind' c' rest hheld htodo hbusy =>
      right; right
      rw [htodo]
      rcases h with h | h | h
      · cases h
        exact List.mem_cons_self
      · cases h
      · exact List.mem_cons_of_mem _ h
  | submits hheld htodo hbusy =>
      right; right
      rw [htodo]
      rcases h with h | h | h
      · cases h
      · cases h
      · exact List.mem_cons_of_mem _ h
  | accepted hheld htodo hfree => exact serves_of_todo [.submit _ _] htodo (by simp) h
  | @readAvailable c' result cb rest hheld htodo =>
      refine serves_of_todo (Job.afterRead c' result cb) htodo ?_ h
      cases result <;> cases cb <;> simp [Job.afterRead]
  | @writeAvailable c' success disconnects rest hheld htodo =>
      refine serves_of_todo (Job.afterWrite c' success disconnects) htodo ?_ h
      cases success <;> cases disconnects <;> simp [Job.afterWrite]
  | @handledFailure c' prevData rest hheld htodo =>
      exact serves_of_todo [.disconnect c' false, .returned c'] htodo (by simp) h
  | @parsed c' prevData data rest hheld htodo =>
      exact serves_of_todo [.dispatch c' _ _ _, .returned c'] htodo (by simp) h
  | dispatchedAll hheld htodo => exact serves_of_todo [.submit _ _] htodo (by simp) h
  | replied data disconnects hheld htodo =>
      exact serves_of_todo [.submit _ _, .dispatch _ _ _ _] htodo (by simp) h
  | dispatched hheld htodo => exact serves_of_todo [.dispatch _ _ _ _] htodo (by simp) h
  | threw hheld htodo =>
      rcases h with h | h | h
      · exact .inl h
      · exact .inr (.inl h)
      · cases h
  | returned hheld htodo => exact serves_of_todo [] htodo (by simp) h
  | disconnects hheld htodo => exact serves_of_todo [.setDisconnected _ _] htodo (by simp) h
  | notConnected hheld htodo => exact serves_of_todo [] htodo (by simp) h
  | @setDisconnected c' wait rest hheld htodo =>
      refine serves_of_todo ([.clearRequests .rd c', .clearRequests .wr c', .unregister c', .close c'] ++
        if wait then [.waitOnRemoval c'] else []) htodo ?_ (by simpa [List.append_assoc] using h)
      cases wait <;> simp
  | requestsCleared hheld htodo hbusy => exact serves_of_todo [] htodo (by simp) h
  | unregistered hheld htodo => exact serves_of_todo [] htodo (by simp) h
  | closed hheld htodo => exact serves_of_todo [] htodo (by simp) h
  | removed hheld htodo hremoved => exact serves_of_todo [] htodo (by simp) h
  | completed hheld htodo hrole =>
      rcases h with h | h | h
      · exact .inl h
      · exact .inr (.inl h)
      · cases h
  | ended hheld htodo hrole =>
      rcases h with h | h | h
      · exact .inl h
      · exact .inr (.inl h)
      · cases h

-- An entry that is not there comes back only with a callback that is set.
theorem entry_none_step {fd : Fd} (hstep : JobStep s busy job next job') (hnone : s.tracked.get fd = none) :
    next.tracked.get fd = none ∨ ∃ c, (s.clients c).fd = fd ∧
      ((∃ kind, job.held = some (.clearCallback kind c)) ∨
        ∃ request, job.held = some (.setCallback c request)) := by
  cases hstep with
  | @cleared kind c hheld =>
      by_cases hfd : fd = (s.clients c).fd
      · exact .inr ⟨c, hfd.symm, .inl ⟨kind, hheld⟩⟩
      · left
        simp only [Shared.setCallback, Tracked.get_setCallback, if_neg hfd, hnone]
  | @callbackSet c request hheld =>
      by_cases hfd : fd = (s.clients c).fd
      · exact .inr ⟨c, hfd.symm, .inr ⟨request, hheld⟩⟩
      · left
        simp only [Shared.setCallback, Tracked.get_setCallback, if_neg hfd, hnone]
  | @unregistered c rest hheld htodo =>
      left
      unfold Shared.unregister
      split
      · exact hnone
      · rename_i hget
        have hfd : fd ≠ (s.clients c).fd := by
          rintro rfl
          rw [hnone] at hget
          cases hget
        simp only [Tracked.get_unregister, if_neg hfd, hnone]
  | @completed kind fd' callback rest hheld htodo hrole =>
      left
      unfold Shared.complete
      split
      · exact hnone
      · rename_i hget
        have hfd : fd ≠ fd' := by
          rintro rfl
          rw [hnone] at hget
          cases hget
        simp only [Tracked.get_complete, if_neg hfd, hnone]
  | _ => exact .inl hnone

end Step

namespace System

variable {s : System}

-- The descriptor of a client is its own until it is closed, and what is done for
-- the client is done on this descriptor.
structure Located (s : System) : Prop where
  owned : ∀ c c', 0 ≤ (s.clients c).fd → (s.clients c').fd = (s.clients c).fd → c' = c
  callbacks : ∀ fd info kind c, s.tracked.get fd = some info → info.callback kind = some (.client c) →
    0 ≤ (s.clients c).fd → fd = (s.clients c).fd
  tasks : ∀ i kind fd c, (s.jobs i).role = .task kind fd (.client c) → (s.jobs i).live →
    0 ≤ (s.clients c).fd → fd = (s.clients c).fd
  serving : ∀ i kind c, (s.jobs i).serves kind c → ∃ fd, (s.jobs i).role = .task kind fd (.client c)

-- A descriptor that is open after a step was so before it, unless it is new.
theorem fd_open_step {next : Shared} {busy : Kind × Nat → Bool} {job job' : Job} {c : Nat}
    (hstep : JobStep s.toShared busy job next job') (hc : c < s.accepted) (hopen : 0 ≤ (next.clients c).fd) :
    (next.clients c).fd = (s.clients c).fd := by
  obtain hkept | hclosed | ⟨fd, heq, -⟩ := fd_step c hstep
  · exact hkept
  · rw [hclosed] at hopen
    exact absurd hopen (by decide)
  · omega

theorem Located.owned_step (h : s.Located) (hplaced : s.Placed) {next : Shared} {busy : Kind × Nat → Bool}
    {job job' : Job} (hstep : JobStep s.toShared busy job next job') (c c' : Nat)
    (hopen : 0 ≤ (next.clients c).fd) (hsame : (next.clients c').fd = (next.clients c).fd) : c' = c := by
  have hfree : ∀ {fd : Fd} {other : Nat}, s.toShared.isFree fd = true → 0 ≤ fd →
      (s.clients other).fd ≠ fd := by
    intro fd other hfree hfd
    by_cases hother : other < s.accepted
    · simp only [Shared.isFree, Bool.and_eq_true, List.all_eq_true, decide_eq_true_eq] at hfree
      exact hfree.2 other (List.mem_range.mpr hother)
    · rw [hplaced.absent other (by omega)]
      exact (not_closed hfd).symm
  obtain hkept | hclosed | ⟨fd, rfl, hisFree, hnext, hfd⟩ := fd_step c hstep
  · obtain hkept' | hclosed' | ⟨fd', heq', hisFree', -, hfd'⟩ := fd_step c' hstep
    · rw [hkept] at hopen hsame
      exact h.owned c c' hopen (hkept'.symm.trans hsame)
    · rw [hsame] at hclosed'
      exact absurd hclosed' (not_closed hopen)
    · have hold : (s.clients c).fd = fd' := by rw [← hkept, ← hsame, hfd']
      exact absurd hold (hfree hisFree' (by rw [← hold, ← hkept]; exact hopen))
  · exact absurd hclosed (not_closed hopen)
  · by_contra hne
    have hold : (next.clients c').fd = (s.clients c').fd := by rw [hnext, Shared.accept_clients_ne _ hne]
    exact hfree hisFree (hfd ▸ hopen) (hold.symm.trans (hsame.trans hfd))

theorem Located.step_job (h : s.Located) (hplaced : s.Placed) {i : Nat} {shared : Shared} {job : Job}
    (hstep : JobStep s.toShared s.busy (s.jobs i) shared job) :
    Located { s.setJob i job with toShared := shared } := by
  have hrole := role_step hstep
  have hlive := live_step hstep
  refine ⟨h.owned_step hplaced hstep, fun fd info kind c hget hcallback hopen => ?_,
    fun j kind fd c hj hjlive hopen => ?_, ?_⟩
  · obtain ⟨old, hold, hcallback⟩ | ⟨other, request, hheld, heq, hfd, -⟩ :=
      callbacks_step hstep hget hcallback
    · have hsame := fd_open_step hstep (hplaced.known fd old kind c hold hcallback) hopen
      exact (h.callbacks fd old kind c hold hcallback (hsame ▸ hopen)).trans hsame.symm
    · cases heq
      have hlt := hplaced.mentions i c
        (mem_marks_held hheld (by cases request <;> simp [Held.marks, Request.marks]))
      exact hfd.trans (fd_open_step hstep hlt hopen).symm
  · obtain ⟨hbeforeLive, hsameRole⟩ := live_setJob hlive hrole hjlive
    have hbeforeRole : (s.jobs j).role = .task kind fd (.client c) := hsameRole.symm.trans hj
    have hsame := fd_open_step hstep (hplaced.mentions j c (mentions_of_role hbeforeRole)) hopen
    exact (h.tasks j kind fd c hbeforeRole hbeforeLive (hsame ▸ hopen)).trans hsame.symm
  · refine forall_setJob (P := fun _ job => ∀ kind c, job.serves kind c →
      ∃ fd, job.role = .task kind fd (.client c)) ?_ fun j _ => h.serving j
    intro kind c hserves
    rw [hrole]
    exact h.serving i kind c (serves_step hstep hserves)

-- Entries whose callbacks were there before.
theorem Located.of_callbacks {next : System} (h : s.Located) (hjobs : next.jobs = s.jobs)
    (hclients : next.clients = s.clients)
    (hkept : ∀ fd info, next.tracked.get fd = some info →
      ∃ info', s.tracked.get fd = some info' ∧ info'.callback = info.callback) : next.Located := by
  refine ⟨?_, fun fd info kind c hget hcallback hopen => ?_, ?_, ?_⟩
  · rw [hclients]
    exact h.owned
  · obtain ⟨info', hget', hsame⟩ := hkept fd info hget
    rw [hclients] at hopen ⊢
    exact h.callbacks fd info' kind c hget' (hsame ▸ hcallback) hopen
  · rw [hjobs, hclients]
    exact h.tasks
  · rw [hjobs]
    exact h.serving

theorem Located.spawn (h : s.Located) {job : Job}
    (htasks : ∀ kind fd c, job.role = .task kind fd (.client c) → 0 ≤ (s.clients c).fd →
      fd = (s.clients c).fd)
    (hserving : ∀ kind c, job.serves kind c → ∃ fd, job.role = .task kind fd (.client c)) :
    (s.spawn job).Located := by
  refine ⟨h.owned, h.callbacks, ?_, ?_⟩
  · exact forall_setJob (P := fun _ job => ∀ kind fd c, job.role = .task kind fd (.client c) → job.live →
      0 ≤ (s.clients c).fd → fd = (s.clients c).fd)
      (fun kind fd c hrole _ => htasks kind fd c hrole) fun j _ => h.tasks j
  · exact forall_setJob (P := fun _ job => ∀ kind c, job.serves kind c →
      ∃ fd, job.role = .task kind fd (.client c)) hserving fun j _ => h.serving j

theorem serves_ofTask {task : CallbackTask Callback} {kind : Kind} {c : Nat}
    (h : (Job.ofTask task).serves kind c) : (Job.ofTask task).role = .task kind task.fd (.client c) := by
  rcases h with h | h | h
  · cases h
  · cases h
  · cases task with
    | mk kind' fd callback =>
        cases callback with
        | accept => simp [Job.ofTask, Callback.start] at h
        | client other =>
            simp only [Job.ofTask, Callback.start, List.mem_cons, Action.serve.injEq, reduceCtorEq,
              List.not_mem_nil, or_false] at h
            obtain ⟨rfl, rfl⟩ := h
            rfl

-- dispatch_select leaves the callbacks of the entries that it keeps.
theorem get_dispatch_callback {fd fd' : Fd} {kind : Kind} {info : FdInfo Callback}
    (hget : (s.tracked.dispatch kind fd).1.get fd' = some info) :
    ∃ info', s.tracked.get fd' = some info' ∧ info'.callback = info.callback := by
  rw [Tracked.get_dispatch] at hget
  by_cases hfd : fd' = fd
  · rw [if_pos hfd, ← hfd] at hget
    obtain ⟨old, hold, rfl⟩ := Option.map_eq_some_iff.mp hget
    exact ⟨old, hold, rfl⟩
  · rw [if_neg hfd] at hget
    exact ⟨info, hget, rfl⟩

theorem get_sweep_callback {fd fd' : Fd} {info : FdInfo Callback}
    (hget : (s.tracked.sweep fd).get fd' = some info) : s.tracked.get fd' = some info := by
  rw [Tracked.get_sweep] at hget
  by_cases hfd : fd' = fd
  · rw [if_pos hfd, ← hfd] at hget
    exact (Option.filter_eq_some_iff.mp hget).1
  · rwa [if_neg hfd] at hget

theorem Located.dispatch (h : s.Located) (ready : Kind → List Fd) (fd : Fd) (kind : Kind) :
    (dispatchKind ready s fd kind).Located := by
  obtain heq | ⟨info, callback, hget, hcallback, -, heq⟩ := dispatch_eq ready fd kind s
  · rw [heq]
    exact h
  · rw [heq]
    have hset : Located { s with tracked := (s.tracked.dispatch kind fd).1 } :=
      h.of_callbacks rfl rfl fun _ _ hget' => get_dispatch_callback hget'
    refine hset.spawn (fun kind' fd' c hrole hopen => ?_) fun kind' c hserves => ⟨fd, serves_ofTask hserves⟩
    cases hrole
    exact h.callbacks fd info kind c hget hcallback hopen

theorem Located.stepPoll (h : s.Located) (ready : Option Ready) : (s.stepPoll ready).Located := by
  apply stepPoll_keeps (P := Located) _ _ _ ready h
  · exact fun _ _ _ h => h.of_callbacks rfl rfl fun _ info hget => ⟨info, hget, rfl⟩
  · exact fun ready _ fd kind h => h.dispatch ready fd kind
  · exact fun _ _ h => h.of_callbacks rfl rfl fun _ info hget => ⟨info, get_sweep_callback hget, rfl⟩

end System

end CloudLabs.Cdb.Connections
