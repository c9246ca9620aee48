import CloudLabs.Cdb.Connections.Located
import CloudLabs.Cdb.Connections.Order

namespace CloudLabs.Cdb.Connections

open TcpServer Interaction

-- A callback is only set for a client that was connected under the mutex.
theorem armed_step {s next : Shared} {busy : Kind × Nat → Bool} {job job' : Job} {c : Nat}
    {request : Request} (hstep : JobStep s busy job next job')
    (h : job'.held = some (.setCallback c request)) :
    job.held = some (.setCallback c request) ∨ (s.clients c).isConnected = true := by
  have hserved : ∀ (kind : Kind) (c' : Nat) (last : Bool) (action : Action),
      (job.served kind c' last action).held ≠ some (.setCallback c request) := by
    intro kind c' last action hsome
    cases last <;> cases hsome
  cases hstep with
  | readNothing result hheld hnone => cases h
  | received data hheld hrequests => exact absurd h (hserved _ _ _ _)
  | recvFailed hheld hrequests => exact absurd h (hserved _ _ _ _)
  | wroteNothing success hheld hnone => cases h
  | sent success hheld hrequests => exact absurd h (hserved _ _ _ _)
  | cleared hheld => cases h
  | refused hheld hconnected => cases h
  | submitted hheld hconnected =>
      cases h
      exact .inr hconnected
  | callbackSet hheld => cases h
  | pushed hheld => cases h
  | serves hheld htodo hbusy => cases h
  | submits hheld htodo hbusy => cases h
  | _ => exact .inl h

namespace System

variable {s next : System} {i c : Nat} {fd : Fd}

-- What the poll thread leaves, and a call that another thread makes.
structure Steady (s next : System) : Prop where
  clients : next.clients = s.clients
  accepted : next.accepted = s.accepted
  jobs : ∀ j, (s.jobs j).live → next.jobs j = s.jobs j
  held : ∀ j held, (next.jobs j).held = some held → (s.jobs j).held = some held
  tasks : ∀ j kind fd c, (next.jobs j).role = .task kind fd (.client c) → (next.jobs j).live →
    ((s.jobs j).role = .task kind fd (.client c) ∧ (s.jobs j).live) ∨
      ∃ info, s.tracked.get fd = some info ∧ info.callback kind = some (.client c)
  callbacks : ∀ fd info, next.tracked.get fd = some info →
    ∃ info', s.tracked.get fd = some info' ∧ info'.callback = info.callback

section Steady

theorem Steady.refl (s : System) : s.Steady s where
  clients := rfl
  accepted := rfl
  jobs := fun _ _ => rfl
  held := fun _ _ hheld => hheld
  tasks := fun _ _ _ _ hrole hlive => .inl ⟨hrole, hlive⟩
  callbacks := fun _ info hget => ⟨info, hget, rfl⟩

theorem Steady.trans {mid : System} (h : s.Steady mid) (h' : mid.Steady next) : s.Steady next where
  clients := h'.clients.trans h.clients
  accepted := h'.accepted.trans h.accepted
  jobs := fun j hlive => by
    have hmid := h.jobs j hlive
    exact (h'.jobs j (hmid.symm ▸ hlive)).trans hmid
  held := fun j held hheld => h.held j held (h'.held j held hheld)
  tasks := fun j kind fd c hrole hlive => by
    rcases h'.tasks j kind fd c hrole hlive with ⟨hrole', hlive'⟩ | ⟨info, hget, hcallback⟩
    · exact h.tasks j kind fd c hrole' hlive'
    · obtain ⟨info', hget', hsame⟩ := h.callbacks fd info hget
      exact .inr ⟨info', hget', hsame ▸ hcallback⟩
  callbacks := fun fd info hget => by
    obtain ⟨mid', hmid, hsame⟩ := h'.callbacks fd info hget
    obtain ⟨old, hold, hsame'⟩ := h.callbacks fd mid' hmid
    exact ⟨old, hold, hsame'.trans hsame⟩

theorem Steady.of_tracked (hclients : next.clients = s.clients) (haccepted : next.accepted = s.accepted)
    (hjobs : next.jobs = s.jobs) (hcallbacks : ∀ fd info, next.tracked.get fd = some info →
      ∃ info', s.tracked.get fd = some info' ∧ info'.callback = info.callback) : s.Steady next where
  clients := hclients
  accepted := haccepted
  jobs := fun _ _ => by rw [hjobs]
  held := fun _ _ hheld => by rwa [hjobs] at hheld
  tasks := fun _ _ _ _ hrole hlive => by
    rw [hjobs] at hrole hlive
    exact .inl ⟨hrole, hlive⟩
  callbacks := hcallbacks

theorem steady_spawn (hended : s.jobs s.spawned = .ended) {job : Job} (hheld : job.held = none)
    (htask : ∀ kind fd c, job.role = .task kind fd (.client c) →
      ∃ info, s.tracked.get fd = some info ∧ info.callback kind = some (.client c)) :
    s.Steady (s.spawn job) where
  clients := rfl
  accepted := rfl
  jobs := fun j hlive => by
    refine spawn_jobs_ne ?_ job
    rintro rfl
    rw [hended] at hlive
    exact not_live_ended hlive
  held := fun j held hsome => by
    by_cases hj : j = s.spawned
    · rw [hj, spawn_jobs_self, hheld] at hsome
      cases hsome
    · rwa [spawn_jobs_ne hj] at hsome
  tasks := fun j kind fd c hrole hlive => by
    by_cases hj : j = s.spawned
    · rw [hj, spawn_jobs_self] at hrole
      exact .inr (htask kind fd c hrole)
    · rw [spawn_jobs_ne hj] at hrole hlive
      exact .inl ⟨hrole, hlive⟩
  callbacks := fun _ info hget => ⟨info, hget, rfl⟩

theorem Executing.steady_dispatch (h : s.Executing) (ready : Kind → List Fd) (fd : Fd) (kind : Kind) :
    s.Steady (dispatchKind ready s fd kind) := by
  obtain heq | ⟨info, callback, hget, hcallback, -, heq⟩ := dispatch_eq ready fd kind s
  · rw [heq]
    exact Steady.refl s
  · rw [heq]
    have hset : s.Steady { s with tracked := (s.tracked.dispatch kind fd).1 } :=
      .of_tracked rfl rfl rfl fun _ _ hget' => get_dispatch_callback hget'
    have hended : s.jobs s.spawned = .ended := h.ended s.spawned (Nat.le_refl _)
    refine hset.trans (steady_spawn (s := { s with tracked := (s.tracked.dispatch kind fd).1 }) hended rfl
      fun kind' fd' c hrole => ?_)
    cases hrole
    refine ⟨info.setExecuting kind true, ?_, hcallback⟩
    simp only [Tracked.get_dispatch, if_pos, hget, Option.map_some]

theorem Executing.steady_poll (h : s.Executing) (ready : Option Ready) : s.Steady (s.stepPoll ready) := by
  have hsame : ∀ (poll : Poll) (notifications : Nat),
      s.Steady { s with poll := poll, notifications := notifications } := fun _ _ =>
    .of_tracked rfl rfl rfl fun _ info hget => ⟨info, hget, rfl⟩
  have hrounds : ∀ (ready : Kind → List Fd) (fds : List Fd) (s' : System), s'.Executing → s.Steady s' →
      s.Steady (dispatchSelect ready fds s') := by
    intro ready fds s' hexecuting hsteady
    refine (dispatchSelect_keeps (P := fun s' => s'.Executing ∧ s.Steady s') ?_ ?_ fds s'
      ⟨hexecuting, hsteady⟩).2
    · rintro s' fd kind ⟨hexecuting, hsteady⟩
      exact ⟨hexecuting.dispatch _ fd kind, hsteady.trans (hexecuting.steady_dispatch _ fd kind)⟩
    · rintro s' fd ⟨hexecuting, hsteady⟩
      exact ⟨hexecuting.sweep fd, hsteady.trans (.of_tracked rfl rfl rfl
        fun _ info hget => ⟨info, get_sweep_callback hget, rfl⟩)⟩
  unfold System.stepPoll
  split
  · exact hsame _ s.notifications
  · split
    · exact hsame _ s.notifications
    · exact hsame _ s.notifications
  · exact hrounds _ _ _ ⟨h.ended, h.executing, h.unique⟩ (hsame _ _)

end Steady

section Parted

-- A client that no thread does anything for that could start its callbacks.
structure Parted (s : System) (c : Nat) : Prop where
  known : c < s.accepted
  closed : (s.clients c).isConnected = false
  unarmed : ∀ j request, (s.jobs j).held ≠ some (.setCallback c request)
  callbacks : ∀ fd info kind, s.tracked.get fd = some info → info.callback kind ≠ some (.client c)
  tasks : ∀ j kind fd, (s.jobs j).role = .task kind fd (.client c) → ¬ (s.jobs j).live

theorem Parted.steady (h : s.Parted c) (hsteady : s.Steady next) : next.Parted c where
  known := by rw [hsteady.accepted]; exact h.known
  closed := by rw [hsteady.clients]; exact h.closed
  unarmed := fun j request hheld => h.unarmed j request (hsteady.held j _ hheld)
  callbacks := fun fd info kind hget hcallback => by
    obtain ⟨old, hold, hsame⟩ := hsteady.callbacks fd info hget
    exact h.callbacks fd old kind hold (hsame ▸ hcallback)
  tasks := fun j kind fd hrole hlive => by
    rcases hsteady.tasks j kind fd c hrole hlive with ⟨hrole', hlive'⟩ | ⟨info, hget, hcallback⟩
    · exact h.tasks j kind fd hrole' hlive'
    · exact h.callbacks fd info kind hget hcallback

theorem Parted.step_job (h : s.Parted c) (hplaced : s.Placed) {j : Nat} {shared : Shared} {job : Job}
    (hstep : JobStep s.toShared s.busy (s.jobs j) shared job) :
    Parted { s.setJob j job with toShared := shared } c where
  known := Nat.lt_of_lt_of_le h.known (accepted_le_step hstep)
  closed := hplaced.not_connected_step hstep h.known h.closed
  unarmed := by
    refine forall_setJob (P := fun _ job => ∀ request, job.held ≠ some (.setCallback c request)) ?_
      fun k _ => h.unarmed k
    intro request hheld
    rcases armed_step hstep hheld with hold | hconnected
    · exact h.unarmed j request hold
    · rw [h.closed] at hconnected
      cases hconnected
  callbacks := fun fd info kind hget hcallback => by
    rcases callbacks_step hstep hget hcallback with ⟨old, hold, hcallback'⟩ | ⟨c', request, hheld, heq, -⟩
    · exact h.callbacks fd old kind hold hcallback'
    · cases heq
      exact h.unarmed j request hheld
  tasks := by
    refine forall_setJob (P := fun _ job => ∀ kind fd, job.role = .task kind fd (.client c) → ¬ job.live) ?_
      fun k _ => h.tasks k
    intro kind fd hrole _
    exact h.tasks j kind fd ((role_step hstep).symm.trans hrole) (live_step hstep)

theorem Parted.step (h : s.Parted c) (hconsistent : s.Consistent) {move : Move}
    (hstep : s.step move = some next) : next.Parted c := by
  cases move with
  | poll ready =>
      cases hstep
      exact h.steady (hconsistent.executing.steady_poll ready)
  | advance j choice =>
      obtain ⟨⟨shared, job⟩, hjob, rfl⟩ := Option.map_eq_some_iff.mp hstep
      exact h.step_job hconsistent.placed (jobStep_of_step hjob)
  | disconnect c' wait =>
      simp only [System.step] at hstep
      split at hstep
      · cases hstep
        have hended := hconsistent.executing.ended s.spawned (Nat.le_refl _)
        exact h.steady (steady_spawn hended rfl fun _ _ _ hrole => by cases hrole)
      · cases hstep

-- The descriptor has no entry, and is no other client's.
structure Removed (s : System) (c : Nat) (fd : Fd) : Prop where
  valid : 0 ≤ fd
  entry : s.tracked.get fd = none
  owned : ∀ c', (s.clients c').fd = fd → c' = c

theorem Removed.steady (h : s.Removed c fd) (hsteady : s.Steady next) : next.Removed c fd where
  valid := h.valid
  entry := by
    cases hget : next.tracked.get fd with
    | none => rfl
    | some info =>
        obtain ⟨old, hold, -⟩ := hsteady.callbacks fd info hget
        rw [h.entry] at hold
        cases hold
  owned := by rw [hsteady.clients]; exact h.owned

-- Only a new client could bring the entry back.
theorem Removed.step_job (h : s.Removed c fd) (hparted : s.Parted c) (hlocated : s.Located) {j : Nat}
    {shared : Shared} {job : Job} (hstep : JobStep s.toShared s.busy (s.jobs j) shared job)
    (haccept : shared ≠ s.toShared.accept fd) :
    Removed { s.setJob j job with toShared := shared } c fd where
  valid := h.valid
  entry := by
    have hlive := live_step hstep
    rcases entry_none_step hstep h.entry with hnone | ⟨c', hfd, ⟨kind, hheld⟩ | ⟨request, hheld⟩⟩
    · exact hnone
    · obtain rfl := h.owned c' hfd
      obtain ⟨fd', hrole⟩ := hlocated.serving j kind c' (.inr (.inl hheld))
      exact absurd hlive (hparted.tasks j kind fd' hrole)
    · obtain rfl := h.owned c' hfd
      exact absurd hheld (hparted.unarmed j request)
  owned := fun c' hc' => by
    have hc' : (shared.clients c').fd = fd := hc'
    rcases fd_step c' hstep with hkept | hclosed | ⟨fd', -, -, hnext, hfd'⟩
    · exact h.owned c' (hkept.symm.trans hc')
    · exact absurd (hclosed.symm.trans hc').symm (not_closed h.valid)
    · rw [hc'] at hfd'
      exact absurd (hfd' ▸ hnext) haccept

end Parted

section Leaving

-- No thread is about to set the callback of the kind.
def Disarmed (s : System) (kind : Kind) (c : Nat) : Prop :=
  ∀ j request, (s.jobs j).held = some (.setCallback c request) → request.kind ≠ kind

-- How far a disconnect that waits has come, by what it still has to do, and what
-- holds there.
inductive Leaving (s : System) (c : Nat) (fd : Fd) : List Action → Prop
  | called : Leaving s c fd [.disconnect c true]
  | found : Leaving s c fd [.setDisconnected c true]
  | clearing (hclosed : (s.clients c).isConnected = false) :
      Leaving s c fd
        [.clearRequests .rd c, .clearRequests .wr c, .unregister c, .close c, .waitOnRemoval c]
  | halfCleared (hclosed : (s.clients c).isConnected = false) (hrd : s.Disarmed .rd c) :
      Leaving s c fd [.clearRequests .wr c, .unregister c, .close c, .waitOnRemoval c]
  | cleared (hclosed : (s.clients c).isConnected = false) (hrd : s.Disarmed .rd c) (hwr : s.Disarmed .wr c) :
      Leaving s c fd [.unregister c, .close c, .waitOnRemoval c]
  | unregistered (hparted : s.Parted c) (hremoved : s.Removed c fd) :
      Leaving s c fd [.close c, .waitOnRemoval c]
  | waiting (hparted : s.Parted c) (hremoved : s.Removed c fd) : Leaving s c fd [.waitOnRemoval c]

-- The thread of the call.
structure Underway (s : System) (i c : Nat) (fd : Fd) : Prop where
  role : (s.jobs i).role = .caller
  held : (s.jobs i).held = none
  known : c < s.accepted
  phase : s.Leaving c fd (s.jobs i).todo

theorem Leaving.ne_nil {todo : List Action} (h : s.Leaving c fd todo) : todo ≠ [] := by
  cases h <;> exact List.cons_ne_nil _ _

theorem Underway.live (h : s.Underway i c fd) : (s.jobs i).live := .inl h.phase.ne_nil

-- What holds stays so, whoever goes on.
theorem Leaving.kept {todo : List Action} (h : s.Leaving c fd todo)
    (hclosed : (s.clients c).isConnected = false → (next.clients c).isConnected = false)
    (hdisarmed : ∀ kind, (s.clients c).isConnected = false → s.Disarmed kind c → next.Disarmed kind c)
    (hparted : s.Parted c → next.Parted c) (hremoved : s.Parted c → s.Removed c fd → next.Removed c fd) :
    next.Leaving c fd todo := by
  cases h with
  | called => exact .called
  | found => exact .found
  | clearing h => exact .clearing (hclosed h)
  | halfCleared h hrd => exact .halfCleared (hclosed h) (hdisarmed .rd h hrd)
  | cleared h hrd hwr => exact .cleared (hclosed h) (hdisarmed .rd h hrd) (hdisarmed .wr h hwr)
  | unregistered h hr => exact .unregistered (hparted h) (hremoved h hr)
  | waiting h hr => exact .waiting (hparted h) (hremoved h hr)

theorem Underway.steady (h : s.Underway i c fd) (hsteady : s.Steady next) : next.Underway i c fd := by
  have hjob := hsteady.jobs i h.live
  refine ⟨by rw [hjob]; exact h.role, by rw [hjob]; exact h.held, by rw [hsteady.accepted]; exact h.known, ?_⟩
  rw [hjob]
  refine h.phase.kept ?_ (fun kind _ hdisarmed j request hheld => ?_) (fun hparted => hparted.steady hsteady)
    fun _ hremoved => hremoved.steady hsteady
  · rw [hsteady.clients]
    exact id
  · exact hdisarmed j request (hsteady.held j _ hheld)

theorem Disarmed.step_job {kind : Kind} (h : s.Disarmed kind c)
    (hclosed : (s.clients c).isConnected = false) {j : Nat} {shared : Shared} {job : Job}
    (hstep : JobStep s.toShared s.busy (s.jobs j) shared job) :
    Disarmed { s.setJob j job with toShared := shared } kind c := by
  refine forall_setJob (P := fun _ job => ∀ request, job.held = some (.setCallback c request) →
    request.kind ≠ kind) ?_ fun k _ => h k
  intro request hheld
  rcases armed_step hstep hheld with hold | hconnected
  · exact h j request hold
  · rw [hclosed] at hconnected
    cases hconnected

theorem Leaving.step_job {todo : List Action} (h : s.Leaving c fd todo) (hc : c < s.accepted)
    (hplaced : s.Placed) (hlocated : s.Located) {j : Nat} {shared : Shared} {job : Job}
    (hstep : JobStep s.toShared s.busy (s.jobs j) shared job) (haccept : shared ≠ s.toShared.accept fd) :
    Leaving { s.setJob j job with toShared := shared } c fd todo :=
  h.kept (hplaced.not_connected_step hstep hc) (fun _ hclosed hdisarmed => hdisarmed.step_job hclosed hstep)
    (fun hparted => hparted.step_job hplaced hstep)
    fun hparted hremoved => hremoved.step_job hparted hlocated hstep haccept

-- A mutex that is free is not held by a thread that sets the callback.
theorem Executing.disarmed {kind : Kind} (h : s.Executing) (hbusy : s.busy (kind, c) = false) :
    s.Disarmed kind c := by
  intro j request hheld hkind
  refine h.busy_eq_false hbusy j ?_
  rw [hheld, ← hkind]
  rfl

-- An unregister that finds no callback running takes the client away.
theorem parted_of_unregister (hexecuting : s.Executing) (hlocated : s.Located)
    (hc : c < s.accepted) (hclosed : (s.clients c).isConnected = false) (hrd : s.Disarmed .rd c)
    (hwr : s.Disarmed .wr c) (hfd : (s.clients c).fd = fd) (hopen : 0 ≤ fd)
    (hidle : ∀ info, s.tracked.get fd = some info → info.isBusy = false) {job : Job}
    (hrole : job.role = .caller) (hheld : job.held = none) :
    Parted { s.setJob i job with toShared := s.toShared.unregister c } c ∧
      Removed { s.setJob i job with toShared := s.toShared.unregister c } c fd := by
  obtain ⟨hclients, haccepted⟩ := s.toShared.unregister_clients c
  have hget : ∀ fd', (s.toShared.unregister c).tracked.get fd' =
      if fd' = fd then none else s.tracked.get fd' := by
    intro fd'
    cases hentry : s.tracked.get fd with
    | none =>
        have hsame : s.toShared.unregister c = s.toShared := by
          unfold Shared.unregister
          rw [hfd, hentry]
        rw [hsame]
        by_cases heq : fd' = fd
        · rw [if_pos heq, heq, hentry]
        · rw [if_neg heq]
    | some info =>
        have hsome : (s.toShared.unregister c).tracked = s.tracked.unregister fd := by
          unfold Shared.unregister
          rw [hfd, hentry]
        rw [hsome, Tracked.get_unregister, hentry, Option.filter_some, hidle info hentry]
        rfl
  have howned : ∀ c', (s.clients c').fd = fd → c' = c := fun c' hc' =>
    hlocated.owned c c' (hfd ▸ hopen) (hc'.trans hfd.symm)
  constructor
  · refine ⟨haccepted ▸ hc, ?_, ?_, fun fd' info kind hget' hcallback => ?_, ?_⟩
    · rw [← hclosed]
      exact congrArg (fun clients => (clients c).isConnected) hclients
    · refine forall_setJob (P := fun _ job => ∀ request, job.held ≠ some (.setCallback c request)) ?_
        fun j _ request hsome => ?_
      · intro request hsome
        cases hheld.symm.trans hsome
      · cases request with
        | read prevData => exact hrd j _ hsome rfl
        | write request => exact hwr j _ hsome rfl
    · have hentry := (hget fd').symm.trans hget'
      by_cases heq : fd' = fd
      · rw [if_pos heq] at hentry
        cases hentry
      · rw [if_neg heq] at hentry
        exact heq ((hlocated.callbacks fd' info kind c hentry hcallback (hfd ▸ hopen)).trans hfd)
    · refine forall_setJob (P := fun _ job => ∀ kind fd, job.role = .task kind fd (.client c) → ¬ job.live) ?_
        fun j _ kind fd' hrole' hlive => ?_
      · intro kind fd' hrole' _
        cases hrole.symm.trans hrole'
      · have hown := (hlocated.tasks j kind fd' c hrole' hlive (hfd ▸ hopen)).trans hfd
        obtain ⟨info, hentry, hexec⟩ := hexecuting.executing j kind fd' _ hrole' hlive
        have hbusy := info.isBusy_of_isExecuting hexec
        rw [hidle info (hown ▸ hentry)] at hbusy
        cases hbusy
  · refine ⟨hopen, (hget fd).trans (if_pos rfl), fun c' hc' => howned c' ?_⟩
    rw [← hc']
    exact congrArg (fun clients => (clients c').fd) hclients.symm

-- The steps until the call returns that keep the terms: disconnect finds the client
-- connected; it unregisters a descriptor that is still open and has no callback
-- running; accept does not return the descriptor.
def permits (i c : Nat) (fd : Fd) (s : System) (move : Move) : Bool :=
  !(s.jobs i).todo.isEmpty &&
    match move with
    | .advance j choice =>
        choice ≠ .accepted fd &&
          (j ≠ i || match (s.jobs i).todo with
            | .disconnect _ _ :: _ => (s.clients c).isConnected
            | .unregister _ :: _ => (s.clients c).fd = fd && 0 ≤ fd &&
                (s.tracked.get fd).all fun info => !info.isBusy
            | _ => true)
    | _ => true

-- The call has returned, with what it waits for.
def Returned (s : System) (i c : Nat) (fd : Fd) : Prop :=
  (s.jobs i).todo = [] ∧ s.Parted c ∧ s.tracked.get fd = none

-- A step of the call itself: each phase leads to the next one.
theorem Underway.advance (h : s.Underway i c fd) (hconsistent : s.Consistent) (hlocated : s.Located)
    {choice : Choice} {shared : Shared} {job : Job}
    (hpermits : s.permits i c fd (.advance i choice) = true)
    (hjob : (s.jobs i).step s.toShared s.busy choice = some (shared, job))
    (haccept : shared ≠ s.toShared.accept fd) :
    Underway { s.setJob i job with toShared := shared } i c fd ∨
      Returned { s.setJob i job with toShared := shared } i c fd := by
  have hplaced := hconsistent.placed
  have hstep := jobStep_of_step hjob
  have hknown : c < shared.accepted := Nat.lt_of_lt_of_le h.known (accepted_le_step hstep)
  have hgoes : ∀ todo, job.held = none → job.todo = todo →
      Leaving { s.setJob i job with toShared := shared } c fd todo →
      Underway { s.setJob i job with toShared := shared } i c fd := by
    intro todo hnone heq hleaving
    have hown : (s.setJob i job).jobs i = job := setJob_jobs_self i job
    refine ⟨?_, (congrArg Job.held hown).trans hnone, hknown, ?_⟩
    · exact (congrArg Job.role hown).trans ((role_step hstep).trans h.role)
    · show Leaving _ c fd ((s.setJob i job).jobs i).todo
      rw [hown, heq]
      exact hleaving
  have hheld := h.held
  have hphase := h.phase
  generalize htodo : (s.jobs i).todo = todo at hphase
  cases hphase with
  | called =>
      have hconnected : (s.clients c).isConnected = true := by
        simp only [permits, htodo, Bool.and_eq_true, ne_eq, not_true_eq_false, decide_false,
          Bool.false_or] at hpermits
        exact hpermits.2.2
      simp only [Job.step, hheld, htodo, Job.stepAction, if_pos hconnected, Option.some.injEq,
        Prod.mk.injEq] at hjob
      obtain ⟨-, hjob⟩ := hjob
      exact .inl (hgoes _ (hjob ▸ rfl) (hjob ▸ rfl) .found)
  | found =>
      simp only [Job.step, hheld, htodo, Job.stepAction, Option.some.injEq, Prod.mk.injEq] at hjob
      obtain ⟨rfl, hjob⟩ := hjob
      refine .inl (hgoes _ (hjob ▸ rfl) (hjob ▸ rfl) (.clearing ?_))
      simp
  | clearing hclosed =>
      simp only [Job.step, hheld, htodo, Job.stepAction] at hjob
      split at hjob
      · cases hjob
      rename_i hbusy
      have hrd := hconsistent.executing.disarmed (Bool.eq_false_iff.mpr hbusy)
      simp only [Option.some.injEq, Prod.mk.injEq] at hjob
      obtain ⟨rfl, hjob⟩ := hjob
      exact .inl (hgoes _ (hjob ▸ rfl) (hjob ▸ rfl) (.halfCleared (hplaced.not_connected_step hstep h.known hclosed)
        (hrd.step_job hclosed hstep)))
  | halfCleared hclosed hrd =>
      simp only [Job.step, hheld, htodo, Job.stepAction] at hjob
      split at hjob
      · cases hjob
      rename_i hbusy
      have hwr := hconsistent.executing.disarmed (Bool.eq_false_iff.mpr hbusy)
      simp only [Option.some.injEq, Prod.mk.injEq] at hjob
      obtain ⟨rfl, hjob⟩ := hjob
      exact .inl (hgoes _ (hjob ▸ rfl) (hjob ▸ rfl) (.cleared (hplaced.not_connected_step hstep h.known hclosed)
        (hrd.step_job hclosed hstep) (hwr.step_job hclosed hstep)))
  | cleared hclosed hrd hwr =>
      simp only [permits, htodo, Bool.and_eq_true, ne_eq, not_true_eq_false, decide_false, Bool.false_or,
        decide_eq_true_eq, Option.all_eq_true, Bool.not_eq_true'] at hpermits
      obtain ⟨-, -, ⟨hfd, hopen⟩, hidle⟩ := hpermits
      simp only [Job.step, hheld, htodo, Job.stepAction, Option.some.injEq, Prod.mk.injEq] at hjob
      obtain ⟨rfl, hjob⟩ := hjob
      obtain ⟨hparted, hremoved⟩ := parted_of_unregister (i := i) hconsistent.executing hlocated h.known
        hclosed hrd hwr hfd hopen hidle ((role_step hstep).trans h.role) (show job.held = none from hjob ▸ rfl)
      exact .inl (hgoes _ (hjob ▸ rfl) (hjob ▸ rfl) (.unregistered hparted hremoved))
  | unregistered hparted hremoved =>
      have hparted' := hparted.step_job hplaced hstep
      have hremoved' := hremoved.step_job hparted hlocated hstep haccept
      simp only [Job.step, hheld, htodo, Job.stepAction, Option.some.injEq, Prod.mk.injEq] at hjob
      obtain ⟨rfl, hjob⟩ := hjob
      exact .inl (hgoes _ (hjob ▸ rfl) (hjob ▸ rfl) (.waiting hparted' hremoved'))
  | waiting hparted hremoved =>
      have hparted' := hparted.step_job hplaced hstep
      have hremoved' := hremoved.step_job hparted hlocated hstep haccept
      simp only [Job.step, hheld, htodo, Job.stepAction] at hjob
      split at hjob
      · simp only [Option.some.injEq, Prod.mk.injEq] at hjob
        obtain ⟨rfl, hjob⟩ := hjob
        refine .inr ⟨?_, hparted', hremoved'.entry⟩
        exact (congrArg Job.todo (setJob_jobs_self i job)).trans (hjob ▸ rfl)
      · cases hjob

-- The call goes on, or it returns.
theorem Underway.step (h : s.Underway i c fd) (hconsistent : s.Consistent) (hlocated : s.Located)
    {move : Move} (hpermits : s.permits i c fd move = true) (hstep : s.step move = some next) :
    next.Underway i c fd ∨ next.Returned i c fd := by
  cases move with
  | poll ready =>
      cases hstep
      exact .inl (h.steady (hconsistent.executing.steady_poll ready))
  | disconnect c' wait =>
      simp only [System.step] at hstep
      split at hstep
      · cases hstep
        have hended := hconsistent.executing.ended s.spawned (Nat.le_refl _)
        exact .inl (h.steady (steady_spawn hended rfl fun _ _ _ hrole => by cases hrole))
      · cases hstep
  | advance j choice =>
      obtain ⟨⟨shared, job⟩, hjob, rfl⟩ := Option.map_eq_some_iff.mp hstep
      have haccept : shared ≠ s.toShared.accept fd := by
        rintro rfl
        have hchoice := choice_of_accept hjob
        simp [permits, hchoice] at hpermits
      by_cases hj : j = i
      · subst hj
        exact h.advance hconsistent hlocated hpermits hjob haccept
      · left
        have hstep := jobStep_of_step hjob
        have hsame : (s.setJob j job).jobs i = s.jobs i := setJob_jobs_ne (Ne.symm hj) job
        refine ⟨?_, ?_, Nat.lt_of_lt_of_le h.known (accepted_le_step hstep), ?_⟩
        · exact (congrArg Job.role hsame).trans h.role
        · exact (congrArg Job.held hsame).trans h.held
        · show Leaving _ c fd ((s.setJob j job).jobs i).todo
          rw [hsame]
          exact h.phase.step_job h.known hconsistent.placed hlocated hstep haccept

end Leaving

theorem Located.step (h : s.Located) (hconsistent : s.Consistent) {move : Move}
    (hstep : s.step move = some next) : next.Located := by
  cases move with
  | poll ready =>
      cases hstep
      exact h.stepPoll ready
  | advance j choice =>
      obtain ⟨⟨shared, job⟩, hjob, rfl⟩ := Option.map_eq_some_iff.mp hstep
      exact h.step_job hconsistent.placed (jobStep_of_step hjob)
  | disconnect c' wait =>
      simp only [System.step] at hstep
      split at hstep
      · cases hstep
        refine h.spawn (fun _ _ _ hrole => by cases hrole) fun kind c'' hserves => ?_
        rcases hserves with hheld | hheld | htodo
        · cases hheld
        · cases hheld
        · simp at htodo
      · cases hstep

theorem start_located (listener : Fd) : (start listener).Located where
  owned := fun _ _ hopen => absurd (show (0 : Int) ≤ -1 from hopen) (by decide)
  callbacks := fun _ _ _ _ _ _ hopen => absurd (show (0 : Int) ≤ -1 from hopen) (by decide)
  tasks := fun _ _ _ _ hrole => by cases hrole
  serving := fun _ kind c hserves => by
    rcases hserves with hheld | hheld | htodo
    · cases hheld
    · cases hheld
    · cases htodo

open Transition in
theorem reached_of_run {listener : Fd} {moves : List Move}
    (hrun : run System.step (start listener) moves = some s) : s.Consistent ∧ s.Located := by
  have hkeeps : Keeps System.step fun s => s.Consistent ∧ s.Located := by
    rintro state move next ⟨hconsistent, hlocated⟩ hstep
    exact ⟨hconsistent.step hstep, hlocated.step hconsistent hstep⟩
  exact hkeeps.run ⟨start_consistent listener, start_located listener⟩ hrun

-- The descriptor has no entry, and no callback of the client runs or will run.
def Waited (s : System) (c : Nat) (fd : Fd) : Prop :=
  s.tracked.get fd = none ∧ ∀ (moves : List Move) (last : System),
    Transition.run System.step s moves = some last →
      ∀ j kind fd', (last.jobs j).role = .task kind fd' (.client c) → ¬ (last.jobs j).live

theorem Returned.waited (h : s.Returned i c fd) (hconsistent : s.Consistent) : s.Waited c fd := by
  obtain ⟨-, hparted, hentry⟩ := h
  refine ⟨hentry, fun moves last hrun => ?_⟩
  have hkeeps : Transition.Keeps System.step fun s => s.Consistent ∧ s.Parted c := by
    rintro state move next ⟨hconsistent, hparted⟩ hstep
    exact ⟨hconsistent.step hstep, hparted.step hconsistent hstep⟩
  exact (hkeeps.run ⟨hconsistent, hparted⟩ hrun).2.tasks

-- A disconnect that waits, from its call to its return.
open Transition in
theorem waited_of_run {listener : Fd} {before later : List Move} {called : System}
    (hbefore : run System.step (start listener) before = some s)
    (hcall : s.step (.disconnect c true) = some called)
    (hrun : run (guard (permits s.spawned c (s.clients c).fd) System.step) called later = some next)
    (hreturned : (next.jobs s.spawned).todo = []) : next.Waited c (s.clients c).fd := by
  obtain ⟨hconsistent, hlocated⟩ := reached_of_run hbefore
  have hcalled : called.Underway s.spawned c (s.clients c).fd := by
    simp only [System.step] at hcall
    split at hcall
    · rename_i hknown
      cases hcall
      have hown : (s.spawn ⟨.caller, none, [.disconnect c true]⟩).jobs s.spawned = _ := spawn_jobs_self _
      exact ⟨congrArg Job.role hown, congrArg Job.held hown, hknown, by rw [hown]; exact .called⟩
    · cases hcall
  have hkeeps : Keeps (guard (permits s.spawned c (s.clients c).fd) System.step) fun s' =>
      s'.Consistent ∧ s'.Located ∧ (s'.Underway s.spawned c (s.clients c).fd ∨
        s'.Returned s.spawned c (s.clients c).fd) := by
    rintro state move next ⟨hconsistent, hlocated, hcall⟩ hguard
    obtain ⟨hpermits, hstep⟩ := guard_eq_some hguard
    refine ⟨hconsistent.step hstep, hlocated.step hconsistent hstep, ?_⟩
    rcases hcall with hunderway | ⟨htodo, -⟩
    · exact hunderway.step hconsistent hlocated hpermits hstep
    · simp [permits, htodo] at hpermits
  obtain ⟨hconsistent', -, hunderway | hdone⟩ := hkeeps.run
    ⟨hconsistent.step hcall, hlocated.step hconsistent hcall, .inl hcalled⟩ hrun
  · exact absurd hreturned hunderway.phase.ne_nil
  · exact hdone.waited hconsistent'

-- A connection is accepted on descriptor 5.
def connect : List Move := select 3 .rd ++ [.advance 0 (.accepted 5)] ++ advance 0 5

set_option maxRecDepth 10000 in
open Transition in
theorem waited_of_run_idle : ∃ s called next : System, run System.step (start 3) connect = some s ∧
    s.step (.disconnect 0 true) = some called ∧ (s.clients 0).fd = 5 ∧
    run (guard (permits s.spawned 0 (s.clients 0).fd) System.step) called (advance 1 7) = some next ∧
    next.Waited 0 (s.clients 0).fd := by
  have hrun : (run System.step (start 3) connect).any (fun s => (s.clients 0).fd = 5 && s.spawned = 1 &&
      (s.step (.disconnect 0 true)).any fun called =>
        (run (guard (permits s.spawned 0 (s.clients 0).fd) System.step) called (advance 1 7)).any
          fun next => (next.jobs 1).todo.isEmpty) = true := by decide
  obtain ⟨s, hs, hobserved⟩ := (Option.any_eq_true _ _).mp hrun
  rw [Bool.and_eq_true, Bool.and_eq_true, decide_eq_true_eq, decide_eq_true_eq] at hobserved
  obtain ⟨⟨hfd, hspawned⟩, hcalled⟩ := hobserved
  obtain ⟨called, hcall, hlater⟩ := (Option.any_eq_true _ _).mp hcalled
  obtain ⟨next, hnext, hreturned⟩ := (Option.any_eq_true _ _).mp hlater
  refine ⟨s, called, next, hs, hcall, hfd, hnext, waited_of_run hs hcall hnext ?_⟩
  rw [hspawned]
  exact List.isEmpty_iff.mp hreturned

-- The read callback of the connection is queued when it is disconnected. The
-- descriptor is closed before the wait, which then waits for -1.
set_option maxRecDepth 10000 in
open Transition in
theorem not_waited_of_queued : ¬∀ (listener : Fd) (before later : List Move) (s called next : System)
    (c : Nat), run System.step (start listener) before = some s →
    s.step (.disconnect c true) = some called →
    run (guard (fun s' _ => !(s'.jobs s.spawned).todo.isEmpty) System.step) called later = some next →
    (next.jobs s.spawned).todo = [] → next.Waited c (s.clients c).fd := by
  intro hall
  have hrun : (run System.step (start 3) (connect ++ select 5 .rd)).any (fun s => (s.clients 0).fd = 5 &&
      s.spawned = 2 && (s.step (.disconnect 0 true)).any fun called =>
        (run (guard (fun s' _ => !(s'.jobs s.spawned).todo.isEmpty) System.step) called (advance 2 7)).any
          fun next => (next.jobs 2).todo.isEmpty && (next.tracked.get 5).isSome) = true := by decide
  obtain ⟨s, hs, hobserved⟩ := (Option.any_eq_true _ _).mp hrun
  rw [Bool.and_eq_true, Bool.and_eq_true, decide_eq_true_eq, decide_eq_true_eq] at hobserved
  obtain ⟨⟨hfd, hspawned⟩, hcalled⟩ := hobserved
  obtain ⟨called, hcall, hlater⟩ := (Option.any_eq_true _ _).mp hcalled
  obtain ⟨next, hnext, hreturned⟩ := (Option.any_eq_true _ _).mp hlater
  rw [Bool.and_eq_true, List.isEmpty_iff] at hreturned
  have hwaited := (hall 3 _ _ s called next 0 hs hcall hnext (by rw [hspawned]; exact hreturned.1)).1
  rw [hfd] at hwaited
  rw [hwaited] at hreturned
  cases hreturned.2

end System

end CloudLabs.Cdb.Connections
