import CloudLabs.Cdb.Connections.Waiting

namespace CloudLabs.Cdb.Connections

open TcpServer Interaction

def Move.isPoll : Move → Bool
  | .poll _ => true
  | _ => false

namespace System

-- A connected client has a request for whose callback no worker has been found yet.
structure Waits (s : System) (kind : Kind) (c : Nat) : Prop where
  connected : (s.clients c).isConnected = true
  requests : (s.clients c).hasRequests kind = true
  idle : ∀ info, s.tracked.get (s.clients c).fd = some info → info.isExecuting kind = false

-- If the move is the return of select, it returns with the client's descriptor.
def Reports (s : System) (kind : Kind) (c : Nat) (move : Move) : Prop :=
  ∀ polled sets ready, s.poll = .selecting polled sets → move = .poll ready →
    ∃ fds, ready = some fds ∧ (s.clients c).fd ∈ fds.fds kind

-- A run on which the request waits all the time, though its descriptor is ready.
inductive Neglects (kind : Kind) (c : Nat) : System → List Move → System → Prop
  | here {s : System} (hwaits : s.Waits kind c) : Neglects kind c s [] s
  | step {s next last : System} {move : Move} {moves : List Move} (hwaits : s.Waits kind c)
      (hreports : s.Reports kind c move) (hstep : Transition.guard fresh System.step s move = some next)
      (hrest : Neglects kind c next moves last) : Neglects kind c s (move :: moves) last

-- After how many steps of the poll thread the callback runs at the latest.
def distance (s : System) (kind : Kind) (fd : Fd) : Nat :=
  match s.poll with
  | .idle => 3
  | .selecting polled sets => if fd ∈ polled ∧ fd ∈ sets kind then 2 else 5
  | .selected polled ready _ => if fd ∈ polled ∧ fd ∈ ready kind then 1 else 4

variable {s next last : System} {kind : Kind} {c : Nat} {fd : Fd} {move : Move} {moves : List Move}

theorem distance_pos (s : System) (kind : Kind) (fd : Fd) : 0 < s.distance kind fd := by
  unfold distance
  split
  · omega
  · split <;> omega
  · split <;> omega

theorem distance_le (s : System) (kind : Kind) (fd : Fd) : s.distance kind fd ≤ 5 := by
  unfold distance
  split
  · omega
  · split <;> omega
  · split <;> omega

section Dispatch

-- The entry of a descriptor that nobody has given up, while it waits or is executed.
def Tracks (s : System) (kind : Kind) (fd : Fd) : Prop :=
  ∃ info, s.tracked.get fd = some info ∧ info.markedUntrack = false ∧ (info.callback kind).isSome = true

def Executes (s : System) (kind : Kind) (fd : Fd) : Prop :=
  ∃ info, s.tracked.get fd = some info ∧ info.isExecuting kind = true

theorem get_dispatch_entry {info : FdInfo Callback} (hget : s.tracked.get fd = some info) (ready : Kind → List Fd)
    (fd' : Fd) (kind' : Kind) : ∃ info', (dispatchKind ready s fd' kind').tracked.get fd = some info' ∧
      info'.markedUntrack = info.markedUntrack ∧ info'.callback = info.callback ∧
      ∀ kind, info.isExecuting kind = true → info'.isExecuting kind = true := by
  obtain heq | ⟨-, callback, -, -, -, heq⟩ := dispatch_eq ready fd' kind' s
  · rw [heq]
    exact ⟨info, hget, rfl, rfl, fun _ h => h⟩
  · have hentry : (dispatchKind ready s fd' kind').tracked.get fd =
        if fd = fd' then (s.tracked.get fd').map fun info => info.setExecuting kind' true else s.tracked.get fd := by
      rw [heq]
      exact s.tracked.get_dispatch fd' fd kind'
    by_cases hfd : fd = fd'
    · subst hfd
      rw [if_pos rfl, hget] at hentry
      refine ⟨info.setExecuting kind' true, hentry, rfl, rfl, fun kind hexecuting => ?_⟩
      by_cases hkind : kind = kind'
      · rw [hkind, FdInfo.setExecuting_isExecuting]
      · rwa [FdInfo.setExecuting_isExecuting_ne _ hkind]
    · rw [if_neg hfd] at hentry
      exact ⟨info, hentry.trans hget, rfl, rfl, fun _ h => h⟩

theorem Tracks.dispatch (h : s.Tracks kind fd) (ready : Kind → List Fd) (fd' : Fd) (kind' : Kind) :
    (dispatchKind ready s fd' kind').Tracks kind fd := by
  obtain ⟨info, hget, hunmarked, hcallback⟩ := h
  obtain ⟨info', hget', hmarked, hsame, -⟩ := get_dispatch_entry hget ready fd' kind'
  exact ⟨info', hget', hmarked.trans hunmarked, hsame ▸ hcallback⟩

theorem Executes.dispatch (h : s.Executes kind fd) (ready : Kind → List Fd) (fd' : Fd) (kind' : Kind) :
    (dispatchKind ready s fd' kind').Executes kind fd := by
  obtain ⟨info, hget, hexecuting⟩ := h
  obtain ⟨info', hget', -, -, hkept⟩ := get_dispatch_entry hget ready fd' kind'
  exact ⟨info', hget', hkept kind hexecuting⟩

theorem get_sweep_entry {info : FdInfo Callback} (hget : s.tracked.get fd = some info) (hstays : info.isLeft = false)
    (fd' : Fd) : (sweepFd s fd').tracked.get fd = some info := by
  simp only [sweepFd_tracked, Tracked.get_sweep]
  by_cases hfd : fd = fd'
  · rw [if_pos hfd, ← hfd, hget, Option.filter_some, if_pos]
    simp [hstays]
  · rw [if_neg hfd]
    exact hget

theorem Tracks.sweep (h : s.Tracks kind fd) (fd' : Fd) : (sweepFd s fd').Tracks kind fd := by
  obtain ⟨info, hget, hunmarked, hcallback⟩ := h
  exact ⟨info, get_sweep_entry hget (by simp [FdInfo.isLeft, hunmarked]) fd', hunmarked, hcallback⟩

theorem Executes.sweep (h : s.Executes kind fd) (fd' : Fd) : (sweepFd s fd').Executes kind fd := by
  obtain ⟨info, hget, hexecuting⟩ := h
  have hbusy := info.isBusy_of_isExecuting hexecuting
  exact ⟨info, get_sweep_entry hget (by simp [FdInfo.isLeft, hbusy]) fd', hexecuting⟩

-- The callback starts if it does not run already.
theorem Tracks.executes_dispatch (h : s.Tracks kind fd) {ready : Kind → List Fd} (hready : fd ∈ ready kind) :
    (dispatchKind ready s fd kind).Executes kind fd := by
  obtain ⟨info, hget, hunmarked, hcallback⟩ := h
  by_cases hexecuting : info.isExecuting kind = true
  · exact Executes.dispatch ⟨info, hget, hexecuting⟩ ready fd kind
  · have hwants : info.wants kind = true := by
      unfold FdInfo.wants
      simp [hcallback, hexecuting]
    obtain ⟨callback, hsome⟩ := Option.isSome_iff_exists.mp hcallback
    have htracked : (dispatchKind ready s fd kind).tracked = (s.tracked.dispatch kind fd).1 := by
      rw [dispatchKind_of_wants hget hready hwants hsome]
      rfl
    refine ⟨info.setExecuting kind true, ?_, FdInfo.setExecuting_isExecuting _ kind true⟩
    rw [htracked, Tracked.get_dispatch, if_pos rfl, hget]
    rfl

theorem Tracks.executes_dispatchSelect (h : s.Tracks kind fd) {ready : Kind → List Fd} {fds : List Fd}
    (hpolled : fd ∈ fds) (hready : fd ∈ ready kind) : (dispatchSelect ready fds s).Executes kind fd := by
  induction fds generalizing s with
  | nil => cases hpolled
  | cons first fds ih =>
      unfold dispatchSelect
      by_cases hfirst : fd = first
      · subst hfirst
        refine dispatchSelect_keeps (P := fun s : System => s.Executes kind fd) (fun _ fd' kind' h => h.dispatch _ fd' kind')
          (fun _ fd' h => h.sweep fd') _ _ (Executes.sweep ?_ fd)
        cases kind with
        | rd => exact (h.executes_dispatch hready).dispatch ready fd .wr
        | wr => exact (h.dispatch ready fd .rd).executes_dispatch hready
      · have hrest := (List.mem_cons.mp hpolled).resolve_left hfirst
        exact ih (((h.dispatch ready first .rd).dispatch ready first .wr).sweep first) hrest

theorem dispatchSelect_poll (ready : Kind → List Fd) (fds : List Fd) (hidle : s.poll = .idle) :
    (dispatchSelect ready fds s).poll = .idle := by
  refine dispatchSelect_keeps (P := fun s : System => s.poll = .idle) ?_ (fun _ _ h => h) fds s hidle
  intro s fd kind hidle
  obtain heq | ⟨info, callback, -, -, -, heq⟩ := dispatch_eq ready fd kind s
  · rw [heq]
    exact hidle
  · rw [heq]
    exact hidle

end Dispatch

section Runs

theorem Consistent.known (h : s.Consistent) (hconnected : (s.clients c).isConnected = true) : c < s.accepted := by
  by_contra hle
  rw [h.placed.absent c (by omega)] at hconnected
  cases hconnected

-- Nothing but the poll thread changes how far it is, and a connected client keeps its
-- descriptor.
theorem distance_step (hconsistent : s.Consistent) (hregistered : next.Registered) (hmove : move.isPoll = false)
    (hstep : s.step move = some next) (hbefore : s.Waits kind c) (hafter : next.Waits kind c) :
    next.distance kind (next.clients c).fd = s.distance kind (s.clients c).fd := by
  cases move with
  | poll ready => cases hmove
  | advance i choice =>
      obtain ⟨⟨shared, job⟩, hjob, rfl⟩ := Option.map_eq_some_iff.mp hstep
      have hopen := hregistered.opened c hafter.connected
      have hfd : (shared.clients c).fd = (s.clients c).fd :=
        fd_open_step (jobStep_of_step hjob) (hconsistent.known hbefore.connected) hopen
      change System.distance _ kind (shared.clients c).fd = _
      rw [hfd]
      rfl
  | disconnect c' wait =>
      simp only [System.step] at hstep
      split at hstep
      · cases hstep
        rfl
      · cases hstep

theorem Waits.tracks (h : s.Waits kind c) (hregistered : s.Registered) :
    s.Tracks kind (s.clients c).fd ∧ (s.clients c).fd ∈ s.tracked.polledFds ∧
      (s.clients c).fd ∈ s.tracked.selectFds kind := by
  obtain ⟨info, hget, hcallback⟩ := hregistered.pending c kind h.connected h.requests
  have hwants : info.wants kind = true := by
    unfold FdInfo.wants
    simp [hcallback, h.idle info hget]
  refine ⟨⟨info, hget, hregistered.unmarked c info h.connected hget, by simp [hcallback]⟩, ?_,
    s.tracked.mem_selectFds _ hget hwants⟩
  unfold Tracked.polledFds
  refine List.mem_map.mpr ⟨⟨_, info⟩, List.mem_filter.mpr ⟨AList.mem_lookup_iff.mp hget, ?_⟩, rfl⟩
  cases kind with
  | rd => simp [hwants]
  | wr => simp [hwants]

-- Each step of the poll thread brings it nearer.
theorem distance_stepPoll (hregistered : s.Registered) (hconsistent : s.Consistent) {ready : Option Ready}
    (hreports : s.Reports kind c (.poll ready)) (hbefore : s.Waits kind c)
    (hafter : (s.stepPoll ready).Waits kind c) :
    (s.stepPoll ready).distance kind ((s.stepPoll ready).clients c).fd < s.distance kind (s.clients c).fd := by
  have hclients : (s.stepPoll ready).clients = s.clients := (hconsistent.executing.steady_poll ready).clients
  have hidle := hafter.idle
  rw [hclients] at hidle ⊢
  obtain ⟨htracks, hpolled, hselected⟩ := hbefore.tracks hregistered
  unfold System.stepPoll at hidle ⊢
  cases hpoll : s.poll with
  | idle => simp [System.distance, hpoll, hpolled, hselected]
  | selecting polled sets =>
      obtain ⟨fds, rfl, hmem⟩ := hreports polled sets ready hpoll rfl
      by_cases hsets : (s.clients c).fd ∈ polled ∧ (s.clients c).fd ∈ sets kind
      · simp [System.distance, hpoll, hsets, hmem]
      · have hle : s.distance kind (s.clients c).fd = 5 := by simp only [System.distance, hpoll, if_neg hsets]
        rw [hle]
        simp only [System.distance]
        split <;> omega
  | selected polled ready' notifier =>
      simp only [hpoll] at hidle ⊢
      by_cases hready : (s.clients c).fd ∈ polled ∧ (s.clients c).fd ∈ ready' kind
      · -- the callback would run
        have hkept : System.Tracks { s with
            notifications := if notifier then s.notifications - 256 else s.notifications
            poll := .idle } kind (s.clients c).fd := htracks
        obtain ⟨info, hget, hexecuting⟩ := hkept.executes_dispatchSelect hready.1 hready.2
        rw [hidle info hget] at hexecuting
        cases hexecuting
      · have hpollIdle : (dispatchSelect ready' polled { s with
            notifications := if notifier then s.notifications - 256 else s.notifications
            poll := .idle }).poll = .idle := dispatchSelect_poll _ _ rfl
        simp only [System.distance, hpoll, hpollIdle, if_neg hready]
        omega

theorem Neglects.waits (h : Neglects kind c s moves last) : s.Waits kind c := by
  cases h with
  | here hwaits => exact hwaits
  | step hwaits => exact hwaits

theorem Neglects.waits_last (h : Neglects kind c s moves last) : last.Waits kind c := by
  induction h with
  | here hwaits => exact hwaits
  | step _ _ _ _ ih => exact ih

theorem Neglects.run (h : Neglects kind c s moves last) :
    Transition.run (Transition.guard fresh System.step) s moves = some last := by
  induction h with
  | here => rfl
  | step _ _ hstep _ ih => rw [Transition.run_cons hstep, ih]

theorem Neglects.counts (h : Neglects kind c s moves last) (hconsistent : s.Consistent) (hregistered : s.Registered) :
    moves.countP Move.isPoll + last.distance kind (last.clients c).fd ≤ s.distance kind (s.clients c).fd := by
  induction h with
  | here hwaits => simp
  | @step s next last move moves hwaits hreports hstep hrest ih =>
      obtain ⟨hfresh, hmoved⟩ := Transition.guard_eq_some hstep
      have hnext := hregistered.step hconsistent hfresh hmoved
      have hafter := hrest.waits
      have hcounts := ih (hconsistent.step hmoved) hnext
      rw [List.countP_cons]
      by_cases hpoll : move.isPoll = true
      · cases move with
        | poll ready =>
            cases hmoved
            have hless := distance_stepPoll hregistered hconsistent hreports hwaits hafter
            simp only [Move.isPoll, if_true]
            omega
        | _ => cases hpoll
      · have hsame := distance_step hconsistent hnext (Bool.eq_false_of_not_eq_true hpoll) hmoved hwaits hafter
        rw [if_neg hpoll]
        omega

end Runs

open Transition

theorem kept_step : Keeps (guard fresh System.step) fun s => s.Consistent ∧ s.Registered ∧ s.Woken := by
  rintro s move next ⟨hconsistent, hregistered, hwoken⟩ hguard
  obtain ⟨hfresh, hstep⟩ := guard_eq_some hguard
  exact ⟨hconsistent.step hstep, hregistered.step hconsistent hfresh hstep, hwoken.step hstep⟩

-- While a request waits whose descriptor select reports, the poll thread takes at most
-- four steps, and it is not kept in select.
theorem attends_of_run {listener : Fd} {before : List Move}
    (hrun : run (guard fresh System.step) (start listener) before = some s) (hneglects : Neglects kind c s moves last) :
    moves.countP Move.isPoll ≤ 4 ∧
      ∀ polled sets, last.poll = .selecting polled sets → (last.clients c).fd ∈ sets kind ∨ 0 < last.notifications := by
  have hreached := kept_step.run ⟨start_consistent listener, start_registered listener, woken_of_idle rfl⟩ hrun
  obtain ⟨-, hregistered, hwoken⟩ := kept_step.run hreached hneglects.run
  constructor
  · have hcounts := hneglects.counts hreached.1 hreached.2.1
    have hle := s.distance_le kind (s.clients c).fd
    have hpos := last.distance_pos kind (last.clients c).fd
    omega
  · intro polled sets hpoll
    have hwaits := hneglects.waits_last
    obtain ⟨info, hget, hcallback⟩ := hregistered.pending c kind hwaits.connected hwaits.requests
    rcases hwoken polled sets hpoll with hnotified | hsets
    · exact .inr hnotified
    · refine .inl (hsets _ info kind hget ?_)
      unfold FdInfo.wants
      simp [hcallback, hwaits.idle info hget]

def waitsFor (s : System) (kind : Kind) (c : Nat) : Bool :=
  (s.clients c).isConnected && (s.clients c).hasRequests kind &&
    (s.tracked.get (s.clients c).fd).all fun info => !info.isExecuting kind

theorem waits_of_waitsFor (h : s.waitsFor kind c = true) : s.Waits kind c := by
  unfold waitsFor at h
  rw [Bool.and_eq_true, Bool.and_eq_true] at h
  refine ⟨h.1.1, h.1.2, fun info hget => ?_⟩
  rw [hget] at h
  simpa using h.2

set_option maxRecDepth 10000 in
-- A client has been accepted and reads; the poll thread begins a round.
theorem attends_of_run_connect : ∃ s last : System, run (guard fresh System.step) (start 3) connect = some s ∧
    Neglects .rd 0 s [.poll none] last ∧ [Move.poll none].countP Move.isPoll ≤ 4 := by
  have hrun : (run (guard fresh System.step) (start 3) connect).any (fun s => s.waitsFor .rd 0 &&
      (s.stepPoll none).waitsFor .rd 0 && (match s.poll with | .idle => true | _ => false)) = true := by decide
  obtain ⟨s, hs, hboth⟩ := (Option.any_eq_true _ _).mp hrun
  rw [Bool.and_eq_true, Bool.and_eq_true] at hboth
  have hneglects : Neglects .rd 0 s [.poll none] (s.stepPoll none) := by
    refine .step (waits_of_waitsFor hboth.1.1) (fun polled sets ready hpoll => ?_) rfl (.here (waits_of_waitsFor hboth.1.2))
    rw [hpoll] at hboth
    cases hboth.2
  exact ⟨s, s.stepPoll none, hs, hneglects, (attends_of_run hs hneglects).1⟩

end System

end CloudLabs.Cdb.Connections
