import CloudLabs.Cdb.Connections.Registered

namespace CloudLabs.Cdb.Connections

open TcpServer Interaction

-- The calls of handle_db_requests for a client that have not returned.
def Action.handles (c : Nat) : Action → Bool
  | .handleDbRequests c' _ _ => c' = c
  | .returned c' => c' = c
  | _ => false

def Job.handlers (c : Nat) (job : Job) : Nat := job.todo.countP (Action.handles c)

theorem Action.rank_of_handles {action : Action} {c : Nat} (h : action.handles c = true) :
    action.rank = 2 ∨ action.rank = 3 := by
  cases action with
  | handleDbRequests => exact .inl rfl
  | returned => exact .inr rfl
  | _ => cases h

theorem Action.reads_of_handles {action : Action} {c : Nat} (h : action.handles c = true) :
    .reads c ∈ action.marks := by
  cases action with
  | handleDbRequests c' prevData result => simp_all [Action.handles, Action.marks]
  | returned c' => simp_all [Action.handles, Action.marks]
  | _ => cases h

theorem reads_of_handlers {job : Job} {c : Nat} (h : 0 < job.handlers c) : .reads c ∈ job.marks := by
  obtain ⟨action, haction, hhandles⟩ := List.countP_pos_iff.mp h
  exact mem_marks_todo haction (Action.reads_of_handles hhandles)

theorem countP_handles_le {todo : List Action} {c : Nat} (h : (todo.map Action.rank).Pairwise follows) :
    todo.countP (Action.handles c) ≤ 1 := by
  induction todo with
  | nil => exact Nat.zero_le 1
  | cons action rest ih =>
      rw [List.map_cons] at h
      obtain ⟨hhead, hrest⟩ := List.pairwise_cons.mp h
      by_cases hhandles : action.handles c = true
      · have hrank := Action.rank_of_handles hhandles
        have hnone : rest.countP (Action.handles c) = 0 := by
          refine List.countP_eq_zero.mpr fun other hother hagain => ?_
          have hlow := hhead other.rank (List.mem_map_of_mem hother)
          have hother := Action.rank_of_handles hagain
          unfold follows at hlow
          omega
        rw [List.countP_cons_of_pos hhandles, hnone]
      · rw [List.countP_cons_of_neg hhandles]
        exact ih hrest

theorem handlers_le {job : Job} {c : Nat} (h : job.Shaped) : job.handlers c ≤ 1 := by
  unfold Job.Shaped Job.ranks at h
  exact countP_handles_le (List.pairwise_append.mp h).2.1

namespace System

-- What holds for a client that is connected. At most one handle_db_requests runs
-- for it; the commands are dispatched in the order in which they arrived, and what
-- was sent are the replies in the order of the commands, as far as they are not
-- queued.
structure InOrder (s : System) (c : Nat) : Prop where
  once : ∀ i, (s.jobs i).handlers c ≤ 1
  single : ∀ i j, 0 < (s.jobs i).handlers c → 0 < (s.jobs j).handlers c → i = j
  commands : (s.clients c).commands <+: (handleReads (.read none) (s.clients c).received).1
  numbered : ∀ i number cmd cmds after, .dispatch c number (cmd :: cmds) after ∈ (s.jobs i).todo →
    (s.clients c).commands[number]? = some cmd
  ordered : ((s.clients c).replies.map Prod.fst).Pairwise (· ≤ ·)
  sent : (s.clients c).sent ++ (s.clients c).writeRequests.map WriteRequest.data =
    (s.clients c).replies.map Prod.snd

-- Moreover a request that waits has its callback, and the poll thread waits for it or
-- is about to.
structure Serves (s : System) (c : Nat) : Prop extends InOrder s c where
  pending : ∀ kind, (s.clients c).hasRequests kind = true →
    ∃ info, s.tracked.get (s.clients c).fd = some info ∧ info.callback kind = some (.client c) ∧
      ∀ polled sets, s.poll = .selecting polled sets →
        info.isExecuting kind = true ∨ (s.clients c).fd ∈ sets kind ∨ 0 < s.notifications

structure Consistent (s : System) : Prop where
  executing : s.Executing
  placed : s.Placed
  ordered : s.Ordered
  tokens : s.Tokens
  replying : s.Replying

-- accept returned a descriptor whose entry is not marked for an earlier client.
def fresh (s : System) : Move → Bool
  | .advance _ (.accepted fd) => (s.tracked.get fd).all fun info => !info.markedUntrack
  | _ => true

variable {s next : System} {move : Move}

theorem Consistent.step (h : s.Consistent) (hstep : s.step move = some next) : next.Consistent := by
  cases move with
  | poll ready =>
      cases hstep
      exact ⟨h.executing.stepPoll ready, h.placed.stepPoll ready, h.ordered.stepPoll ready,
        h.tokens.stepPoll ready, h.replying.stepPoll ready⟩
  | advance i choice =>
      obtain ⟨⟨shared, job⟩, hjob, rfl⟩ := Option.map_eq_some_iff.mp hstep
      have hstep := jobStep_of_step hjob
      exact ⟨h.executing.step_job hstep, h.placed.step_job hstep, h.ordered.step_job h.executing hstep,
        h.tokens.step_job h.placed h.ordered hstep,
        h.replying.step_job h.executing h.placed h.ordered h.tokens hstep⟩
  | disconnect c wait =>
      simp only [System.step] at hstep
      split at hstep
      · next hc =>
          cases hstep
          refine ⟨?_, ?_, ?_, ?_, ?_⟩
          · exact h.executing.spawn fun kind fd callback hrole => by cases hrole
          · refine h.placed.spawn (fun c' hmark => ?_) (fun c' hmark => ?_) (fun _ _ _ hrole => by cases hrole)
              fun c' hmark => ?_
            · simp [Job.marks, Role.marks, Action.marks] at hmark
              omega
            · simp [Job.marks, Role.marks, Action.marks] at hmark
            · simp [Job.marks, Role.marks, Action.marks] at hmark
          · exact h.ordered.spawn (pairwise_follows_singleton _) .nil rfl
          · refine h.tokens.spawn fun c' hmark => ?_
            simp [Job.marks, Role.marks, Action.marks] at hmark
          · refine h.replying.spawn fun c' => ⟨(fun _ hheld => by cases hheld), fun action haction => ?_⟩
            rw [List.mem_singleton.mp haction]
            trivial
      · cases hstep

theorem not_mem_marks_ended {mark : Mark} : mark ∉ Job.ended.marks := by
  simp [Job.ended, Job.marks, Role.marks]

-- The only callback at the start is the one of the listener.
theorem start_callback {listener fd : Fd} {info : FdInfo Callback} {kind : Kind} {callback : Callback}
    (hget : (start listener).tracked.get fd = some info) (hcallback : info.callback kind = some callback) :
    callback = .accept := by
  simp only [start, Tracked.registerFd, Tracked.get_insert] at hget
  split at hget
  · cases hget
    cases kind with
    | rd =>
        cases hcallback
        rfl
    | wr => cases hcallback
  · cases hget

theorem start_consistent (listener : Fd) : (start listener).Consistent where
  executing := ⟨fun _ _ => rfl, fun _ _ _ _ hrole => (nomatch hrole), fun _ _ _ _ _ _ hrole => (nomatch hrole)⟩
  placed := by
    refine ⟨fun _ _ hmark => absurd hmark not_mem_marks_ended, fun _ _ hmark => absurd hmark not_mem_marks_ended,
      fun _ _ => rfl, fun fd info kind c hget hcallback => ?_, fun fd info kind c hget hcallback => ?_,
      fun _ _ _ _ hrole => (nomatch hrole), fun _ _ hmark => absurd hmark not_mem_marks_ended⟩
    · cases start_callback hget hcallback
    · cases start_callback hget hcallback
  ordered := ⟨fun _ => .nil, fun _ => .nil, fun _ _ _ hheld => (nomatch hheld)⟩
  tokens := ⟨fun _ _ _ hmark => absurd hmark not_mem_marks_ended,
    fun _ _ hmark => absurd hmark not_mem_marks_ended, fun _ => Nat.zero_le 1⟩
  replying := ⟨fun _ hconnected => (nomatch hconnected), fun _ _ hconnected => (nomatch hconnected)⟩

theorem start_registered (listener : Fd) : (start listener).Registered where
  opened := fun _ hconnected => (nomatch hconnected)
  owned := fun _ _ hconnected => (nomatch hconnected)
  unmarked := fun _ _ hconnected => (nomatch hconnected)
  pending := fun _ _ hconnected => (nomatch hconnected)
  pushing := fun _ _ _ hconnected => (nomatch hconnected)
  clearing := fun _ _ _ hheld => (nomatch hheld)

-- What accept returns is what the step was given.
theorem choice_of_accept {s : Shared} {busy : Kind × Nat → Bool} {job job' : Job} {choice : Choice} {fd : Fd}
    (h : job.step s busy choice = some (s.accept fd, job')) : choice = .accepted fd := by
  generalize hnext : s.accept fd = shared at h
  have haccepted : shared.accepted = s.accepted + 1 := hnext ▸ rfl
  have hstep := jobStep_of_step h
  cases hstep with
  | @accepted fd' rest hheld htodo hfree =>
      have hfd : fd' = fd := by
        have hclients := congrArg (fun shared => (shared.clients s.accepted).fd) hnext
        simp only [Shared.accept_clients_self] at hclients
        exact hclients.symm
      subst hfd
      unfold Job.step at h
      simp only [hheld, htodo, Job.stepAction] at h
      split at h
      · next fd'' =>
          split at h
          · have hclients := congrArg (fun next => (next.1.clients s.accepted).fd) (Option.some.inj h)
            simp only [Shared.accept_clients_self] at hclients
            exact congrArg Choice.accepted hclients
          · cases h
      · cases h
  | @unregistered c rest hheld htodo =>
      rw [(s.unregister_clients c).2] at haccepted
      omega
  | @completed kind fd' callback rest hheld htodo hrole =>
      rw [(s.complete_clients kind fd').2] at haccepted
      omega
  | _ => exact absurd haccepted (Nat.ne_of_lt (Nat.lt_succ_self _))

theorem Registered.step (h : s.Registered) (hconsistent : s.Consistent) (hfresh : s.fresh move = true)
    (hstep : s.step move = some next) : next.Registered := by
  cases move with
  | poll ready =>
      cases hstep
      exact h.stepPoll ready
  | advance i choice =>
      obtain ⟨⟨shared, job⟩, hjob, rfl⟩ := Option.map_eq_some_iff.mp hstep
      refine h.step_job hconsistent.placed hconsistent.ordered (jobStep_of_step hjob) ?_
      rintro fd info rfl hget
      obtain rfl := choice_of_accept hjob
      simp only [fresh, hget, Option.all_some, Bool.not_eq_true'] at hfresh
      exact hfresh
  | disconnect c wait =>
      simp only [System.step] at hstep
      split at hstep
      · cases hstep
        exact h.spawn rfl
      · cases hstep

theorem Woken.step (h : s.Woken) (hstep : s.step move = some next) : next.Woken := by
  cases move with
  | poll ready =>
      cases hstep
      exact stepPoll_woken ready
  | advance i choice =>
      obtain ⟨⟨shared, job⟩, hjob, rfl⟩ := Option.map_eq_some_iff.mp hstep
      exact h.step_job (jobStep_of_step hjob)
  | disconnect c wait =>
      simp only [System.step] at hstep
      split at hstep
      · cases hstep
        exact h
      · cases hstep

theorem Consistent.inOrder (h : s.Consistent) {c : Nat} (hconnected : (s.clients c).isConnected = true) :
    s.InOrder c where
  once := fun i => handlers_le (h.ordered.shaped i)
  single := fun i j hi hj =>
    reads_unique h.placed h.executing hconnected (reads_of_handlers hi) (reads_of_handlers hj)
  commands := (h.replying.clients c hconnected).commands
  numbered := by
    intro i number cmd cmds after hdispatch
    obtain ⟨-, hcmds, -⟩ := (h.replying.jobs i c hconnected).2 _ hdispatch rfl
    have hhead := congrArg List.head? hcmds
    rw [List.head?_drop] at hhead
    exact hhead
  ordered := (h.replying.clients c hconnected).replies
  sent := (h.replying.clients c hconnected).sent

theorem Consistent.serves (h : s.Consistent) (hregistered : s.Registered) (hwoken : s.Woken) {c : Nat}
    (hconnected : (s.clients c).isConnected = true) : s.Serves c where
  toInOrder := h.inOrder hconnected
  pending := by
    intro kind hrequests
    obtain ⟨info, hget, hcallback⟩ := hregistered.pending c kind hconnected hrequests
    refine ⟨info, hget, hcallback, fun polled sets hpoll => ?_⟩
    by_cases hexecuting : info.isExecuting kind = true
    · exact .inl hexecuting
    · right
      obtain hnotified | hsets := hwoken polled sets hpoll
      · exact .inr hnotified
      · refine .inl (hsets _ info kind hget ?_)
        unfold FdInfo.wants
        simp [hcallback, hexecuting]

open Transition in
-- Whatever descriptors accept returns, nothing is out of order.
theorem inOrder_of_run {listener : Fd} {moves : List Move} {c : Nat}
    (hrun : run System.step (start listener) moves = some s) (hconnected : (s.clients c).isConnected = true) :
    s.InOrder c := by
  have hkeeps : Keeps System.step Consistent := fun _ _ _ hconsistent hstep => hconsistent.step hstep
  exact (hkeeps.run (start_consistent listener) hrun).inOrder hconnected

open Transition in
-- A request keeps its callback where accept returns none of the descriptors whose entries
-- are marked.
theorem serves_of_run {listener : Fd} {moves : List Move} {c : Nat}
    (hrun : run (guard fresh System.step) (start listener) moves = some s)
    (hconnected : (s.clients c).isConnected = true) : s.Serves c := by
  have hkeeps : Keeps (guard fresh System.step) fun s => s.Consistent ∧ s.Registered ∧ s.Woken := by
    rintro state move next ⟨hconsistent, hregistered, hwoken⟩ hguard
    obtain ⟨hfresh, hstep⟩ := guard_eq_some hguard
    exact ⟨hconsistent.step hstep, hregistered.step hconsistent hfresh hstep, hwoken.step hstep⟩
  obtain ⟨hconsistent, hregistered, hwoken⟩ := hkeeps.run
    ⟨start_consistent listener, start_registered listener, woken_of_idle rfl⟩ hrun
  exact hconsistent.serves hregistered hwoken hconnected

-- The poll thread runs once around, and finds one descriptor ready.
def select (fd : Fd) (kind : Kind) : List Move :=
  [.poll none, .poll (some ⟨fun other => if other = kind then [fd] else [], true⟩), .poll none]

def advance (i n : Nat) : List Move := List.replicate n (.advance i .go)

-- A connection is accepted on descriptor 5, it asks for a key, and it gets a reply.
def exchange (data reply : Bytes) : List Move :=
  select 3 .rd ++ [.advance 0 (.accepted 5)] ++ advance 0 5 ++
    select 5 .rd ++ advance 1 1 ++ [.advance 1 (.received data)] ++ advance 1 3 ++
    [.advance 1 (.reply reply false)] ++ advance 1 4 ++ [.advance 1 .next] ++ advance 1 7 ++
    select 5 .wr ++ advance 2 5

set_option maxRecDepth 10000 in
open Transition in
theorem serves_of_run_exchange : ∃ s, run (guard fresh System.step) (start 3)
    (exchange [42, 50, 13, 10, 36, 51, 13, 10, 71, 69, 84, 13, 10, 36, 49, 13, 10, 97, 13, 10] [1]) = some s ∧
      (s.clients 0).sent = [[1]] ∧ s.Serves 0 := by
  have hrun : (run (guard fresh System.step) (start 3)
      (exchange [42, 50, 13, 10, 36, 51, 13, 10, 71, 69, 84, 13, 10, 36, 49, 13, 10, 97, 13, 10] [1])).any
      (fun s => (s.clients 0).isConnected && (s.clients 0).sent = [[1]]) = true := by decide
  obtain ⟨s, hs, hboth⟩ := (Option.any_eq_true _ _).mp hrun
  rw [Bool.and_eq_true, decide_eq_true_eq] at hboth
  exact ⟨s, hs, hboth.2, serves_of_run hs hboth.1⟩

-- A connection on descriptor 5 fails, and while its callback still runs another
-- one is accepted on the same descriptor. The end of the callback takes the
-- entry away.
def reconnect : List Move :=
  select 3 .rd ++ [.advance 0 (.accepted 5)] ++ advance 0 5 ++
    select 5 .rd ++ advance 1 1 ++ [.advance 1 .failed] ++ advance 1 8 ++
    select 3 .rd ++ [.advance 2 (.accepted 5)] ++ advance 2 5 ++ advance 1 4

set_option maxRecDepth 10000 in
open Transition in
theorem not_serves_of_reconnect : ¬∀ (listener : Fd) (moves : List Move) (s : System) (c : Nat),
    run System.step (start listener) moves = some s → (s.clients c).isConnected = true → s.Serves c := by
  intro hall
  have hrun : (run System.step (start 3) reconnect).any (fun s => (s.clients 1).isConnected &&
      (s.clients 1).hasRequests .rd && (s.tracked.get (s.clients 1).fd).isNone) = true := by decide
  obtain ⟨s, hs, hobserved⟩ := (Option.any_eq_true _ _).mp hrun
  rw [Bool.and_eq_true, Bool.and_eq_true, Option.isNone_iff_eq_none] at hobserved
  obtain ⟨⟨hconnected, hrequests⟩, hnone⟩ := hobserved
  obtain ⟨info, hget, -⟩ := (hall 3 reconnect s 1 hs hconnected).pending .rd hrequests
  cases hnone.symm.trans hget

end System

end CloudLabs.Cdb.Connections
