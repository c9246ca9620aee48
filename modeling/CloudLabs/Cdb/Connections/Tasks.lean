import CloudLabs.Cdb.Connections.Shape
import CloudLabs.TcpServer.Reactor.Theorems

namespace CloudLabs.Cdb.Connections

open TcpServer

-- A job that has not come to its end.
def Job.live (job : Job) : Prop := job.todo ≠ [] ∨ job.held ≠ none

section Step

variable {s next : Shared} {busy : Kind × Nat → Bool} {job job' : Job}

theorem live_of_held {held : Held} (h : job.held = some held) : job.live := by
  right
  rw [h]
  exact Option.some_ne_none held

theorem live_of_todo {action : Action} {rest : List Action} (h : job.todo = action :: rest) :
    job.live := by
  left
  rw [h]
  exact List.cons_ne_nil action rest

theorem live_step (hstep : JobStep s busy job next job') : job.live := by
  cases hstep with
  | readNothing _ hheld _ => exact live_of_held hheld
  | received _ hheld _ => exact live_of_held hheld
  | recvFailed hheld _ => exact live_of_held hheld
  | wroteNothing _ hheld _ => exact live_of_held hheld
  | sent _ hheld _ => exact live_of_held hheld
  | cleared hheld => exact live_of_held hheld
  | refused hheld _ => exact live_of_held hheld
  | submitted hheld _ => exact live_of_held hheld
  | callbackSet hheld => exact live_of_held hheld
  | pushed hheld => exact live_of_held hheld
  | replied _ _ _ htodo => exact live_of_todo htodo
  | serves _ htodo _ => exact live_of_todo htodo
  | submits _ htodo _ => exact live_of_todo htodo
  | accepted _ htodo _ => exact live_of_todo htodo
  | requestsCleared _ htodo _ => exact live_of_todo htodo
  | removed _ htodo _ => exact live_of_todo htodo
  | completed _ htodo _ => exact live_of_todo htodo
  | ended _ htodo _ => exact live_of_todo htodo
  | _ => exact live_of_todo ‹_›

theorem role_step (hstep : JobStep s busy job next job') : job'.role = job.role := by
  cases hstep <;> rfl

theorem mutex_step {mutex : Kind × Nat} (hstep : JobStep s busy job next job')
    (h : job'.held.map Held.mutex = some mutex) :
    job.held.map Held.mutex = some mutex ∨ busy mutex = false := by
  cases hstep with
  | readNothing result hheld hnone => cases h
  | @received c cb requests data hheld hrequests =>
      left
      rw [hheld]
      cases requests with
      | nil => exact h
      | cons _ _ => cases h
  | @recvFailed c cb requests hheld hrequests =>
      left
      rw [hheld]
      cases requests with
      | nil => exact h
      | cons _ _ => cases h
  | wroteNothing success hheld hnone => cases h
  | @sent c request requests success hheld hrequests =>
      left
      rw [hheld]
      cases requests with
      | nil => exact h
      | cons _ _ => cases h
  | cleared hheld => cases h
  | refused hheld hconnected => cases h
  | submitted hheld hconnected =>
      left
      rw [hheld]
      exact h
  | callbackSet hheld =>
      left
      rw [hheld]
      exact h
  | pushed hheld => cases h
  | serves hheld htodo hbusy =>
      right
      exact Option.some.inj h ▸ hbusy
  | submits hheld htodo hbusy =>
      right
      exact Option.some.inj h ▸ hbusy
  | _ => exact .inl h

-- What a step leaves of the entries: a callback that runs is given up only by
-- the end of its own task.
theorem executing_step {fd : Fd} {kind : Kind} {info : FdInfo Callback}
    (hstep : JobStep s busy job next job') (hget : s.tracked.get fd = some info)
    (hexecuting : info.isExecuting kind = true) :
    (∃ info', next.tracked.get fd = some info' ∧ info'.isExecuting kind = true) ∨
      ((∃ callback, job.role = .task kind fd callback) ∧ ¬job'.live) := by
  have hset : ∀ (callback : Option Callback) (c : Nat) (other : Kind),
      ∃ info', (s.setCallback other c callback).tracked.get fd = some info' ∧
        info'.isExecuting kind = true := by
    intro callback c other
    simp only [Shared.setCallback, Tracked.get_setCallback]
    by_cases hfd : fd = (s.clients c).fd
    · rw [if_pos hfd, ← hfd, hget]
      exact ⟨_, rfl, hexecuting⟩
    · rw [if_neg hfd]
      exact ⟨info, hget, hexecuting⟩
  cases hstep with
  | cleared hheld => exact .inl (hset _ _ _)
  | callbackSet hheld => exact .inl (hset _ _ _)
  | @unregistered c rest hheld htodo =>
      left
      unfold Shared.unregister
      split
      · exact ⟨info, hget, hexecuting⟩
      · simp only [Tracked.get_unregister]
        by_cases hfd : fd = (s.clients c).fd
        · rw [if_pos hfd, ← hfd, hget, Option.filter_some, if_pos (info.isBusy_of_isExecuting hexecuting)]
          exact ⟨_, rfl, hexecuting⟩
        · rw [if_neg hfd]
          exact ⟨info, hget, hexecuting⟩
  | @completed other fd' callback rest hheld htodo hrole =>
      by_cases hown : other = kind ∧ fd' = fd
      · right
        obtain ⟨rfl, rfl⟩ := hown
        exact ⟨⟨callback, hrole⟩, fun hlive => hlive.elim (fun h => h rfl) fun h => h hheld⟩
      · left
        unfold Shared.complete
        split
        · exact ⟨info, hget, hexecuting⟩
        · simp only [Tracked.get_complete]
          by_cases hfd : fd = fd'
          · have hkind : kind ≠ other := fun heq => hown ⟨heq.symm, hfd.symm⟩
            have hkept := (info.setExecuting_isExecuting_ne hkind false).trans hexecuting
            have hleft : (info.setExecuting other false).isLeft = false := by
              unfold FdInfo.isLeft
              simp [FdInfo.isBusy_of_isExecuting _ hkept]
            rw [if_pos hfd, ← hfd, hget, Option.map_some, Option.filter_some, hleft]
            exact ⟨_, rfl, hkept⟩
          · rw [if_neg hfd]
            exact ⟨info, hget, hexecuting⟩
  | _ => exact .inl ⟨info, hget, hexecuting⟩

end Step

namespace System

variable {s next : System}

@[simp] theorem setJob_jobs_self (i : Nat) (job : Job) : (s.setJob i job).jobs i = job := if_pos rfl

theorem setJob_jobs_ne {i j : Nat} (h : j ≠ i) (job : Job) : (s.setJob i job).jobs j = s.jobs j :=
  if_neg h

-- A property of all jobs after one of them changed.
theorem forall_setJob {i : Nat} {job : Job} {P : Nat → Job → Prop} (hjob : P i job)
    (hothers : ∀ j, j ≠ i → P j (s.jobs j)) (j : Nat) : P j ((s.setJob i job).jobs j) := by
  by_cases h : j = i
  · rw [h, setJob_jobs_self]
    exact hjob
  · rw [setJob_jobs_ne h]
    exact hothers j h

-- A job that is live afterwards was live before, in the same role.
theorem live_setJob {i j : Nat} {job : Job} (hlive : (s.jobs i).live) (hrole : job.role = (s.jobs i).role)
    (hj : ((s.setJob i job).jobs j).live) :
    (s.jobs j).live ∧ ((s.setJob i job).jobs j).role = (s.jobs j).role := by
  by_cases h : j = i
  · rw [h, setJob_jobs_self]
    exact ⟨hlive, hrole⟩
  · rw [setJob_jobs_ne h] at hj ⊢
    exact ⟨hj, rfl⟩

-- The poll thread changes its own state, reads from the pipe, and dispatches.
theorem stepPoll_keeps {P : System → Prop}
    (hsame : ∀ s poll notifications, P s → P { s with poll := poll, notifications := notifications })
    (hdispatch : ∀ ready s fd kind, P s → P (dispatchKind ready s fd kind)) (hsweep : ∀ s fd, P s → P (sweepFd s fd))
    (ready : Option Ready) (h : P s) : P (s.stepPoll ready) := by
  unfold System.stepPoll
  split
  · exact hsame s _ s.notifications h
  · split
    · exact hsame s _ s.notifications h
    · exact hsame s _ s.notifications h
  · exact dispatchSelect_keeps (hdispatch _) hsweep _ _ (hsame s _ _ h)

-- At most one task of a kind runs for a descriptor, and its flag is set.
structure Executing (s : System) : Prop where
  ended : ∀ i, s.spawned ≤ i → s.jobs i = .ended
  executing : ∀ i kind fd callback, (s.jobs i).role = .task kind fd callback → (s.jobs i).live →
    ∃ info, s.tracked.get fd = some info ∧ info.isExecuting kind = true
  unique : ∀ i j kind fd callback callback', (s.jobs i).role = .task kind fd callback →
    (s.jobs j).role = .task kind fd callback' → (s.jobs i).live → (s.jobs j).live → i = j

theorem not_live_ended : ¬Job.ended.live := fun h => h.elim (fun h => h rfl) fun h => h rfl

theorem Executing.lt_of_live (h : s.Executing) {i : Nat} (hlive : (s.jobs i).live) : i < s.spawned := by
  by_contra hle
  rw [h.ended i (by omega)] at hlive
  exact not_live_ended hlive

theorem Executing.busy_eq_false (h : s.Executing) {mutex : Kind × Nat} (hbusy : s.busy mutex = false)
    (i : Nat) : (s.jobs i).held.map Held.mutex ≠ some mutex := by
  intro hheld
  have hlive : (s.jobs i).live := .inr fun hnone => by
    rw [hnone] at hheld
    cases hheld
  have hmem := List.mem_range.mpr (h.lt_of_live hlive)
  unfold busy at hbusy
  have hnot := List.any_eq_false.mp hbusy i hmem
  exact hnot (by simpa using hheld)

theorem Executing.step_job (h : s.Executing) {i : Nat} {shared : Shared} {job : Job}
    (hstep : JobStep s.toShared s.busy (s.jobs i) shared job) :
    Executing { s.setJob i job with toShared := shared } := by
  have hrole := role_step hstep
  have hlive := live_step hstep
  refine ⟨fun j hj => ?_, fun j kind fd callback hj hjlive => ?_, ?_⟩
  · have hlt := h.lt_of_live hlive
    have hle : s.spawned ≤ j := hj
    rw [setJob_jobs_ne (by omega)]
    exact h.ended j hj
  · obtain ⟨hjlive', hjrole⟩ := live_setJob hlive hrole hjlive
    have hjrole' := hjrole.symm.trans hj
    obtain ⟨info, hget, hexecuting⟩ := h.executing j kind fd callback hjrole' hjlive'
    obtain hkept | ⟨⟨callback', hown⟩, hended⟩ := executing_step hstep hget hexecuting
    · exact hkept
    · have hij := h.unique i j kind fd callback' callback hown hjrole' hlive hjlive'
      rw [← hij, setJob_jobs_self] at hjlive
      exact absurd hjlive hended
  · intro j k kind fd callback callback' hj hk hjlive hklive
    obtain ⟨hjlive', hjrole⟩ := live_setJob hlive hrole hjlive
    obtain ⟨hklive', hkrole⟩ := live_setJob hlive hrole hklive
    exact h.unique j k kind fd callback callback' (hjrole.symm.trans hj) (hkrole.symm.trans hk)
      hjlive' hklive'

theorem dispatch_eq (ready : Kind → List Fd) (fd : Fd) (kind : Kind) (s : System) :
    dispatchKind ready s fd kind = s ∨
      ∃ info callback, s.tracked.get fd = some info ∧ info.callback kind = some callback ∧
        info.isExecuting kind = false ∧
        dispatchKind ready s fd kind =
          { s with tracked := (s.tracked.dispatch kind fd).1 }.spawn (.ofTask ⟨kind, fd, callback⟩) :=
  dispatchKind_eq ready fd kind s

theorem spawn_jobs_self (job : Job) : (s.spawn job).jobs s.spawned = job := if_pos rfl

theorem spawn_jobs_ne {j : Nat} (h : j ≠ s.spawned) (job : Job) : (s.spawn job).jobs j = s.jobs j :=
  if_neg h

-- Entries whose flags stay set as long as they were.
theorem Executing.of_kept (h : s.Executing) (hjobs : next.jobs = s.jobs) (hspawned : next.spawned = s.spawned)
    (hkept : ∀ fd kind info, s.tracked.get fd = some info → info.isExecuting kind = true →
      ∃ info', next.tracked.get fd = some info' ∧ info'.isExecuting kind = true) :
    next.Executing := by
  refine ⟨?_, ?_, ?_⟩
  · rw [hjobs, hspawned]
    exact h.ended
  · rw [hjobs]
    intro i kind fd callback hrole hlive
    obtain ⟨info, hget, hexecuting⟩ := h.executing i kind fd callback hrole hlive
    exact hkept fd kind info hget hexecuting
  · rw [hjobs]
    exact h.unique

theorem Executing.spawn (h : s.Executing) {job : Job}
    (hjob : ∀ kind fd callback, job.role = .task kind fd callback →
      (∃ info, s.tracked.get fd = some info ∧ info.isExecuting kind = true) ∧
        ∀ j callback', (s.jobs j).role = .task kind fd callback' → ¬(s.jobs j).live) :
    (s.spawn job).Executing := by
  refine ⟨fun i hi => ?_, fun i kind fd callback hrole hlive => ?_, ?_⟩
  · have hlt : s.spawned < i := hi
    rw [spawn_jobs_ne (by omega)]
    exact h.ended i (by omega)
  · by_cases hi : i = s.spawned
    · rw [hi, spawn_jobs_self] at hrole
      exact (hjob kind fd callback hrole).1
    · rw [spawn_jobs_ne hi] at hrole hlive
      exact h.executing i kind fd callback hrole hlive
  · intro i j kind fd callback callback' hi hj hilive hjlive
    by_cases hinew : i = s.spawned
    · by_cases hjnew : j = s.spawned
      · rw [hinew, hjnew]
      · rw [hinew, spawn_jobs_self] at hi
        rw [spawn_jobs_ne hjnew] at hj hjlive
        exact absurd hjlive ((hjob kind fd callback hi).2 j callback' hj)
    · rw [spawn_jobs_ne hinew] at hi hilive
      by_cases hjnew : j = s.spawned
      · rw [hjnew, spawn_jobs_self] at hj
        exact absurd hilive ((hjob kind fd callback' hj).2 i callback hi)
      · rw [spawn_jobs_ne hjnew] at hj hjlive
        exact h.unique i j kind fd callback callback' hi hj hilive hjlive

theorem Executing.dispatch (h : s.Executing) (ready : Kind → List Fd) (fd : Fd) (kind : Kind) :
    (dispatchKind ready s fd kind).Executing := by
  obtain heq | ⟨info, callback, hget, hcallback, hidle, heq⟩ := dispatch_eq ready fd kind s
  · rw [heq]
    exact h
  · rw [heq]
    have hset : Executing { s with tracked := (s.tracked.dispatch kind fd).1 } := by
      refine h.of_kept rfl rfl fun fd' kind' info' hget' hexecuting => ?_
      simp only [Tracked.get_dispatch]
      by_cases hfd : fd' = fd
      · rw [if_pos hfd, ← hfd, hget']
        refine ⟨_, rfl, ?_⟩
        by_cases hkind : kind' = kind
        · rw [hkind, FdInfo.setExecuting_isExecuting]
        · rw [info'.setExecuting_isExecuting_ne hkind]
          exact hexecuting
      · rw [if_neg hfd]
        exact ⟨info', hget', hexecuting⟩
    refine hset.spawn fun kind' fd' callback' hrole => ?_
    cases hrole
    refine ⟨⟨info.setExecuting kind true, ?_, info.setExecuting_isExecuting kind true⟩, ?_⟩
    · simp only [Tracked.get_dispatch, if_pos, hget, Option.map_some]
    · intro j other hrole hlive
      obtain ⟨info', hget', hexecuting⟩ := h.executing j kind fd other hrole hlive
      rw [hget, Option.some.injEq] at hget'
      rw [← hget', hidle] at hexecuting
      cases hexecuting

theorem Executing.sweep (h : s.Executing) (fd : Fd) : (sweepFd s fd).Executing := by
  refine h.of_kept rfl rfl fun fd' kind info hget hexecuting => ?_
  simp only [sweepFd_tracked, Tracked.get_sweep]
  by_cases hfd : fd' = fd
  · have hleft : info.isLeft = false := by
      unfold FdInfo.isLeft
      simp [info.isBusy_of_isExecuting hexecuting]
    rw [if_pos hfd, ← hfd, hget, Option.filter_some, hleft]
    exact ⟨info, rfl, hexecuting⟩
  · rw [if_neg hfd]
    exact ⟨info, hget, hexecuting⟩

theorem Executing.stepPoll (h : s.Executing) (ready : Option Ready) : (s.stepPoll ready).Executing := by
  apply stepPoll_keeps (P := Executing) _ _ _ ready h
  · exact fun _ _ _ h => ⟨h.ended, h.executing, h.unique⟩
  · exact fun ready _ fd kind h => h.dispatch ready fd kind
  · exact fun _ fd h => h.sweep fd

end System

end CloudLabs.Cdb.Connections
