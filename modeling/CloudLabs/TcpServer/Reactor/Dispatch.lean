import CloudLabs.Interaction.Transition
import CloudLabs.TcpServer.Reactor.Theorems

namespace CloudLabs.TcpServer

variable {Callback : Type}

-- Where the poll thread stands: before init_select_fds, in select, or before
-- dispatch_select.
inductive Poll where
  | idle
  | selecting (polled : List Fd) (sets : Kind → List Fd)
  | selected (polled : List Fd) (ready : Kind → List Fd)

-- `tasks` are those of the callback workers that have not come to their last part,
-- and `opened` the descriptors of the connections.
structure Reactor (Callback : Type) where
  tracked : Tracked Callback
  poll : Poll
  tasks : List (CallbackTask Callback)
  opened : List Fd

namespace Reactor

def start : Reactor Callback := ⟨∅, .idle, [], []⟩

instance : Dispatches (Reactor Callback) Callback where
  tracked r := r.tracked
  setTracked r tracked := { r with tracked := tracked }
  addTask r task := { r with tasks := r.tasks ++ [task] }

@[simp] theorem sweepFd_tracked (r : Reactor Callback) (fd : Fd) : (sweepFd r fd).tracked = r.tracked.sweep fd := rfl

-- `ready` is what select finds, and `none` an error.
def stepPoll (r : Reactor Callback) (ready : Option (Kind → List Fd)) : Reactor Callback :=
  match r.poll with
  | .idle => { r with poll := .selecting r.tracked.polledFds r.tracked.selectFds }
  | .selecting polled sets =>
      match ready with
      | none => { r with poll := .idle }
      | some ready => { r with
          poll := .selected polled fun kind => (sets kind).filter (· ∈ ready kind) }
  | .selected polled ready => dispatchSelect ready polled { r with poll := .idle }

-- `accept` and `close` are the kernel's, `complete` is the end of a task.
inductive Move (Callback : Type) where
  | registerFd (fd : Fd) (callback : Kind → Option Callback)
  | setCallback (kind : Kind) (fd : Fd) (callback : Option Callback)
  | unregister (fd : Fd)
  | poll (ready : Option (Kind → List Fd))
  | complete (i : Nat)
  | accept (fd : Fd)
  | close (fd : Fd)

def step (r : Reactor Callback) : Move Callback → Option (Reactor Callback)
  | .registerFd fd callback => some { r with tracked := r.tracked.registerFd fd callback }
  | .setCallback kind fd callback => some { r with tracked := r.tracked.setCallback kind fd callback }
  | .unregister fd => some { r with tracked := r.tracked.unregister fd }
  | .poll ready => some (r.stepPoll ready)
  | .complete i => r.tasks[i]?.map fun task =>
      { r with tracked := r.tracked.complete task.kind task.fd, tasks := r.tasks.eraseIdx i }
  | .accept fd => if fd ∈ r.opened then none else some { r with opened := fd :: r.opened }
  | .close fd => some { r with opened := r.opened.filter (· ≠ fd) }

end Reactor

namespace Tracked

-- The is_executing flag of an entry, which is false where there is none.
def executes (tracked : Tracked Callback) (kind : Kind) (fd : Fd) : Bool :=
  ((tracked.get fd).map fun info => info.isExecuting kind).getD false

-- No entry is left that is marked and has no callback running.
def Tidy (tracked : Tracked Callback) : Prop :=
  ∀ fd info, tracked.get fd = some info → info.isLeft = false

variable {tracked : Tracked Callback} {fd other : Fd} {kind kind' : Kind}

theorem get_registerFd (callback : Kind → Option Callback) :
    (tracked.registerFd fd callback).get other =
      if other = fd then
        some { (tracked.get fd).getD .new with callback := callback, markedUntrack := false }
      else tracked.get other :=
  get_insert tracked fd other _

theorem isExecuting_getD : ((tracked.get fd).getD .new).isExecuting kind = tracked.executes kind fd := by
  unfold executes
  cases tracked.get fd <;> rfl

@[simp] theorem executes_registerFd (callback : Kind → Option Callback) :
    (tracked.registerFd fd callback).executes kind other = tracked.executes kind other := by
  unfold executes
  rw [get_registerFd]
  by_cases h : other = fd
  · rw [if_pos h, h]
    exact isExecuting_getD
  · rw [if_neg h]

@[simp] theorem executes_setCallback (callback : Option Callback) :
    (tracked.setCallback kind' fd callback).executes kind other = tracked.executes kind other := by
  unfold executes
  rw [get_setCallback]
  by_cases h : other = fd
  · rw [if_pos h, h]
    exact isExecuting_getD
  · rw [if_neg h]

-- An entry that is erased has no callback running.
theorem getD_filter {entry : Option (FdInfo Callback)} {keep : FdInfo Callback → Bool}
    (hkeep : ∀ info, entry = some info → keep info = false → info.isBusy = false) :
    ((entry.filter keep).map fun info => info.isExecuting kind).getD false =
      (entry.map fun info => info.isExecuting kind).getD false := by
  cases entry with
  | none => rfl
  | some info =>
      cases hinfo : keep info with
      | true => rw [Option.filter_some, if_pos hinfo]
      | false =>
          have hidle := info.isExecuting_of_isBusy (hkeep info rfl hinfo) kind
          rw [Option.filter_some, if_neg (by simp [hinfo])]
          simp [hidle]

theorem isBusy_of_left {info : FdInfo Callback} (h : (!info.isLeft) = false) : info.isBusy = false := by
  unfold FdInfo.isLeft at h
  cases hbusy : info.isBusy with
  | false => rfl
  | true => simp [hbusy] at h

@[simp] theorem executes_sweep : (tracked.sweep fd).executes kind other = tracked.executes kind other := by
  unfold executes
  rw [get_sweep]
  by_cases h : other = fd
  · rw [if_pos h, h]
    exact getD_filter fun info _ hleft => isBusy_of_left hleft
  · rw [if_neg h]

@[simp] theorem executes_unregister :
    (tracked.unregister fd).executes kind other = tracked.executes kind other := by
  unfold executes
  rw [get_unregister]
  by_cases h : other = fd
  · rw [if_pos h, h, Option.map_map]
    exact getD_filter fun info _ hbusy => hbusy
  · rw [if_neg h]

theorem executes_dispatch {info : FdInfo Callback} (hget : tracked.get fd = some info) :
    (tracked.dispatch kind' fd).1.executes kind other =
      (tracked.executes kind other || decide (kind = kind' ∧ other = fd)) := by
  unfold executes
  rw [get_dispatch]
  by_cases h : other = fd
  · rw [if_pos h, h, hget]
    by_cases hkind : kind = kind'
    · simp [hkind]
    · simp [hkind, info.setExecuting_isExecuting_ne hkind]
  · simp [h]

theorem executes_complete :
    (tracked.complete kind' fd).executes kind other =
      (tracked.executes kind other && !decide (kind = kind' ∧ other = fd)) := by
  unfold executes
  rw [get_complete]
  by_cases h : other = fd
  · rw [if_pos h, h, getD_filter fun info _ hleft => isBusy_of_left hleft]
    cases hget : tracked.get fd with
    | none => simp
    | some info =>
        by_cases hkind : kind = kind'
        · simp [hkind]
        · simp [hkind, info.setExecuting_isExecuting_ne hkind]
  · simp [h]

theorem Tidy.of_get (h : tracked.Tidy) {next : Tracked Callback} (hnext : ∀ other info,
    next.get other = some info → tracked.get other = some info ∨ info.isLeft = false) : next.Tidy := by
  intro other info hget
  rcases hnext other info hget with hold | hkept
  · exact h other info hold
  · exact hkept

theorem tidy_registerFd (h : tracked.Tidy) (callback : Kind → Option Callback) :
    (tracked.registerFd fd callback).Tidy := by
  refine h.of_get fun other info hget => ?_
  rw [get_registerFd] at hget
  by_cases hfd : other = fd
  · rw [if_pos hfd] at hget
    cases hget
    exact .inr rfl
  · rw [if_neg hfd] at hget
    exact .inl hget

theorem tidy_setCallback (h : tracked.Tidy) (callback : Option Callback) :
    (tracked.setCallback kind fd callback).Tidy := by
  refine h.of_get fun other info hget => ?_
  rw [get_setCallback] at hget
  by_cases hfd : other = fd
  · rw [if_pos hfd] at hget
    cases hget
    right
    cases hold : tracked.get fd with
    | none => rfl
    | some info => exact h fd info hold
  · rw [if_neg hfd] at hget
    exact .inl hget

theorem tidy_unregister (h : tracked.Tidy) : (tracked.unregister fd).Tidy := by
  refine h.of_get fun other info hget => ?_
  rw [get_unregister] at hget
  by_cases hfd : other = fd
  · rw [if_pos hfd] at hget
    obtain ⟨old, hold, rfl⟩ := Option.map_eq_some_iff.mp hget
    have hbusy : old.mark.isBusy = true := (Option.filter_eq_some_iff.mp hold).2
    right
    simp [FdInfo.isLeft, hbusy]
  · rw [if_neg hfd] at hget
    exact .inl hget

theorem tidy_dispatch (h : tracked.Tidy) : (tracked.dispatch kind fd).1.Tidy := by
  refine h.of_get fun other info hget => ?_
  rw [get_dispatch] at hget
  by_cases hfd : other = fd
  · rw [if_pos hfd] at hget
    obtain ⟨old, -, rfl⟩ := Option.map_eq_some_iff.mp hget
    have hbusy := FdInfo.isBusy_of_isExecuting _ (old.setExecuting_isExecuting kind true)
    right
    simp [FdInfo.isLeft, hbusy]
  · rw [if_neg hfd] at hget
    exact .inl hget

theorem tidy_sweep (h : tracked.Tidy) : (tracked.sweep fd).Tidy := by
  refine h.of_get fun other info hget => ?_
  rw [get_sweep] at hget
  by_cases hfd : other = fd
  · rw [if_pos hfd] at hget
    right
    simpa using (Option.filter_eq_some_iff.mp hget).2
  · rw [if_neg hfd] at hget
    exact .inl hget

theorem tidy_complete (h : tracked.Tidy) : (tracked.complete kind fd).Tidy := by
  refine h.of_get fun other info hget => ?_
  rw [get_complete] at hget
  by_cases hfd : other = fd
  · rw [if_pos hfd] at hget
    right
    simpa using (Option.filter_eq_some_iff.mp hget).2
  · rw [if_neg hfd] at hget
    exact .inl hget

end Tracked

end CloudLabs.TcpServer
