import CloudLabs.TcpServer.Reactor

namespace CloudLabs.TcpServer

variable {Callback : Type}

namespace FdInfo

variable (info : FdInfo Callback)

def mark : FdInfo Callback := { info with markedUntrack := true }

-- An entry that nothing keeps any longer.
def isLeft : Bool := info.markedUntrack && !info.isBusy

theorem isBusy_of_isExecuting {kind : Kind} (h : info.isExecuting kind = true) : info.isBusy = true := by
  unfold isBusy
  cases kind <;> simp [h]

theorem isExecuting_of_isBusy (h : info.isBusy = false) (kind : Kind) : info.isExecuting kind = false := by
  unfold isBusy at h
  rw [Bool.or_eq_false_iff] at h
  cases kind with
  | rd => exact h.1
  | wr => exact h.2

@[simp] theorem setExecuting_isExecuting (kind : Kind) (executing : Bool) :
    (info.setExecuting kind executing).isExecuting kind = executing := if_pos rfl

theorem setExecuting_isExecuting_ne {kind other : Kind} (h : other ≠ kind) (executing : Bool) :
    (info.setExecuting kind executing).isExecuting other = info.isExecuting other := if_neg h

@[simp] theorem setExecuting_callback (kind : Kind) (executing : Bool) :
    (info.setExecuting kind executing).callback = info.callback := rfl

@[simp] theorem setExecuting_markedUntrack (kind : Kind) (executing : Bool) :
    (info.setExecuting kind executing).markedUntrack = info.markedUntrack := rfl

@[simp] theorem setCallback_callback (kind : Kind) (callback : Option Callback) :
    (info.setCallback kind callback).callback kind = callback := if_pos rfl

theorem setCallback_callback_ne {kind other : Kind} (h : other ≠ kind) (callback : Option Callback) :
    (info.setCallback kind callback).callback other = info.callback other := if_neg h

@[simp] theorem setCallback_isExecuting (kind : Kind) (callback : Option Callback) :
    (info.setCallback kind callback).isExecuting = info.isExecuting := rfl

@[simp] theorem setCallback_markedUntrack (kind : Kind) (callback : Option Callback) :
    (info.setCallback kind callback).markedUntrack = info.markedUntrack := rfl

end FdInfo

namespace Tracked

variable (tracked : Tracked Callback) (fd other : Fd)

theorem get_insert (info : FdInfo Callback) :
    get (tracked.insert fd info) other = if other = fd then some info else tracked.get other := by
  unfold get
  by_cases h : other = fd
  · rw [if_pos h, h, AList.lookup_insert]
  · rw [if_neg h, AList.lookup_insert_ne h]

theorem get_erase : get (tracked.erase fd) other = if other = fd then none else tracked.get other := by
  unfold get
  by_cases h : other = fd
  · rw [if_pos h, h, AList.lookup_erase]
  · rw [if_neg h, AList.lookup_erase_ne h]

theorem get_setCallback (kind : Kind) (callback : Option Callback) :
    (tracked.setCallback kind fd callback).get other =
      if other = fd then some (((tracked.get fd).getD .new).setCallback kind callback)
      else tracked.get other :=
  get_insert tracked fd other _

theorem get_dispatch (kind : Kind) :
    (tracked.dispatch kind fd).1.get other =
      if other = fd then (tracked.get fd).map fun info => info.setExecuting kind true
      else tracked.get other := by
  unfold dispatch
  cases hfd : tracked.get fd with
  | none =>
      by_cases h : other = fd
      · rw [if_pos h, h, hfd]
        rfl
      · rw [if_neg h]
  | some info => exact get_insert tracked fd other _

theorem get_sweep :
    (tracked.sweep fd).get other =
      if other = fd then (tracked.get fd).filter fun info => !info.isLeft else tracked.get other := by
  unfold sweep
  by_cases h : other = fd
  · subst h
    cases hfd : tracked.get other with
    | none => simp [hfd]
    | some info =>
        by_cases hleft : info.isLeft
        · have hcond : (info.markedUntrack && !info.isBusy) = true := hleft
          simp [hcond, hleft, get_erase, Option.filter_some]
        · have hcond : (info.markedUntrack && !info.isBusy) = false := by simpa [FdInfo.isLeft] using hleft
          simp [hcond, hleft, hfd, Option.filter_some]
  · rw [if_neg h]
    cases tracked.get fd with
    | none => rfl
    | some info =>
        by_cases hcond : (info.markedUntrack && !info.isBusy) = true
        · simp [hcond, get_erase, h]
        · simp [hcond]

theorem get_unregister :
    (tracked.unregister fd).get other =
      if other = fd then ((tracked.get fd).filter FdInfo.isBusy).map FdInfo.mark
      else tracked.get other := by
  unfold unregister
  cases hfd : tracked.get fd with
  | none =>
      by_cases h : other = fd
      · simp [h, hfd]
      · simp [h]
  | some info =>
      by_cases hbusy : info.isBusy
      · simp [hbusy, get_insert, FdInfo.mark, Option.filter_some]
      · simp [hbusy, get_erase, Option.filter_some]

theorem get_complete (kind : Kind) :
    (tracked.complete kind fd).get other =
      if other = fd then
        ((tracked.get fd).map fun info => info.setExecuting kind false).filter fun info => !info.isLeft
      else tracked.get other := by
  unfold complete
  cases hfd : tracked.get fd with
  | none =>
      by_cases h : other = fd
      · simp [h, hfd]
      · simp [h]
  | some info =>
      by_cases h : other = fd
      · simp [h, get_sweep, get_insert]
      · simp [h, get_sweep, get_insert]

-- Everything that is wanted is in the sets of select.
theorem mem_selectFds {kind : Kind} {info : FdInfo Callback} (h : tracked.get fd = some info)
    (hwants : info.wants kind = true) : fd ∈ tracked.selectFds kind := by
  unfold selectFds
  refine List.mem_map.mpr ⟨⟨fd, info⟩, List.mem_filter.mpr ⟨?_, hwants⟩, rfl⟩
  exact AList.mem_lookup_iff.mp h

end Tracked

section Select

open Dispatches

variable {σ Callback : Type} [Dispatches σ Callback]

theorem dispatchKind_of_wants {ready : Kind → List Fd} {fd : Fd} {kind : Kind} {s : σ} {info : FdInfo Callback}
    {callback : Callback} (hget : (tracked s).get fd = some info) (hready : fd ∈ ready kind)
    (hwants : info.wants kind = true) (hcallback : info.callback kind = some callback) :
    dispatchKind ready s fd kind = addTask (setTracked s ((tracked s).dispatch kind fd).1) ⟨kind, fd, callback⟩ := by
  unfold dispatchKind
  simp only [hget, if_pos (And.intro hready hwants), Tracked.dispatch, hcallback, Option.map_some]

-- What one kind in the loop of dispatch_select does.
theorem dispatchKind_eq (ready : Kind → List Fd) (fd : Fd) (kind : Kind) (s : σ) :
    dispatchKind ready s fd kind = s ∨
      ∃ info callback, (tracked s).get fd = some info ∧ info.callback kind = some callback ∧
        info.isExecuting kind = false ∧
        dispatchKind ready s fd kind = addTask (setTracked s ((tracked s).dispatch kind fd).1) ⟨kind, fd, callback⟩ := by
  cases hget : (tracked s).get fd with
  | none =>
      left
      simp only [dispatchKind, hget]
  | some info =>
      by_cases hwants : fd ∈ ready kind ∧ info.wants kind
      · have hwanted := hwants.2
        unfold FdInfo.wants at hwanted
        rw [Bool.and_eq_true, Option.isSome_iff_exists, Bool.not_eq_true'] at hwanted
        obtain ⟨⟨callback, hcallback⟩, hidle⟩ := hwanted
        exact .inr ⟨info, callback, rfl, hcallback, hidle, dispatchKind_of_wants hget hwants.1 hwants.2 hcallback⟩
      · left
        simp only [dispatchKind, hget, if_neg hwants]

-- What one kind of one descriptor, and the end of a round, keep, dispatch_select keeps.
theorem dispatchSelect_keeps {P : σ → Prop} {ready : Kind → List Fd}
    (hdispatch : ∀ s fd kind, P s → P (dispatchKind ready s fd kind)) (hsweep : ∀ s fd, P s → P (sweepFd s fd))
    (fds : List Fd) (s : σ) (h : P s) : P (dispatchSelect ready fds s) := by
  induction fds generalizing s with
  | nil => exact h
  | cons fd fds ih => exact ih _ (hsweep _ fd (hdispatch _ fd .wr (hdispatch s fd .rd h)))

end Select

end CloudLabs.TcpServer
