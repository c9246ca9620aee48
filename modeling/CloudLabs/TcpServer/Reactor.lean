import Mathlib.Data.List.AList

namespace CloudLabs.TcpServer

abbrev Fd := Int

-- What a callback of a descriptor waits for.
inductive Kind where
  | rd
  | wr
  deriving DecidableEq

-- The rd and wr fields of reactor::fd_info are functions of the kind.
structure FdInfo (Callback : Type) where
  markedUntrack : Bool
  isExecuting : Kind → Bool
  callback : Kind → Option Callback

-- What tracked_fds_[fd] makes of a descriptor that is not there.
def FdInfo.new {Callback : Type} : FdInfo Callback := ⟨false, fun _ => false, fun _ => none⟩

-- tracked_fds_
abbrev Tracked (Callback : Type) := AList fun _ : Fd => FdInfo Callback

-- A callback that was handed to the callback workers.
structure CallbackTask (Callback : Type) where
  kind : Kind
  fd : Fd
  callback : Callback
  deriving DecidableEq

namespace FdInfo

variable {Callback : Type} (info : FdInfo Callback)

def setCallback (kind : Kind) (callback : Option Callback) : FdInfo Callback :=
  { info with callback := fun other => if other = kind then callback else info.callback other }

def setExecuting (kind : Kind) (executing : Bool) : FdInfo Callback :=
  { info with isExecuting := fun other => if other = kind then executing else info.isExecuting other }

def isBusy : Bool := info.isExecuting .rd || info.isExecuting .wr

-- What init_select_fds polls for.
def wants (kind : Kind) : Bool := (info.callback kind).isSome && !info.isExecuting kind

end FdInfo

namespace Tracked

variable {Callback : Type} (tracked : Tracked Callback)

def get (fd : Fd) : Option (FdInfo Callback) := AList.lookup fd tracked

def registerFd (fd : Fd) (callback : Kind → Option Callback) : Tracked Callback :=
  let info := (tracked.get fd).getD .new
  tracked.insert fd { info with callback := callback, markedUntrack := false }

-- set_rd_callback and set_wr_callback.
def setCallback (kind : Kind) (fd : Fd) (callback : Option Callback) : Tracked Callback :=
  let info := (tracked.get fd).getD .new
  tracked.insert fd (info.setCallback kind callback)

def unregister (fd : Fd) : Tracked Callback :=
  match tracked.get fd with
  | none => tracked
  | some info =>
      if info.isBusy then tracked.insert fd { info with markedUntrack := true }
      else tracked.erase fd

-- polled_fds_ apart from the notifier.
def polledFds : List Fd :=
  (tracked.entries.filter fun entry =>
    entry.2.wants .rd || entry.2.wants .wr || entry.2.markedUntrack).map Sigma.fst

-- rd_set_ and wr_set_ apart from the notifier.
def selectFds (kind : Kind) : List Fd := (tracked.entries.filter fun entry => entry.2.wants kind).map Sigma.fst

-- dispatch_read and dispatch_write, with the task that they add.
def dispatch (kind : Kind) (fd : Fd) : Tracked Callback × Option (CallbackTask Callback) :=
  match tracked.get fd with
  | none => (tracked, none)
  | some info => (tracked.insert fd (info.setExecuting kind true),
      (info.callback kind).map fun callback => ⟨kind, fd, callback⟩)

-- The end of a round of dispatch_select: an entry that is marked and has no
-- callback running is erased.
def sweep (fd : Fd) : Tracked Callback :=
  match tracked.get fd with
  | none => tracked
  | some info => if info.markedUntrack && !info.isBusy then tracked.erase fd else tracked

-- What the tasks of dispatch_read and dispatch_write do after the callback.
def complete (kind : Kind) (fd : Fd) : Tracked Callback :=
  match tracked.get fd with
  | none => tracked
  | some info => sweep (tracked.insert fd (info.setExecuting kind false)) fd

end Tracked

-- A state with a reactor in it, and with the tasks that were handed to its callback workers.
class Dispatches (σ : Type) (Callback : outParam Type) where
  tracked : σ → Tracked Callback
  setTracked : σ → Tracked Callback → σ
  addTask : σ → CallbackTask Callback → σ

section Select

open Dispatches

variable {σ Callback : Type} [Dispatches σ Callback]

-- One kind in the loop of dispatch_select.
def dispatchKind (ready : Kind → List Fd) (s : σ) (fd : Fd) (kind : Kind) : σ :=
  match (tracked s).get fd with
  | none => s
  | some info =>
      if fd ∈ ready kind ∧ info.wants kind then
        match (tracked s).dispatch kind fd with
        | (after, none) => setTracked s after
        | (after, some task) => addTask (setTracked s after) task
      else s

def sweepFd (s : σ) (fd : Fd) : σ := setTracked s ((tracked s).sweep fd)

def dispatchSelect (ready : Kind → List Fd) : List Fd → σ → σ
  | [], s => s
  | fd :: fds, s =>
      dispatchSelect ready fds (sweepFd (dispatchKind ready (dispatchKind ready s fd .rd) fd .wr) fd)

end Select

end CloudLabs.TcpServer
