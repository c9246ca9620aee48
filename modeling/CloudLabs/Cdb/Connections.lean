import CloudLabs.Cdb.Coordinator.Requests
import CloudLabs.Cdb.Participant
import CloudLabs.Interaction.Transition
import CloudLabs.TcpServer.Reactor

namespace CloudLabs.Cdb.Connections

open TcpServer

-- What is bound to a descriptor: on_read_available of the server, or the
-- on_read_available and on_write_available of a client.
inductive Callback where
  | accept
  | client (c : Nat)
  deriving DecidableEq

-- `disconnects` says that the callback of the request is the one of send_error,
-- and `number` for which of the client's commands the reply is.
structure WriteRequest where
  data : Bytes
  disconnects : Bool
  number : Nat
  deriving DecidableEq

-- The argument of async_read, apart from its size and client, or of async_write.
inductive Request where
  | read (prevData : Option Bytes)
  | write (request : WriteRequest)
  deriving DecidableEq

def Request.kind : Request → Kind
  | .read _ => .rd
  | .write _ => .wr

-- A tcp_client, with what it received, the commands that were dispatched, the
-- replies that were queued and what was handed to the socket.
structure Client where
  fd : Fd
  isConnected : Bool
  readRequests : List (Option Bytes)
  writeRequests : List WriteRequest
  received : List Bytes
  commands : List Command
  replies : List (Nat × Bytes)
  sent : List Bytes

def Client.accepted (fd : Fd) : Client := ⟨fd, true, [], [], [], [], [], []⟩

def Client.none : Client := ⟨-1, false, [], [], [], [], [], []⟩

def Client.hasRequests (client : Client) : Kind → Bool
  | .rd => client.readRequests ≠ []
  | .wr => client.writeRequests ≠ []

def Client.push (client : Client) : Request → Client
  | .read prevData => { client with readRequests := client.readRequests ++ [prevData] }
  | .write request => { client with
      writeRequests := client.writeRequests ++ [request]
      replies := client.replies ++ [(request.number, request.data)] }

def Client.clear (client : Client) : Kind → Client
  | .rd => { client with readRequests := [] }
  | .wr => { client with writeRequests := [] }

inductive ReadResult where
  | success (data : Bytes)
  | failure
  deriving DecidableEq

-- Where a thread stands under one of the two mutexes of a client: in do_read or
-- do_write, before the callback is set to null in them, or in async_read or
-- async_write before is_connected_ is read, before the callback is set, and
-- before the request is pushed.
inductive Held where
  | serve (kind : Kind) (c : Nat)
  | clearCallback (kind : Kind) (c : Nat)
  | submit (c : Nat) (request : Request)
  | setCallback (c : Nat) (request : Request)
  | push (c : Nat) (request : Request)
  deriving DecidableEq

def Held.mutex : Held → Kind × Nat
  | .serve kind c => (kind, c)
  | .clearCallback kind c => (kind, c)
  | .submit c request => (request.kind, c)
  | .setCallback c request => (request.kind, c)
  | .push c request => (request.kind, c)

-- What a thread does outside of the mutexes. `serve` and `submit` take the mutex
-- that do_read and do_write or async_read and async_write need; `dispatch` is the
-- loop of handle_db_requests from the given command on, `next` how it goes on
-- then, and `returned` its end.
inductive Action where
  | serve (kind : Kind) (c : Nat)
  | submit (c : Nat) (request : Request)
  | accept
  | onReadAvailable (c : Nat) (result : ReadResult) (cb : Option (Option Bytes))
  | onWriteAvailable (c : Nat) (success : Bool) (disconnects : Bool)
  | handleDbRequests (c : Nat) (prevData : Option Bytes) (result : ReadResult)
  | dispatch (c : Nat) (number : Nat) (cmds : List Command) (next : NextRead)
  | returned (c : Nat)
  | disconnect (c : Nat) (wait : Bool)
  | setDisconnected (c : Nat) (wait : Bool)
  | clearRequests (kind : Kind) (c : Nat)
  | unregister (c : Nat)
  | close (c : Nat)
  | waitOnRemoval (c : Nat)
  | complete

-- A task of the callback workers, or a call of disconnect by another thread.
inductive Role where
  | task (kind : Kind) (fd : Fd) (callback : Callback)
  | caller
  deriving DecidableEq

-- One thread's work, from its start to its end: what it does under a mutex, if it
-- holds one, and what it does then.
structure Job where
  role : Role
  held : Option Held
  todo : List Action

def Job.ended : Job := ⟨.caller, none, []⟩

-- What the call of a callback does.
def Callback.start (kind : Kind) : Callback → Action
  | .accept => .accept
  | .client c => .serve kind c

def Job.ofTask (task : CallbackTask Callback) : Job :=
  ⟨.task task.kind task.fd task.callback, none, [task.callback.start task.kind, .complete]⟩

-- What a step leaves open: what recv or accept returns, which replies the
-- handler of a command queues, and whether it throws. An accept that fails, after
-- which the server stops and disconnects everybody, is left out.
inductive Choice where
  | go
  | failed
  | received (data : Bytes)
  | accepted (fd : Fd)
  | reply (data : Bytes) (disconnects : Bool)
  | next
  | throws
  deriving DecidableEq

structure Shared where
  listener : Fd
  tracked : Tracked Callback
  notifications : Nat
  clients : Nat → Client
  accepted : Nat

namespace Shared

variable (s : Shared)

def setClient (c : Nat) (client : Client) : Shared :=
  { s with clients := fun other => if other = c then client else s.clients other }

-- reactor::set_rd_callback and reactor::set_wr_callback on the client's descriptor.
def setCallback (kind : Kind) (c : Nat) (callback : Option Callback) : Shared :=
  { s with
    tracked := s.tracked.setCallback kind (s.clients c).fd callback
    notifications := s.notifications + 1 }

-- The descriptors that accept can return.
def isFree (fd : Fd) : Bool :=
  0 ≤ fd && fd ≠ s.listener && (List.range s.accepted).all fun c => (s.clients c).fd ≠ fd

def accept (fd : Fd) : Shared :=
  { s.setClient s.accepted (.accepted fd) with accepted := s.accepted + 1 }

def unregister (c : Nat) : Shared :=
  match s.tracked.get (s.clients c).fd with
  | none => s
  | some _ => { s with
      tracked := s.tracked.unregister (s.clients c).fd
      notifications := s.notifications + 1 }

def complete (kind : Kind) (fd : Fd) : Shared :=
  match s.tracked.get fd with
  | none => s
  | some _ => { s with
      tracked := s.tracked.complete kind fd
      notifications := s.notifications + 1 }

end Shared

namespace Job

variable (job : Job)

-- The end of do_read and do_write: the callback is cleared if the request was
-- the last one, and the mutex is released.
def served (kind : Kind) (c : Nat) (last : Bool) (action : Action) : Job :=
  { job with
    held := if last then some (.clearCallback kind c) else none
    todo := action :: job.todo }

def doRead (s : Shared) (c : Nat) (choice : Choice) : Option (Shared × Job) :=
  let client := s.clients c
  match client.readRequests, choice with
  | [], .go => some (s, { job with
      held := none, todo := .onReadAvailable c (.success []) none :: job.todo })
  | [], .failed => some (s, { job with
      held := none, todo := .onReadAvailable c .failure none :: job.todo })
  | cb :: requests, .received data =>
      if data ≠ [] ∧ data.length ≤ 1024 then
        some (s.setClient c { client with
            readRequests := requests, received := client.received ++ [data] },
          job.served .rd c requests.isEmpty (.onReadAvailable c (.success data) (some cb)))
      else none
  | cb :: requests, .failed =>
      some (s.setClient c { client with readRequests := requests },
        job.served .rd c requests.isEmpty (.onReadAvailable c .failure (some cb)))
  | _, _ => none

def doWrite (s : Shared) (c : Nat) (choice : Choice) : Option (Shared × Job) :=
  let client := s.clients c
  match client.writeRequests, choice with
  | [], .go => some (s, { job with held := none, todo := .onWriteAvailable c true false :: job.todo })
  | [], .failed => some (s, { job with
      held := none, todo := .onWriteAvailable c false false :: job.todo })
  | request :: requests, .go =>
      some (s.setClient c { client with
          writeRequests := requests, sent := client.sent ++ [request.data] },
        job.served .wr c requests.isEmpty (.onWriteAvailable c true request.disconnects))
  | request :: requests, .failed =>
      some (s.setClient c { client with
          writeRequests := requests, sent := client.sent ++ [request.data] },
        job.served .wr c requests.isEmpty (.onWriteAvailable c false request.disconnects))
  | _, _ => none

-- What async_read and async_write throw is caught by their callers: send_result
-- disconnects then.
def notConnected (c : Nat) : Request → List Action
  | .read _ => []
  | .write _ => [.disconnect c false]

def stepHeld (s : Shared) (choice : Choice) : Held → Option (Shared × Job)
  | .serve .rd c => job.doRead s c choice
  | .serve .wr c => job.doWrite s c choice
  | .clearCallback kind c => some (s.setCallback kind c none, { job with held := none })
  | .submit c request =>
      if (s.clients c).isConnected then some (s, { job with held := some (.setCallback c request) })
      else some (s, { job with held := none, todo := notConnected c request ++ job.todo })
  | .setCallback c request =>
      some (s.setCallback request.kind c (some (.client c)), { job with held := some (.push c request) })
  | .push c request =>
      some (s.setClient c ((s.clients c).push request), { job with held := none })

-- The calls of on_read_available and on_write_available behind do_read and do_write.
def afterRead (c : Nat) (result : ReadResult) (cb : Option (Option Bytes)) : List Action :=
  (match result with
    | .failure => [.disconnect c false]
    | .success _ => []) ++
  (match cb with
    | some prevData => [.handleDbRequests c prevData result]
    | none => [])

def afterWrite (c : Nat) (success disconnects : Bool) : List Action :=
  (if success then [] else [.disconnect c false]) ++ (if disconnects then [.disconnect c false] else [])

-- The end of handle_db_requests: it reads again, or it sends the error.
def afterDispatch (number : Nat) : NextRead → Request
  | .read prevData => .read prevData
  | .closed => .write ⟨errorString, true, number⟩

-- `busy` says which mutexes are held.
def stepAction (s : Shared) (busy : Kind × Nat → Bool) (choice : Choice) (rest : List Action) :
    Action → Option (Shared × Job)
  | .serve kind c =>
      if busy (kind, c) then none
      else some (s, { job with held := some (.serve kind c), todo := rest })
  | .submit c request =>
      if busy (request.kind, c) then none
      else some (s, { job with held := some (.submit c request), todo := rest })
  | .accept =>
      match choice with
      | .accepted fd =>
          if s.isFree fd then
            some (s.accept fd, { job with todo := .submit s.accepted (.read none) :: rest })
          else none
      | _ => none
  | .onReadAvailable c result cb => some (s, { job with todo := afterRead c result cb ++ rest })
  | .onWriteAvailable c success disconnects =>
      some (s, { job with todo := afterWrite c success disconnects ++ rest })
  | .handleDbRequests c _ .failure =>
      some (s, { job with todo := .disconnect c false :: .returned c :: rest })
  | .handleDbRequests c prevData (.success data) =>
      let client := s.clients c
      let (cmds, next) := handleDbRequests prevData data
      some (s.setClient c { client with commands := client.commands ++ cmds },
        { job with todo := .dispatch c client.commands.length cmds next :: .returned c :: rest })
  | .dispatch c number [] next =>
      some (s, { job with todo := .submit c (afterDispatch number next) :: rest })
  | .dispatch c number (cmd :: cmds) next =>
      match choice with
      | .reply data disconnects => some (s, { job with
          todo := .submit c (.write ⟨data, disconnects, number⟩) ::
            .dispatch c number (cmd :: cmds) next :: rest })
      | .next => some (s, { job with todo := .dispatch c (number + 1) cmds next :: rest })
      | .throws => some (s, { job with todo := [] })
      | _ => none
  | .returned _ => some (s, { job with todo := rest })
  | .disconnect c wait =>
      if (s.clients c).isConnected then some (s, { job with todo := .setDisconnected c wait :: rest })
      else some (s, { job with todo := rest })
  | .setDisconnected c wait =>
      some (s.setClient c { s.clients c with isConnected := false },
        { job with todo := .clearRequests .rd c :: .clearRequests .wr c :: .unregister c :: .close c ::
          ((if wait then [.waitOnRemoval c] else []) ++ rest) })
  | .clearRequests kind c =>
      if busy (kind, c) then none
      else some (s.setClient c ((s.clients c).clear kind), { job with todo := rest })
  | .unregister c => some (s.unregister c, { job with todo := rest })
  | .close c => some (s.setClient c { s.clients c with fd := -1 }, { job with todo := rest })
  | .waitOnRemoval c =>
      if s.tracked.get (s.clients c).fd = none then some (s, { job with todo := rest }) else none
  | .complete =>
      match job.role with
      | .task kind fd _ => some (s.complete kind fd, { job with todo := [] })
      | .caller => some (s, { job with todo := [] })

def step (s : Shared) (busy : Kind × Nat → Bool) (choice : Choice) : Option (Shared × Job) :=
  match job.held with
  | some held => job.stepHeld s choice held
  | none =>
      match job.todo with
      | [] => none
      | action :: rest => job.stepAction s busy choice rest action

end Job

-- Where the poll thread stands: before init_select_fds, in select, or before
-- dispatch_select.
inductive Poll where
  | idle
  | selecting (polled : List Fd) (sets : Kind → List Fd)
  | selected (polled : List Fd) (ready : Kind → List Fd) (notifier : Bool)

structure System extends Shared where
  poll : Poll
  jobs : Nat → Job
  spawned : Nat

-- What select returns: the descriptors that are ready, and whether the notifier
-- is; `none` stands for an error.
structure Ready where
  fds : Kind → List Fd
  notifier : Bool

inductive Move where
  | poll (ready : Option Ready)
  | advance (i : Nat) (choice : Choice)
  | disconnect (c : Nat) (wait : Bool)

namespace System

variable (s : System)

def setJob (i : Nat) (job : Job) : System :=
  { s with jobs := fun other => if other = i then job else s.jobs other }

def spawn (job : Job) : System :=
  { s.setJob s.spawned job with spawned := s.spawned + 1 }

instance : Dispatches System Callback where
  tracked s := s.tracked
  setTracked s tracked := { s with tracked := tracked }
  addTask s task := s.spawn (.ofTask task)

@[simp] theorem sweepFd_tracked (fd : Fd) : (sweepFd s fd).tracked = s.tracked.sweep fd := rfl

-- Some thread holds the mutex.
def busy (mutex : Kind × Nat) : Bool :=
  (List.range s.spawned).any fun i => (s.jobs i).held.map Held.mutex = some mutex

def stepPoll (ready : Option Ready) : System :=
  match s.poll with
  | .idle => { s with poll := .selecting s.tracked.polledFds s.tracked.selectFds }
  | .selecting polled sets =>
      match ready with
      | none => { s with poll := .idle }
      | some ready => { s with
          poll := .selected polled (fun kind => (sets kind).filter (· ∈ ready.fds kind))
            (ready.notifier && 0 < s.notifications) }
  | .selected polled ready notifier =>
      -- clear_pipe reads at most 256 bytes
      dispatchSelect ready polled { s with
        notifications := if notifier then s.notifications - 256 else s.notifications
        poll := .idle }

def step : Move → Option System
  | .poll ready => some (s.stepPoll ready)
  | .advance i choice =>
      ((s.jobs i).step s.toShared s.busy choice).map fun next =>
        { s.setJob i next.2 with toShared := next.1 }
  | .disconnect c wait =>
      if c < s.accepted then some (s.spawn ⟨.caller, none, [.disconnect c wait]⟩) else none

-- The server listens and has no clients.
def start (listener : Fd) : System where
  listener := listener
  tracked := Tracked.registerFd ∅ listener fun kind => if kind = .rd then some .accept else none
  notifications := 1
  clients := fun _ => .none
  accepted := 0
  poll := .idle
  jobs := fun _ => .ended
  spawned := 0

end System

end CloudLabs.Cdb.Connections
