import CloudLabs.Interaction.Transition

namespace CloudLabs.TcpServer

-- Where a worker thread stands: at the condition of the loop of init_worker, in
-- fetch_task before it has the mutex, under the mutex with nothing to do, asleep
-- on the condition variable, inside a task, or out of the loop.
inductive Worker (Task : Type) where
  | deciding
  | looking
  | waiting
  | asleep
  | running (task : Task)
  | exited
  deriving DecidableEq

namespace Worker

variable {Task : Type}

def isLive : Worker Task → Bool
  | exited => false
  | _ => true

-- It has found the queue empty and looks at it again when it is notified.
def isResting : Worker Task → Bool
  | waiting | asleep => true
  | _ => false

def isWaiting : Worker Task → Bool
  | waiting => true
  | _ => false

def wake : Worker Task → Worker Task
  | asleep => looking
  | worker => worker

end Worker

-- Where the thread that calls set_thread_num stands: outside, after the store, or
-- in the loop that starts workers.
inductive Resize where
  | idle
  | compare
  | grow
  deriving DecidableEq

structure ThreadPool (Task : Type) where
  workers : List (Worker Task)
  stop : Bool
  threadNum : Nat
  tasks : List Task
  resize : Resize
  deriving DecidableEq

namespace ThreadPool

variable {Task : Type}

def create (threadNum : Nat) : ThreadPool Task :=
  ⟨List.replicate threadNum .deciding, false, threadNum, [], .idle⟩

-- A worker that has left is still in workers_.
def shouldStop (pool : ThreadPool Task) : Bool :=
  pool.stop || decide (pool.threadNum < pool.workers.length)

def setWorker (pool : ThreadPool Task) (i : Nat) (worker : Worker Task) : ThreadPool Task :=
  { pool with workers := pool.workers.set i worker }

def notifyAll (pool : ThreadPool Task) : ThreadPool Task :=
  { pool with workers := pool.workers.map Worker.wake }

-- A worker keeps tasks_mutex from where it finds nothing until it sleeps.
def isLocked (pool : ThreadPool Task) : Bool := pool.workers.any Worker.isWaiting

def addTask (pool : ThreadPool Task) (task : Task) : Option (ThreadPool Task) :=
  if pool.isLocked then none
  else some { pool with tasks := pool.tasks ++ [task] }.notifyAll

-- The locked part of fetch_task, where the predicate of the wait and the condition
-- after it see the same sizes.
def fetchTask (pool : ThreadPool Task) (i : Nat) : ThreadPool Task :=
  if pool.shouldStop then pool.setWorker i .deciding
  else
    match pool.tasks with
    | [] => pool.setWorker i .waiting
    | task :: tasks => { pool.setWorker i (.running task) with tasks := tasks }

-- The store of set_thread_num.
def setThreadNum (pool : ThreadPool Task) (num : Nat) : Option (ThreadPool Task) :=
  if pool.resize = .idle then some { pool with threadNum := num, resize := .compare } else none

-- What set_thread_num does after the store.
def stepResize (pool : ThreadPool Task) : Option (ThreadPool Task) :=
  match pool.resize with
  | .idle => none
  | .compare =>
      if pool.workers.length < pool.threadNum then some { pool with resize := .grow }
      else some { pool with resize := .idle }.notifyAll
  | .grow =>
      if pool.workers.length < pool.threadNum then
        some { pool with workers := pool.workers ++ [.deciding] }
      else some { pool with resize := .idle }

def stepWorker (pool : ThreadPool Task) (i : Nat) : Option (ThreadPool Task) :=
  match pool.workers[i]? with
  | some .deciding => some (pool.setWorker i (if pool.shouldStop then .exited else .looking))
  | some .looking => if pool.isLocked then none else some (pool.fetchTask i)
  | some .waiting => some (pool.setWorker i .asleep)
  | some (.running _) => some (pool.setWorker i .deciding)
  | _ => none

inductive Move (Task : Type) where
  | setThreadNum (num : Nat)
  | resize
  | addTask (task : Task)
  | worker (i : Nat)
  | spurious (i : Nat)

def step (pool : ThreadPool Task) : Move Task → Option (ThreadPool Task)
  | .setThreadNum num => pool.setThreadNum num
  | .resize => pool.stepResize
  | .addTask task => pool.addTask task
  | .worker i => pool.stepWorker i
  | .spurious i =>
      match pool.workers[i]? with
      | some .asleep => some (pool.setWorker i .looking)
      | _ => none

-- The workers in their loop.
def live (pool : ThreadPool Task) : List (Worker Task) := pool.workers.filter Worker.isLive

end ThreadPool

end CloudLabs.TcpServer
