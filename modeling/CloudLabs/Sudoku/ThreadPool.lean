import CloudLabs.Interaction.Transition

namespace CloudLabs.Sudoku

-- Where a worker thread stands: about to look at the queue under the mutex,
-- asleep on the condition variable, inside a task, or gone.
inductive Worker (Task : Type) where
  | looking
  | asleep
  | running (task : Task)
  | exited
  deriving DecidableEq

structure ThreadPool (Task : Type) where
  done : Bool
  workers : List (Worker Task)
  tasks : List Task
  deriving DecidableEq

namespace Worker

variable {Task : Type}

def isAsleep : Worker Task → Bool
  | asleep => true
  | _ => false

def task? : Worker Task → Option Task
  | running task => some task
  | _ => none

-- A notification that reaches the worker, or a wakeup without one.
def wake : Worker Task → Worker Task
  | asleep => looking
  | worker => worker

end Worker

namespace ThreadPool

variable {Task : Type}

def create (size : Nat) : ThreadPool Task := ⟨false, List.replicate size .looking, []⟩

-- The locked part of `add_task`, which throws once the pool is stopped.
def addTask (pool : ThreadPool Task) (task : Task) : Except String (ThreadPool Task) :=
  if pool.done then .error "added task to stopped pool"
  else .ok { pool with tasks := pool.tasks ++ [task] }

def setWorker (pool : ThreadPool Task) (i : Nat) (worker : Worker Task) : ThreadPool Task :=
  { pool with workers := pool.workers.set i worker }

-- The thread that a notification wakes is any one of those that are asleep.
def notifyOne (pool : ThreadPool Task) (i : Nat) : Option (ThreadPool Task) :=
  if pool.workers.any Worker.isAsleep then
    match pool.workers[i]? with
    | some .asleep => some (pool.setWorker i .looking)
    | _ => none
  else some pool

def notifyAll (pool : ThreadPool Task) : ThreadPool Task :=
  { pool with workers := pool.workers.map Worker.wake }

-- A worker under the mutex: it waits while there is nothing to do, leaves when
-- `done` is set, and otherwise pulls the first task.
def fetch (pool : ThreadPool Task) (i : Nat) : ThreadPool Task :=
  if pool.tasks.isEmpty && !pool.done then pool.setWorker i .asleep
  else if pool.done then pool.setWorker i .exited
  else match pool.tasks with
    | [] => pool
    | task :: tasks => { pool.setWorker i (.running task) with tasks := tasks }

end ThreadPool

-- Where the main thread stands: in the loop that flushes the results, in
-- `process_file_by_line` with the lines still to be read, inside `add_task` after
-- its locked part, in the last flush, or in the destructor of the pool.
inductive Control (Job : Type) where
  | flush (pending : List Nat)
  | readLines (lines : List Job)
  | notify (future : Nat) (lines : List Job)
  | lastFlush (pending : List Nat)
  | stop
  | wakeAll
  | join (i : Nat)
  | finished
  | terminated

-- The future of the i-th task is the number i. `ran` has the tasks in the order
-- in which they were run.
structure Process (Filename Job Result : Type) where
  control : Control Job
  filenames : List Filename
  res : List Nat
  pool : ThreadPool (Nat × Job)
  added : Nat
  futures : Nat → Option Result
  ran : List Nat
  output : List Result

inductive Move where
  | main (choice : Nat)
  | worker (i : Nat)
  | spurious (i : Nat)
  deriving DecidableEq

namespace Process

variable {Filename Job Result : Type}

def start (size : Nat) (filenames : List Filename) : Process Filename Job Result :=
  ⟨.flush [], filenames, [], .create size, 0, fun _ => none, [], []⟩

-- `f.get()` and the line that is printed.
def get (process : Process Filename Job Result) (id : Nat) (next : Control Job) :
    Option (Process Filename Job Result) :=
  (process.futures id).map fun result =>
    { process with control := next, output := process.output ++ [result] }

variable (directory : Filename → Option (List Job)) (solve : Job → Result)

-- `choice` says which worker a notification wakes.
def stepMain (process : Process Filename Job Result) (choice : Nat) :
    Option (Process Filename Job Result) :=
  match process.control with
  | .flush (id :: pending) => process.get id (.flush pending)
  | .flush [] =>
      match process.filenames with
      | [] => some { process with control := .lastFlush [], res := [] }
      | filename :: filenames =>
          match directory filename with
          | none => some { process with control := .terminated, res := [], filenames := filenames }
          | some lines =>
              some { process with control := .readLines lines, res := [], filenames := filenames }
  | .readLines [] => some { process with control := .flush process.res }
  | .readLines (line :: lines) =>
      match process.pool.addTask (process.added, line) with
      | .error _ => some { process with control := .terminated }
      | .ok pool => some { process with
          control := .notify process.added lines, pool := pool, added := process.added + 1 }
  | .notify future lines =>
      (process.pool.notifyOne choice).map fun pool => { process with
        control := .readLines lines, pool := pool, res := process.res ++ [future] }
  | .lastFlush (id :: pending) => process.get id (.lastFlush pending)
  | .lastFlush [] => some { process with control := .stop, res := [] }
  | .stop => some { process with control := .wakeAll, pool := { process.pool with done := true } }
  | .wakeAll => some { process with control := .join 0, pool := process.pool.notifyAll }
  | .join i =>
      match process.pool.workers[i]? with
      | none => some { process with control := .finished }
      | some .exited => some { process with control := .join (i + 1) }
      | some _ => none
  | .finished => none
  | .terminated => none

def stepWorker (process : Process Filename Job Result) (i : Nat) :
    Option (Process Filename Job Result) :=
  match process.pool.workers[i]? with
  | some .looking => some { process with pool := process.pool.fetch i }
  | some (.running (id, job)) => some { process with
      pool := process.pool.setWorker i .looking
      futures := fun other => if other = id then some (solve job) else process.futures other
      ran := process.ran ++ [id] }
  | _ => none

def step (process : Process Filename Job Result) : Move → Option (Process Filename Job Result)
  | .main choice => process.stepMain directory choice
  | .worker i => process.stepWorker solve i
  | .spurious i =>
      match process.pool.workers[i]? with
      | some .asleep => some { process with pool := process.pool.setWorker i .looking }
      | _ => none

end Process

end CloudLabs.Sudoku
