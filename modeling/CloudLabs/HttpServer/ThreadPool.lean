import CloudLabs.HttpServer.Server
import CloudLabs.Interaction.Transition

namespace CloudLabs.HttpServer

-- Where a worker thread stands: about to look at the queue under the mutex, asleep
-- on the condition variable, inside serve_client, or out of its loop.
inductive Worker where
  | looking
  | asleep
  | serving (client : Client)
  | exited

namespace Worker

def isLooking : Worker → Bool
  | looking => true
  | _ => false

def isAsleep : Worker → Bool
  | asleep => true
  | _ => false

def client? : Worker → Option Client
  | serving client => some client
  | _ => none

end Worker

-- `taken` has the clients that the workers have pulled, in this order.
structure ThreadPool where
  workers : List Worker
  clientSocks : List Client
  done : Bool
  taken : List Client

namespace ThreadPool

def create (size : Nat) : ThreadPool := ⟨List.replicate size .looking, [], false, []⟩

def setWorker (pool : ThreadPool) (i : Nat) (worker : Worker) : ThreadPool :=
  { pool with workers := pool.workers.set i worker }

-- The thread that a notification wakes is any one of those that are asleep.
def notifyOne (pool : ThreadPool) (i : Nat) : Option ThreadPool :=
  if pool.workers.any Worker.isAsleep then
    match pool.workers[i]? with
    | some .asleep => some (pool.setWorker i .looking)
    | _ => none
  else some pool

def addClient (pool : ThreadPool) (client : Client) (i : Nat) : Option ThreadPool :=
  { pool with clientSocks := pool.clientSocks ++ [client] }.notifyOne i

-- The locked part of a worker's round. The wait lets go of the mutex as the worker
-- falls asleep.
def look (pool : ThreadPool) (i : Nat) : Option ThreadPool :=
  match pool.workers[i]? with
  | some .looking =>
      match pool.done, pool.clientSocks with
      | true, _ => some (pool.setWorker i .exited)
      | false, [] => some (pool.setWorker i .asleep)
      | false, client :: clientSocks =>
          some { pool.setWorker i (.serving client) with
            clientSocks := clientSocks
            taken := pool.taken ++ [client] }
  | _ => none

-- A wakeup without a notification.
def rouse (pool : ThreadPool) (i : Nat) : Option ThreadPool :=
  match pool.workers[i]? with
  | some .asleep => some (pool.setWorker i .looking)
  | _ => none

-- What a call of serve_client comes to within so many rounds of its header loop.
def serve (host : Host) (pool : ThreadPool) (i rounds : Nat) (fresh : Nat → UInt8) :
    Option (Client × Served) :=
  match pool.workers[i]? with
  | some (.serving client) => (serveToEnd host fresh rounds client).map fun served => (client, served)
  | _ => none

end ThreadPool

-- How the process goes down: accept has failed, a worker has thrown, or one has sent to
-- a connection that its peer had reset.
inductive Ending where
  | aborted
  | terminated (fault : Fault)
  | signalled
  deriving DecidableEq

-- The thread in Server::start and the workers. `coming` has the clients that are
-- still to connect.
structure Server where
  pool : ThreadPool
  coming : List Client
  answered : List (Client × Outcome)
  ending : Option Ending

inductive Move where
  | accept (woken : Nat)
  | fail
  | look (i : Nat)
  | serve (i rounds : Nat) (fresh : Nat → UInt8)
  | rouse (i : Nat)

namespace Server

def start (threadNum : Nat) (clients : List Client) : Server := ⟨.create threadNum, clients, [], none⟩

def stepLive (host : Host) (server : Server) : Move → Option Server
  | .accept woken =>
      match server.coming with
      | [] => none
      | client :: coming =>
          (server.pool.addClient client woken).map fun pool => { server with pool := pool, coming := coming }
  | .fail => some { server with ending := some .aborted }
  | .look i => (server.pool.look i).map fun pool => { server with pool := pool }
  | .serve i rounds fresh =>
      match server.pool.serve host i rounds fresh with
      | none => none
      | some (client, .returned outcome) =>
          some { server with
            pool := server.pool.setWorker i .looking
            answered := server.answered ++ [(client, outcome)] }
      | some (_, .threw fault) => some { server with ending := some (.terminated fault) }
      | some (_, .killed) => some { server with ending := some .signalled }
  | .rouse i => (server.pool.rouse i).map fun pool => { server with pool := pool }

-- Nothing happens behind the end of the process.
def step (host : Host) (server : Server) (move : Move) : Option Server :=
  if server.ending.isSome then none else server.stepLive host move

end Server

-- What does not depend on the program.
def Move.isChance : Move → Bool
  | .fail | .rouse _ => true
  | _ => false

-- Neither the accepting thread nor a worker has anything left that it can do.
def Server.Quiet (host : Host) (server : Server) : Prop :=
  ∀ move, move.isChance = false → server.step host move = none

end CloudLabs.HttpServer
