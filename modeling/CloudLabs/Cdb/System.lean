import CloudLabs.Cdb.Coordinator
import CloudLabs.Interaction.Service

namespace CloudLabs.Cdb

open Interaction

-- A participant process. An exception that leaves an RPC handler, and undefined
-- behaviour in one, ends the process: rpclib does not suppress exceptions.
structure Node where
  participant : Participant
  alive : Bool

-- The coordinator, the participants, and the messages that were given up but may
-- still be executed. The other fields are history that no code reads: the
-- records the coordinator logged, the decisions it sent, the commands that
-- participants applied, the updates it refused, the updates (by their number)
-- for which a PREPARE was answered with false, and the replies it queued.
structure World where
  coordinator : Coordinator
  node : Addr → Node
  inFlight : List (Addr × Request)
  logged : List Record
  sent : List (Addr × Request)
  applied : List (Addr × UInt32)
  refused : List UInt32
  vetoed : List Nat
  replies : List (Client × Bytes)

-- How one effect turns out. A call may be lost before it is executed, its reply
-- may be lost, it may be given up and executed later, and a PREPARE handler may
-- catch an exception. The last two are moves of the environment.
inductive Choice where
  | done
  | lost
  | replyLost
  | delayed
  | refuse (stage : Participant.PrepareStage)
  | draw (value : UInt32)
  | deliver (index : Nat)
  | restart (addr : Addr)

def RAND_MAX : UInt32 := 2147483647

def Request.isDecision : Request → Bool
  | .COMMIT _ | .ABORT _ => true
  | _ => false

namespace Node

def serve (n : Node) (request : Request) : Option Reply × Node :=
  if n.alive then
    match n.participant.handle request with
    | .ok (reply, participant) => (some reply, { n with participant })
    | .error _ => (none, { n with alive := false })
  else (none, n)

-- The id of the command that the request makes this participant apply.
def applies (n : Node) : Request → Option UInt32
  | .COMMIT id =>
      if n.alive ∧ n.participant.nextId = id ∧ (n.participant.commit id).isOk then some id else none
  | _ => none

-- A PREPARE handler that answers false.
def refuse (n : Node) (stage : Participant.PrepareStage) : Request → Option Node
  | .PREPARE_SET cmd =>
      if n.alive then some { n with participant := n.participant.prepareRefused stage (.set cmd) }
      else none
  | .PREPARE_DEL cmd =>
      if n.alive then some { n with participant := n.participant.prepareRefused stage (.del cmd) }
      else none
  | _ => none

end Node

namespace World

def setNode (w : World) (addr : Addr) (n : Node) : World :=
  { w with node := Function.update w.node addr n }

-- How many updates have been logged.
def issued (w : World) : Nat := w.logged.countP fun r => r.status = RECORD_UNRESOLVED

-- The request reaches the participant and is executed.
def execute (w : World) (addr : Addr) (request : Request) : Option Reply × World :=
  let served := (w.node addr).serve request
  (served.1, { w.setNode addr served.2 with
    applied := ((w.node addr).applies request).toList.map (addr, ·) ++ w.applied })

def send (w : World) (addr : Addr) (request : Request) : World :=
  if request.isDecision then { w with sent := (addr, request) :: w.sent } else w

def call (w : World) (addr : Addr) (request : Request) : Choice → Option (Option Reply × World)
  | .done => some (w.send addr request |>.execute addr request)
  | .lost => some (none, w.send addr request)
  | .replyLost => some (none, (w.send addr request |>.execute addr request).2)
  | .delayed => some (none,
      { w.send addr request with inFlight := w.inFlight ++ [(addr, request)] })
  | .refuse stage => ((w.node addr).refuse stage request).map fun n =>
      (some (.bool false), { w.setNode addr n with vetoed := w.issued :: w.vetoed })
  | _ => none

def log (w : World) (status : RecordStatus) (id : UInt32) : World :=
  let r : Record := ⟨status, id, w.coordinator.nextId⟩
  { w with
    coordinator := { w.coordinator with rManager := w.coordinator.rManager.log r }
    logged := r :: w.logged }

def exec (w : World) (effect : Effect) (choice : Choice) : Option (effect.Answer × World) :=
  match effect, choice with
  | .call addr request, choice => w.call addr request choice
  | .log status id, .done => some ((), w.log status id)
  | .get, .done => some (w.coordinator, w)
  | .modify change, .done => some ((), { w with coordinator := change w.coordinator })
  | .copyRecords, .done => some (w.coordinator.rManager.records.values, w)
  | .rand, .draw value => if value ≤ RAND_MAX then some (value, w) else none
  | .sendResult client msg, .done => some ((), { w with replies := (client, msg) :: w.replies })
  | .sendError client id, .done => some ((), { w with
      replies := (client, errorString) :: w.replies
      refused := id.toList ++ w.refused })
  | .notifyAll, .done => some ((), w)
  -- A failed assertion ends the process, which is a crash.
  | _, _ => none

-- What happens apart from the coordinator: a delayed message is executed, or a
-- participant process starts again on its files.
def environment (w : World) : Choice → Option World
  | .deliver index => w.inFlight[index]?.map fun message =>
      (({ w with inFlight := w.inFlight.eraseIdx index } : World).execute message.1 message.2).2
  | .restart addr => some <| w.setNode addr <|
      match (w.node addr).participant.restart with
      | .ok participant => ⟨participant, true⟩
      | .error _ => ⟨(w.node addr).participant, false⟩
  | _ => none

-- The coordinator dies and is started again: only its files are left.
def restart (w : World) : Option World :=
  match RecordManager.load w.coordinator.rManager.file w.coordinator.rManager.cmdFile with
  | .ok rManager => some { w with
      coordinator := Coordinator.start w.coordinator.participantAddrs rManager }
  | .error _ => none

end World

def Coordinator.handle (request : Client × Command) : Code Unit :=
  match request.2 with
  | .get cmd => handleDbGetRequest request.1 cmd
  | .set cmd => handleDbSetRequest request.1 cmd
  | .del cmd => handleDbDelRequest request.1 cmd

def cdb : Service Effect Effect.Answer World Choice (Client × Command) where
  exec := World.exec
  environment := World.environment
  recovery := Coordinator.recovery
  main := Coordinator.heartbeatParticipants
  handler := Coordinator.handle
  restart := World.restart

abbrev System := Pool Effect Effect.Answer World

abbrev SystemMove := Move Choice (Client × Command)

-- The coordinator process has just been started and nothing has happened yet.
def World.initial (participantAddrs : List Addr) (rManager : RecordManager) (node : Addr → Node) :
    World :=
  { coordinator := Coordinator.start participantAddrs rManager
    node, inFlight := [], logged := [], sent := [], applied := [], refused := [], vetoed := [],
    replies := [] }

def System.boot (w : World) : System := ⟨w, .booting false Coordinator.recovery⟩

-- Whether a random number is drawn, or a request arrives before recovery() has
-- returned.
def System.risks : SystemMove → Bool
  | .advance _ (.draw _) => true
  | .early _ _ => true
  | _ => false

-- The steps that a thread takes one after the other.
def System.advance (thread : Nat) (choices : List Choice) : List SystemMove :=
  choices.map (.advance thread)

end CloudLabs.Cdb
