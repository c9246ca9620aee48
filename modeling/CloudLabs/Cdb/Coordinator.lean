import CloudLabs.Cdb.Participant
import CloudLabs.Interaction.Program

namespace CloudLabs.Cdb

open Interaction

-- The "IP:port" under which a participant is configured.
abbrev Addr := Bytes

abbrev AddrSet := Std.ExtTreeSet Addr compare

-- One request of a client; its reply goes there.
abbrev Client := Nat

structure Coordinator where
  participantAddrs : List Addr
  nextId : UInt32
  isRecovered : Bool
  participants : AddrSet
  delKeys : KeySet
  rManager : RecordManager

-- The coordinator on the log that it has just loaded.
def Coordinator.start (participantAddrs : List Addr) (rManager : RecordManager) : Coordinator :=
  { participantAddrs, rManager, nextId := 0, isRecovered := true, participants := ∅, delKeys := ∅ }

-- What the functions of the coordinator do apart from computing. `log` writes
-- the record with the present next_id_. The id in `sendError` is that of the
-- update which the client asked for, if it was given one; no code reads it.
inductive Effect where
  | log (status : RecordStatus) (id : UInt32)
  | call (addr : Addr) (request : Request)
  | get
  | modify (change : Coordinator → Coordinator)
  | copyRecords
  | rand
  | sendResult (client : Client) (msg : Bytes)
  | sendError (client : Client) (id : Option UInt32)
  | notifyAll
  | assertFalse

-- A call is answered with the result of the RPC, or throws.
def Effect.Answer : Effect → Type
  | .call _ _ => Option Reply
  | .get => Coordinator
  | .copyRecords => List Record
  | .rand => UInt32
  | _ => Unit

abbrev Code := Program Effect Effect.Answer

namespace Coordinator

def log (status : RecordStatus) (id : UInt32) : Code Unit := .op (.log status id) .ret
def call (addr : Addr) (request : Request) : Code (Option Reply) := .op (.call addr request) .ret
def get : Code Coordinator := .op .get .ret
def modify (change : Coordinator → Coordinator) : Code Unit := .op (.modify change) .ret
def copyRecords : Code (List Record) := .op .copyRecords .ret
def rand : Code UInt32 := .op .rand .ret
def sendResult (client : Client) (msg : Bytes) : Code Unit := .op (.sendResult client msg) .ret
def sendError (client : Client) (id : Option UInt32) : Code Unit := .op (.sendError client id) .ret
def notifyAll : Code Unit := .op .notifyAll .ret
def assertFalse : Code Unit := .op .assertFalse .ret

def eraseParticipant (addr : Addr) : Code Unit :=
  modify fun c => { c with participants := c.participants.erase addr }

def insertParticipant (addr : Addr) : Code Unit :=
  modify fun c => { c with participants := c.participants.insert addr }

-- next_id_.fetch_add(1)
def fetchAddNextId : Code UInt32 := do
  let c ← get
  modify fun c => { c with nextId := c.nextId + 1 }
  return c.nextId

-- What a loop over participants_ does with the answer of one of them.
inductive Verdict (α : Type) where
  | keep (state : α)
  | drop (state : α)
  | stop (state : α)

-- The loop that the prepare, commit and abort phases share: one RPC to each
-- member in turn, and the member is erased when its call throws.
def forEachParticipant {α : Type} (request : Request) (judge : Option Reply → α → Verdict α) :
    List Addr → α → Code α
  | [], state => return state
  | addr :: rest, state => do
      match judge (← call addr request) state with
      | .keep state => forEachParticipant request judge rest state
      | .stop state => return state
      | .drop state => do
          eraseParticipant addr
          forEachParticipant request judge rest state

-- prepare_ok and participant_dead.
def judgePrepare : Option Reply → Bool × Bool → Verdict (Bool × Bool)
  | some (.bool true), (_, dead) => .keep (true, dead)
  | some (.bool false), (_, dead) => .stop (false, dead)
  | _, (ok, _) => .drop (ok, true)

-- ret and participant_dead. Only an empty ret takes the next answer.
def judgeCommit : Option Reply → Bytes × Bool → Verdict (Bytes × Bool)
  | some (.string value), (ret, dead) => .keep (if ret = [] then value else ret, dead)
  | _, (ret, _) => .drop (ret, true)

def judgeAbort : Option Reply → Bool → Verdict Bool
  | some (.bool true), dead => .keep dead
  | _, _ => .drop true

-- The DONE record is logged only if at least one participant is left.
def logDone (status : RecordStatus) (id : UInt32) : Code Unit := do
  if (← get).participants.isEmpty then return else log status id

-- The client is the null pointer when a record of the log is resolved.
def sendResultTo (client : Option Client) (msg : Bytes) : Code Unit :=
  match client with
  | none => return
  | some client => sendResult client msg

def sendErrorTo (client : Option Client) (id : UInt32) : Code Unit :=
  match client with
  | none => return
  | some client => sendError client (some id)

def notifyIf (dead : Bool) : Code Unit := if dead then notifyAll else return

-- The two ways to resolve an update; the flag says whether a participant has
-- died. The caller holds participants_mutex_, unless it is recovery().
def commitDbRequest (client : Option Client) (id : UInt32) (dead : Bool) : Code Bool := do
  log RECORD_COMMIT id
  let result ← forEachParticipant (.COMMIT id) judgeCommit (← get).participants.toList ([], dead)
  logDone RECORD_COMMIT_DONE id
  sendResultTo client result.1
  return result.2

def abortDbRequest (client : Option Client) (id : UInt32) (dead : Bool) : Code Bool := do
  log RECORD_ABORT id
  let dead ← forEachParticipant (.ABORT id) judgeAbort (← get).participants.toList dead
  logDone RECORD_ABORT_DONE id
  sendErrorTo client id
  return dead

-- The deleted keys are kept for the participants that are missing.
def rememberDelKeys (keys : List Bytes) : Code Unit := do
  let c ← get
  if c.participants.size < c.participantAddrs.length then
    modify fun c => { c with delKeys := c.delKeys.insertMany keys }
  else return

def handleDbSetRequest (client : Client) (cmd : SetCommand) : Code Unit := Program.critical do
  if (← get).participants.isEmpty then
    sendError client none
  else
    let cmd := { cmd with id := ← fetchAddNextId }
    log RECORD_UNRESOLVED cmd.id
    let phase ← forEachParticipant (.PREPARE_SET cmd) judgePrepare
      (← get).participants.toList (true, false)
    if (← get).participants.isEmpty then
      sendError client (some cmd.id)
    else if phase.1 then
      let dead ← commitDbRequest (some client) cmd.id phase.2
      notifyIf dead
    else
      let dead ← abortDbRequest (some client) cmd.id phase.2
      notifyIf dead

def handleDbDelRequest (client : Client) (cmd : DelCommand) : Code Unit := Program.critical do
  if (← get).participants.isEmpty then
    sendError client none
  else
    let cmd := { cmd with id := ← fetchAddNextId }
    log RECORD_UNRESOLVED cmd.id
    let phase ← forEachParticipant (.PREPARE_DEL cmd) judgePrepare
      (← get).participants.toList (true, false)
    if (← get).participants.isEmpty then
      sendError client (some cmd.id)
    else if phase.1 then
      let dead ← commitDbRequest (some client) cmd.id phase.2
      rememberDelKeys cmd.keys
      notifyIf dead
    else
      let dead ← abortDbRequest (some client) cmd.id phase.2
      notifyIf dead

-- The loop of handle_db_get_request: whether a member answered, and whether a
-- participant has died.
def getFromParticipants (client : Client) (cmd : GetCommand) : List Addr → Bool → Code (Bool × Bool)
  | [], dead => return (false, dead)
  | addr :: rest, dead => do
      match ← call addr (.GET cmd) with
      | some (.string value) => do
          sendResult client value
          return (true, dead)
      | _ => do
          eraseParticipant addr
          getFromParticipants client cmd rest true

-- The last send_error is made after the lock is released.
def handleDbGetRequest (client : Client) (cmd : GetCommand) : Code Unit := do
  let answered ← Program.critical do
    if (← get).participants.isEmpty then
      sendError client none
      return none
    else
      return some (← getFromParticipants client cmd (← get).participants.toList false)
  match answered with
  | none => return
  | some (true, dead) => notifyIf dead
  | some (false, dead) => do
      sendError client none
      notifyIf dead

-- The switch of handle_unfinished_records.
def resolveRecord (r : Record) : Code Unit := do
  if r.status = RECORD_UNRESOLVED ∨ r.status = RECORD_ABORT then
    let _ ← abortDbRequest none r.id false
  else if r.status = RECORD_COMMIT then
    let _ ← commitDbRequest none r.id false
  else assertFalse

def resolveRecords : List Record → Code Unit
  | [] => return
  | r :: rest => do
      resolveRecord r
      resolveRecords rest

def handleUnfinishedRecords : Code Unit := do
  resolveRecords (← copyRecords)

-- init_participant: the participant stays only if it counts as up to date.
def initParticipant (addr : Addr) : Code Unit := do
  insertParticipant addr
  match ← call addr .NEXT_ID with
  | some (.uint32 pNextId) =>
      let c ← get
      if !c.isRecovered then
        match ← call addr (.SET_NEXT_ID c.nextId) with
        | some _ => return
        | none => eraseParticipant addr
      else if pNextId = c.nextId then return
      else if pNextId + 1 = c.nextId ∧
          (c.rManager.records[c.nextId]?.map Record.status) = some RECORD_ABORT then return
      else eraseParticipant addr
  | _ => eraseParticipant addr

def initParticipantList : List Addr → Code Unit
  | [] => return
  | addr :: rest => do
      initParticipant addr
      initParticipantList rest

def initParticipants : Code Unit := Program.critical do
  initParticipantList (← get).participantAddrs

-- next_id_ initialization. A zero means that nothing has been logged before.
def initNextId : Code Unit := do
  modify fun c => { c with nextId := c.rManager.nextId }
  if (← get).nextId = 0 then
    let next ← rand
    modify fun c => { c with nextId := next, isRecovered := false }
  else return

def recovery : Code Unit := do
  initNextId
  initParticipants
  handleUnfinishedRecords

-- The snapshot loop of recover_participant. Only RECOVER's return tells that it
-- ran; its result is not looked at.
def recoverFromSnapshot (addr : Addr) : List Addr → Code Bool
  | [] => return false
  | donor :: rest => do
      match ← call donor .GET_SNAPSHOT with
      | some (.vector snapshot) => do
          let c ← get
          match ← call addr (.RECOVER snapshot c.delKeys) with
          | none => return false
          | some _ =>
              match ← call addr (.SET_NEXT_ID c.nextId) with
              | none => return false
              | some _ => return true
      | _ => do
          eraseParticipant donor
          recoverFromSnapshot addr rest

-- `none` is an exception that leaves recover_participant.
def recoverParticipant (addr : Addr) : Code (Option Bool) := do
  let c ← get
  if !c.isRecovered then
    match ← call addr (.SET_NEXT_ID c.nextId) with
    | none => return none
    | some _ =>
        modify fun c => { c with isRecovered := true }
        return some true
  else
    match ← call addr .NEXT_ID with
    | some (.uint32 pNextId) =>
        if pNextId = c.nextId then return some true
        else if pNextId + 1 = c.nextId ∧
            (c.rManager.records[pNextId]?.map Record.status) = some RECORD_UNRESOLVED then
          return some true
        else return some (← recoverFromSnapshot addr c.participants.toList)
    | _ => return none

-- All are back, and nobody needs the deleted keys any more.
def forgetDelKeys : Code Unit := do
  let c ← get
  if c.participants.size = c.participantAddrs.length then
    modify fun c => { c with delKeys := ∅ }
  else return

-- The scope under the lock guard in one turn of heartbeat_participants; false
-- if an exception leaves it.
def readmitParticipant (addr : Addr) : Code Bool := do
  if (← get).participants.contains addr then return true
  else
    match ← recoverParticipant addr with
    | none => return false
    | some false => return true
    | some true => do
        insertParticipant addr
        forgetDelKeys
        handleUnfinishedRecords
        return true

-- One turn of the inner loop of heartbeat_participants.
def heartbeatParticipant (addr : Addr) : Code Unit := do
  match ← call addr .HEARTBEAT with
  | none => Program.critical (eraseParticipant addr)
  | some _ => do
      let ok ← Program.critical (readmitParticipant addr)
      if ok then return else Program.critical (eraseParticipant addr)

def heartbeatList : List Addr → Code Unit
  | [] => return
  | addr :: rest => do
      heartbeatParticipant addr
      heartbeatList rest

-- The outer loop runs for ever; this is its first passes.
def heartbeatParticipants : Nat → Code Unit
  | 0 => return
  | passes + 1 => do
      heartbeatList (← get).participantAddrs
      heartbeatParticipants passes

end Coordinator

end CloudLabs.Cdb
