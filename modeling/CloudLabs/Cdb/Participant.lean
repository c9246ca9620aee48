import CloudLabs.Cdb.Record
import CloudLabs.Parsing.Fields

namespace CloudLabs.Cdb

-- The leveldb database of a participant. Its operations are taken to succeed.
abbrev Store := Std.ExtTreeMap Bytes Bytes compare

abbrev KeySet := Std.ExtTreeSet Bytes compare

def errorString : Bytes := bytes "-ERROR\r\n"
def updateOkString : Bytes := bytes "+OK\r\n"
def separator : Bytes := bytes "\r\n"

-- `dbRequests` is the set of pending commands in the order of command_cmp;
-- `none` is a null pointer in it.
structure Participant where
  store : Store
  nextId : UInt32
  dbRequests : List (Option Command)
  rManager : RecordManager

namespace Participant

-- The tokens std::getline cuts off at each blank.
def getlines (value : Bytes) : List Bytes := Parsing.split 32 value

def encodeBulkString (str : Bytes) : Bytes :=
  bytes "$" ++ toString str.length ++ separator ++ str ++ separator

def encodeResult (value : Bytes) : Bytes :=
  let tokens := getlines value
  bytes "*" ++ toString tokens.length ++ separator ++ tokens.flatMap encodeBulkString

-- get_handler_t
def get (p : Participant) (cmd : GetCommand) : Bytes :=
  match p.store[cmd.key]? with
  | some value => encodeResult value
  | none => encodeResult (bytes "nil")

-- Insertion into a set ordered by id(). An equal id keeps what is there.
def insertById (cmd : Command) : List Command → List Command
  | [] => [cmd]
  | head :: rest =>
      if cmd.id < head.id then cmd :: head :: rest
      else if head.id < cmd.id then head :: insertById cmd rest
      else head :: rest

-- db_requests_.insert: every comparison dereferences both pointers, and only
-- the insertion into an empty set compares nothing.
def insertRequest (cmd : Option Command) (requests : List (Option Command)) :
    Except Fault (List (Option Command)) :=
  if requests = [] then pure [cmd]
  else
    match cmd, requests.mapM id with
    | some cmd, some cmds => pure ((insertById cmd cmds).map some)
    | _, _ => throw .nullDereference

-- The body that prepare_set_t and prepare_del_t share. An exception of the log
-- is caught there; undefined behaviour is not.
def prepare (p : Participant) (cmd : Command) : Except Fault (Bool × Participant) :=
  match p.rManager.logCommand (some cmd) with
  | .error _ => pure (false, p)
  | .ok m => do
      let m := m.log ⟨RECORD_PREPARED, cmd.id, p.nextId⟩
      let requests ← insertRequest (some cmd) p.dbRequests
      return (true, { p with rManager := m, dbRequests := requests })

def prepareSet (p : Participant) (cmd : SetCommand) : Except Fault (Bool × Participant) :=
  p.prepare (.set cmd)

def prepareDel (p : Participant) (cmd : DelCommand) : Except Fault (Bool × Participant) :=
  p.prepare (.del cmd)

-- The call in a PREPARE handler that throws an exception, if one does.
inductive PrepareStage where
  | logCommand
  | logRecord
  | insert
  deriving DecidableEq, Repr

-- A PREPARE handler that has caught an exception of the given call: it answers
-- false and has not kept the command.
def prepareRefused (p : Participant) (stage : PrepareStage) (cmd : Command) : Participant :=
  match stage, p.rManager.logCommand (some cmd) with
  | .logCommand, _ => p
  | _, .error _ => p
  | .logRecord, .ok m => { p with rManager := m }
  | .insert, .ok m => { p with rManager := m.log ⟨RECORD_PREPARED, cmd.id, p.nextId⟩ }

-- commit_handler_t::handle_set
def handleSet (store : Store) (cmd : SetCommand) : Bytes × Store :=
  (updateOkString, store.insert cmd.key cmd.value)

-- The loop of handle_del: how many keys existed, and what is left.
def deleteKeys (store : Store) : List Bytes → Nat × Store
  | [] => (0, store)
  | key :: keys =>
      let rest := deleteKeys (store.erase key) keys
      (rest.1 + if store.contains key then 1 else 0, rest.2)

-- commit_handler_t::handle_del
def handleDel (store : Store) (cmd : DelCommand) : Bytes × Store :=
  let (count, store) := deleteKeys store cmd.keys
  if count = 0 then (errorString, store) else (bytes ":" ++ toString count ++ separator, store)

-- The dispatchers of commit_handler_t.
def dispatch (store : Store) : Command → Except Fault (Bytes × Store)
  | .set cmd => pure (handleSet store cmd)
  | .del cmd => pure (handleDel store cmd)
  | .get _ => throw (.serverError "unrecognizable command")

-- commit_handler_t
def commit (p : Participant) (id : UInt32) : Except Fault (Bytes × Participant) :=
  -- This request has been seen before.
  if id < p.nextId then pure ([], p)
  else if p.nextId < id then throw (.serverError "the coordinator has not call RECOVER!")
  else
    match p.dbRequests with
    | [] => throw .endDereference
    | none :: _ => throw .nullDereference
    | some cmd :: rest =>
        if cmd.id ≠ p.nextId then
          throw (.serverError "the coordinator has sent multiple PREPARE!")
        else do
          let (ret, store) ← dispatch p.store cmd
          let nextId := p.nextId + 1
          let m := (p.rManager.log ⟨RECORD_COMMIT, id, p.nextId⟩).log ⟨RECORD_COMMIT_DONE, id, nextId⟩
          return (ret, { store, nextId, dbRequests := rest, rManager := m })

-- abort_handler_t
def abort (p : Participant) (id : UInt32) : Bool × Participant :=
  let p := { p with rManager := p.rManager.log ⟨RECORD_ABORT_DONE, id, p.nextId + 1⟩ }
  if p.nextId ≠ id then (true, { p with nextId := if p.nextId < id then id + 1 else p.nextId })
  else (true, { p with dbRequests := p.dbRequests.tail, nextId := p.nextId + 1 })

-- The length of a string as the two bytes of a short, low byte first.
def encodeShort (size : Nat) : Bytes := [size.toUInt8, (size / 256).toUInt8]

def encodePair (key value : Bytes) : Bytes :=
  encodeShort key.length ++ key ++ encodeShort value.length ++ value

-- get_snapshot_t
def getSnapshot (p : Participant) : Bytes :=
  p.store.toList.flatMap fun pair => encodePair pair.1 pair.2

-- The value of a short with these two bytes.
def decodeShort (low high : UInt8) : Int :=
  let size := low.toNat + 256 * high.toNat
  if size < 32768 then size else (size : Int) - 65536

-- One turn of the inner loop of recover_t on what is left of the data: `none`
-- where it returns false, else the string and what follows it.
def readItem (data : Bytes) : Except Fault (Option (Bytes × Bytes)) :=
  match data with
  | low :: high :: rest =>
      let size := decodeShort low high
      if size < 0 ∨ (rest.length : Int) < size then throw .outOfBounds
      else pure (some (rest.take size.toNat, rest.drop size.toNat))
  | _ => pure none

-- The outer loop of recover_t. Every turn takes at least four bytes.
def recoverPairs (store : Store) (fuel : Nat) (data : Bytes) : Except Fault (Bool × Store) :=
  match fuel with
  | 0 => pure (true, store)
  | fuel + 1 =>
      if data = [] then pure (true, store)
      else do
        match ← readItem data with
        | none => return (false, store)
        | some (key, data) =>
            match ← readItem data with
            | none => return (false, store)
            | some (value, data) => recoverPairs (store.insert key value) fuel data

-- recover_t
def recover (p : Participant) (data : Bytes) (delKeys : KeySet) : Except Fault (Bool × Participant) := do
  let store := delKeys.toList.foldl (fun store key => store.erase key) p.store
  let (ok, store) ← recoverPairs store data.length data
  return (ok, { p with store })

-- The loop of participant::recovery over the records of the log.
def recoverRecords (cmds : IdMap Command) (records : List Record)
    (state : UInt32 × List (Option Command)) : Except Fault (UInt32 × List (Option Command)) :=
  match records with
  | [] => pure state
  | r :: rest => do
      if r.status = RECORD_COMMIT then
        let _ ← insertRequest cmds[r.id]? state.2
        -- commit_handler_t takes db_request_mutex_, which recovery() holds.
        throw .deadlock
      else if r.status = RECORD_PREPARED then
        let requests ← insertRequest cmds[r.id]? state.2
        recoverRecords cmds rest (r.id, requests)
      else throw (.serverError "participant recovery failed")

-- participant::recovery on a record_manager that has just loaded its files.
def recovery (store : Store) (m : RecordManager) : Except Fault Participant := do
  let (nextId, dbRequests) ← recoverRecords m.cmds m.records.values (0, [])
  return {
    store, dbRequests
    nextId := if nextId = 0 then m.nextId else nextId
    rManager := { m with cmds := ∅, records := ∅ } }

-- The participant process that starts on what an earlier one left on disk.
def restart (p : Participant) : Except Fault Participant := do
  let m ← RecordManager.load p.rManager.file p.rManager.cmdFile
  recovery p.store m

end Participant

-- The RPCs that a participant serves, and their results.
inductive Request where
  | GET (cmd : GetCommand)
  | PREPARE_SET (cmd : SetCommand)
  | PREPARE_DEL (cmd : DelCommand)
  | COMMIT (id : UInt32)
  | ABORT (id : UInt32)
  | SET_NEXT_ID (val : UInt32)
  | NEXT_ID
  | HEARTBEAT
  | GET_SNAPSHOT
  | RECOVER (data : Bytes) (delKeys : KeySet)

inductive Reply where
  | string (value : Bytes)
  | bool (value : Bool)
  | uint32 (value : UInt32)
  | vector (value : Bytes)
  | void

def Participant.handle (p : Participant) : Request → Except Fault (Reply × Participant)
  | .GET cmd => pure (.string (p.get cmd), p)
  | .PREPARE_SET cmd => do let (ok, p) ← p.prepareSet cmd; return (.bool ok, p)
  | .PREPARE_DEL cmd => do let (ok, p) ← p.prepareDel cmd; return (.bool ok, p)
  | .COMMIT id => do let (ret, p) ← p.commit id; return (.string ret, p)
  | .ABORT id => let (ok, p) := p.abort id; pure (.bool ok, p)
  | .SET_NEXT_ID val => pure (.void, { p with nextId := val })
  | .NEXT_ID => pure (.uint32 p.nextId, p)
  | .HEARTBEAT => pure (.void, p)
  | .GET_SNAPSHOT => pure (.vector p.getSnapshot, p)
  | .RECOVER data delKeys => do let (ok, p) ← p.recover data delKeys; return (.bool ok, p)

end CloudLabs.Cdb
