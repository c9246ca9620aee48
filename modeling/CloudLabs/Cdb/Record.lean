import CloudLabs.Cdb.Command

namespace CloudLabs.Cdb

abbrev RecordStatus := UInt8

-- The coordinator has not yet made a decision.
def RECORD_UNRESOLVED : RecordStatus := 0
def RECORD_COMMIT : RecordStatus := 1
def RECORD_ABORT : RecordStatus := 2
def RECORD_COMMIT_DONE : RecordStatus := 3
def RECORD_ABORT_DONE : RecordStatus := 4
-- Logged by participants only.
def RECORD_PREPARED : RecordStatus := 5

structure Record where
  status : RecordStatus
  id : UInt32
  nextId : UInt32
  deriving DecidableEq, Repr

namespace Record

def recordSize : Nat := 9

def encodeUint8 (val : UInt8) : Bytes := [val]

-- Little-endian.
def encodeUint32 (val : UInt32) : Bytes :=
  [val.toUInt8, (val >>> 8).toUInt8, (val >>> 16).toUInt8, (val >>> 24).toUInt8]

-- The guard lets `idx = size` through, where the byte read is past the end.
def decodeUint8 (binary : Bytes) (idx : Nat) : Except Fault (UInt8 × Nat) :=
  if binary.length < idx then throw (.logError "not enough bytes")
  else
    match binary[idx]? with
    | some byte => pure (byte, idx + 1)
    | none => throw .outOfBounds

def decodeUint32 (binary : Bytes) (idx : Nat) : Except Fault (UInt32 × Nat) :=
  if binary.length < idx + 4 then throw (.logError "not enough bytes")
  else
    match binary.drop idx with
    | b0 :: b1 :: b2 :: b3 :: _ =>
        pure (b0.toUInt32 ||| (b1.toUInt32 <<< 8) ||| (b2.toUInt32 <<< 16) ||| (b3.toUInt32 <<< 24),
          idx + 4)
    | _ => throw .outOfBounds

def toBinary (r : Record) : Bytes :=
  encodeUint8 r.status ++ encodeUint32 r.id ++ encodeUint32 r.nextId

def parse (binary : Bytes) : Except Fault Record := do
  let (status, idx) ← decodeUint8 binary 0
  let (id, idx) ← decodeUint32 binary idx
  let (nextId, _) ← decodeUint32 binary idx
  return ⟨status, id, nextId⟩

-- A DONE record closes the record of its id.
def done (r : Record) : Bool := r.status == RECORD_ABORT_DONE || r.status == RECORD_COMMIT_DONE

end Record

-- std::map of ids, in the order of the ids.
abbrev IdMap (α : Type) := Std.ExtTreeMap UInt32 α compare

-- What a stream that was opened for reading still has in front of it.
structure FStream where
  content : Bytes
  position : Nat

def FStream.readToEnd (file : FStream) : Bytes × FStream :=
  (file.content.drop file.position, { file with position := file.content.length })

-- `file` and `cmdFile` are the contents of the two files on disk.
structure RecordManager where
  file : Bytes
  cmdFile : Bytes
  nextId : UInt32
  records : IdMap Record
  cmds : IdMap Command

namespace RecordManager

-- record_manager::log(const record &)
def log (m : RecordManager) (r : Record) : RecordManager :=
  let binary := r.toBinary
  let m := { m with file := m.file ++ binary }
  if r.done then
    let m := { m with records := m.records.erase r.id }
    -- The log is cleared; one record stays to find next_id again.
    if m.records.isEmpty then { m with file := binary, cmdFile := [] } else m
  else { m with records := m.records.insert r.id r }

-- The arguments of one DEL, each behind its length.
def encodeArgs (args : List Bytes) : Bytes :=
  args.flatMap fun arg => Record.encodeUint32 (UInt32.ofNat arg.length) ++ arg

-- record_manager::log(const command *); `none` is the null pointer.
def logCommand (m : RecordManager) (cmd : Option Command) : Except Fault RecordManager :=
  match cmd with
  | none => throw (.logError "cmd is nullptr")
  | some (.set cmd) => pure { m with
      cmdFile := m.cmdFile ++ Record.encodeUint8 CMD_SET ++
        Record.encodeUint32 (UInt32.ofNat cmd.key.length) ++ cmd.key ++
        Record.encodeUint32 (UInt32.ofNat cmd.value.length) ++ cmd.value }
  | some (.del cmd) => pure { m with
      cmdFile := m.cmdFile ++ Record.encodeUint8 CMD_DEL ++ encodeArgs cmd.keys }
  | some (.get _) => throw (.logError "encoding non SET/DEL command")

-- How one record read back changes next_id_ and records_.
def replay (state : UInt32 × IdMap Record) (r : Record) : UInt32 × IdMap Record :=
  (r.nextId, if r.done then state.2.erase r.id else state.2.insert r.id r)

-- The first loop of init_records. Every round takes nine bytes, so that the
-- length of the file is fuel enough.
def loadRecords (data : Bytes) (fuel start : Nat) (state : UInt32 × IdMap Record) :
    Except Fault (UInt32 × IdMap Record) :=
  match fuel with
  | 0 => pure state
  | fuel + 1 =>
      if start < data.length then
        -- The vector that is handed to parse is copied from beyond the end.
        if data.length < start + Record.recordSize then throw .outOfBounds
        else do
          let r ← Record.parse ((data.drop start).take Record.recordSize)
          loadRecords data fuel (start + Record.recordSize) (replay state r)
      else pure state

-- The string of the given size at `start`.
def readString (data : Bytes) (start size : Nat) : Except Fault (Bytes × Nat) :=
  if data.length < start + size then throw .outOfBounds
  else pure ((data.drop start).take size, start + size)

-- Reads one string for each argument and appends it to those that are there.
def readArgs (data : Bytes) : Nat → Nat → List Bytes → Except Fault (List Bytes × Nat)
  | 0, start, args => pure (args, start)
  | numArgs + 1, start, args => do
      let (size, start) ← Record.decodeUint32 data start
      let (arg, start) ← readString data start size.toNat
      readArgs data numArgs start (args ++ [arg])

def readCommand (data : Bytes) (start : Nat) : Except Fault (Command × Nat) := do
  let (type, start) ← Record.decodeUint8 data start
  if type = CMD_SET then
    let (id, start) ← Record.decodeUint32 data start
    let (keySize, start) ← Record.decodeUint32 data start
    let (key, start) ← readString data start keySize.toNat
    let (valSize, start) ← Record.decodeUint32 data start
    let (value, start) ← readString data start valSize.toNat
    return (.set ⟨id, key, value⟩, start)
  else if type = CMD_DEL then
    let (id, start) ← Record.decodeUint32 data start
    let (numArgs, start) ← Record.decodeUint32 data start
    -- The vector starts with that many empty strings, and the arguments follow.
    let (args, start) ← readArgs data numArgs.toNat start (List.replicate numArgs.toNat [])
    return (.del ⟨id, args⟩, start)
  else throw (.logError "unexpected command type")

-- The second loop of init_records; every command takes at least its tag.
def loadCommands (data : Bytes) (records : IdMap Record) (fuel start : Nat) (cmds : IdMap Command) :
    Except Fault (IdMap Command) :=
  match fuel with
  | 0 => pure cmds
  | fuel + 1 =>
      if start < data.length then do
        let (cmd, start) ← readCommand data start
        loadCommands data records fuel start
          (if records.contains cmd.id then cmds.insert cmd.id cmd else cmds)
      else pure cmds

-- record_manager::record_manager on the files of that content: init_records.
def load (content cmdContent : Bytes) : Except Fault RecordManager := do
  let (data, file) := FStream.readToEnd ⟨content, 0⟩
  let (nextId, records) ← loadRecords data data.length 0 (0, ∅)
  -- The commands are read from file_ as well, which is at its end by now.
  let (cmdData, _) := file.readToEnd
  let cmds ← loadCommands cmdData records cmdData.length 0 ∅
  return { file := content, cmdFile := cmdContent, nextId, records, cmds }

end RecordManager

end CloudLabs.Cdb
