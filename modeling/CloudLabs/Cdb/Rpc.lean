import CloudLabs.Cdb.System
import CloudLabs.MessagePack.Adaptor

namespace CloudLabs.Cdb.Rpc

open MessagePack

-- A command with the tag that its base class holds.
structure Typed (α : Type) where
  type : CommandType
  cmd : α

-- The base class. A command that has just been constructed has the tag of its own class.
def command (own : CommandType) : Adaptor CommandType :=
  defineArray (fun type => [uint8.member type]) fun items => convertMember uint8.convert items 0 own

def getCommand : Adaptor (Typed GetCommand) :=
  defineArray (fun v => [(command CMD_GET).member v.type, string.member v.cmd.key]) fun items => do
    let type ← convertMember (command CMD_GET).convert items 0 CMD_GET
    let key ← convertMember string.convert items 1 []
    return ⟨type, ⟨key⟩⟩

def setCommand : Adaptor (Typed SetCommand) :=
  defineArray
    (fun v => [(command CMD_SET).member v.type, uint32.member v.cmd.id, string.member v.cmd.key,
      string.member v.cmd.value])
    fun items => do
      let type ← convertMember (command CMD_SET).convert items 0 CMD_SET
      let id ← convertMember uint32.convert items 1 0
      let key ← convertMember string.convert items 2 []
      let value ← convertMember string.convert items 3 []
      return ⟨type, ⟨id, key, value⟩⟩

def delCommand : Adaptor (Typed DelCommand) :=
  defineArray
    (fun v => [(command CMD_DEL).member v.type, uint32.member v.cmd.id, (vector string).member v.cmd.keys])
    fun items => do
      let type ← convertMember (command CMD_DEL).convert items 0 CMD_DEL
      let id ← convertMember uint32.convert items 1 0
      let keys ← convertMember (vector string).convert items 2 []
      return ⟨type, ⟨id, keys⟩⟩

-- std::set<std::string>
def keySet : Adaptor KeySet where
  pack v := (vector string).pack v.toList
  object v := (vector string).object v.toList
  convert obj := do return .ofList (← (vector string).convert obj)

end Rpc

open MessagePack Rpc

namespace Request

def name : Request → Bytes
  | GET _ => bytes "GET"
  | PREPARE_SET _ => bytes "PREPARE_SET"
  | PREPARE_DEL _ => bytes "PREPARE_DEL"
  | COMMIT _ => bytes "COMMIT"
  | ABORT _ => bytes "ABORT"
  | SET_NEXT_ID _ => bytes "SET_NEXT_ID"
  | NEXT_ID => bytes "NEXT_ID"
  | HEARTBEAT => bytes "HEARTBEAT"
  | GET_SNAPSHOT => bytes "GET_SNAPSHOT"
  | RECOVER _ _ => bytes "RECOVER"

-- What the coordinator passes to client::call.
def args : Request → List Member
  | GET cmd => [getCommand.member ⟨CMD_GET, cmd⟩]
  | PREPARE_SET cmd => [setCommand.member ⟨CMD_SET, cmd⟩]
  | PREPARE_DEL cmd => [delCommand.member ⟨CMD_DEL, cmd⟩]
  | COMMIT id => [uint32.member id]
  | ABORT id => [uint32.member id]
  | SET_NEXT_ID val => [uint32.member val]
  | NEXT_ID => []
  | HEARTBEAT => []
  | GET_SNAPSHOT => []
  | RECOVER data delKeys => [vectorChar.member data, keySet.member delKeys]

-- client::async_call: the tuple of the type of a call, its number, the name and the arguments.
def members (request : Request) (idx : Int) : List Member :=
  [uint8.member 0, int idx, string.member request.name, ⟨packMembers request.args, objectMembers request.args⟩]

def call (request : Request) (idx : Nat) : Except Error Bytes := packMembers (request.members idx)

-- What is posted for a call. One that cannot be packed throws before that.
def buffer (idx : Nat) (request : Request) : Bytes :=
  match request.call idx with
  | .ok data => data
  | .error _ => []

end Request

namespace Rpc

-- The low half of a float, which the union holds as a double: there the fraction is 29 bits
-- further up, or more if the float is subnormal.
def floatWord (bits : UInt32) : Nat :=
  let fraction := bits.toNat % 2 ^ 23
  let shift := if bits.toNat / 2 ^ 23 % 2 ^ 8 = 0 then 23 - fraction.log2 else 0
  fraction * 2 ^ shift % 8 * 2 ^ 29

-- via.array.size, whatever the type of the object is: the first four bytes of the union, low
-- byte first. Of these a nil leaves all as they were, and a boolean all but one.
def viaArraySize (stale : UInt32) : Object → Nat
  | .nil => stale.toNat
  | .boolean value => stale.toNat / 256 * 256 + value.toNat
  | .positiveInteger value => value.toNat % 2 ^ 32
  | .negativeInteger value => (value % 2 ^ 32).toNat
  | .float32 bits => floatWord bits
  | .float64 bits => bits.toNat % 2 ^ 32
  | .raw .EXT data => data.length - 1
  | .raw _ data => data.length
  | .array items => items.length
  | .map items => items.length / 2

-- A handler as the dispatcher binds it: how many arguments it has, and the request that these
-- are. There is none for a command with the tag of another class. A handler without arguments
-- does not look at what it is given.
structure Binding where
  name : Bytes
  count : Nat
  request : Object → Except Error (Option Request)

def ofOwn {α : Type} (own : CommandType) (request : α → Request) (v : Typed α) : Option Request :=
  if v.type = own then some (request v.cmd) else none

-- The constructor of participant.
def funcs : List Binding := [
  ⟨bytes "GET", 1, fun args => do
    return ofOwn CMD_GET .GET (← convertMember getCommand.convert (← arrayItems args) 0 ⟨CMD_GET, ⟨[]⟩⟩)⟩,
  ⟨bytes "PREPARE_SET", 1, fun args => do
    return ofOwn CMD_SET .PREPARE_SET
      (← convertMember setCommand.convert (← arrayItems args) 0 ⟨CMD_SET, ⟨0, [], []⟩⟩)⟩,
  ⟨bytes "PREPARE_DEL", 1, fun args => do
    return ofOwn CMD_DEL .PREPARE_DEL (← convertMember delCommand.convert (← arrayItems args) 0 ⟨CMD_DEL, ⟨0, []⟩⟩)⟩,
  ⟨bytes "COMMIT", 1, fun args => do
    return some (.COMMIT (← convertMember uint32.convert (← arrayItems args) 0 0))⟩,
  ⟨bytes "ABORT", 1, fun args => do
    return some (.ABORT (← convertMember uint32.convert (← arrayItems args) 0 0))⟩,
  ⟨bytes "SET_NEXT_ID", 1, fun args => do
    return some (.SET_NEXT_ID (← convertMember uint32.convert (← arrayItems args) 0 0))⟩,
  ⟨bytes "NEXT_ID", 0, fun _ => pure (some .NEXT_ID)⟩,
  ⟨bytes "HEARTBEAT", 0, fun _ => pure (some .HEARTBEAT)⟩,
  ⟨bytes "GET_SNAPSHOT", 0, fun _ => pure (some .GET_SNAPSHOT)⟩,
  ⟨bytes "RECOVER", 2, fun args => do
    let items ← arrayItems args
    let data ← convertMember vectorChar.convert items 0 []
    let delKeys ← convertMember keySet.convert items 1 ∅
    return some (.RECOVER data delKeys)⟩]

-- What the dispatcher makes of a message. A client_error is an exception, which only a call
-- catches.
inductive Dispatch where
  | empty
  | notFound (text : Bytes)
  | clientError (text : Bytes)
  | request (request : Option Request)

-- enforce_arg_count takes what it finds for what it expects.
def wrongArity (name : Bytes) (found expected : Nat) : Bytes :=
  bytes "rpclib: client error C0002: Function '" ++ name ++
    bytes "' was called with an invalid number of arguments. Expected: " ++ toString expected ++
    bytes ", got: " ++ toString found

def notFound (name : Bytes) (count : Nat) : Bytes :=
  bytes "rpclib: server could not find function '" ++ name ++ bytes "' with argument count " ++
    toString count ++ bytes "."

def dispatchFunc (stale : UInt32) (name : Bytes) (args : Object) : Except Error Dispatch :=
  let size := viaArraySize stale args
  match funcs.find? fun func => func.name = name with
  | none => pure (.notFound (notFound name size))
  | some func =>
      if size ≠ func.count then pure (.clientError (wrongArity name func.count size))
      else do return .request (← func.request args)

-- dispatcher::dispatch: with the number of a call its response is sent back, a notification has
-- none. What is not an array is converted all the same if the size that is read is one of
-- these, and that throws. The word in the memory counts for the message or, if this is an array,
-- for its arguments.
def dispatch (stale : UInt32) (msg : Object) : Except Error (Option UInt32 × Dispatch) :=
  match viaArraySize stale msg with
  | 3 => do
      let items ← arrayItems msg
      let _ ← convertMember convertInt8 items 0 0
      let name ← convertMember string.convert items 1 []
      let args ← convertMember pure items 2 .nil
      return (none, ← dispatchFunc stale name args)
  | 4 => do
      let items ← arrayItems msg
      let _ ← convertMember convertInt8 items 0 0
      let id ← convertMember uint32.convert items 1 0
      let name ← convertMember string.convert items 2 []
      let args ← convertMember pure items 3 .nil
      return (some id, ← dispatchFunc stale name args)
  | _ => return (none, .empty)

end Rpc

-- The result that a handler's return is made into.
def Reply.object : Reply → Except Error Object
  | .string value => MessagePack.string.object value
  | .bool value => MessagePack.bool.object value
  | .uint32 value => MessagePack.uint32.object value
  | .vector value => vectorChar.object value
  | .void => pure .nil

-- The result of a call, as the type that the handler returns.
def Reply.as (obj : Object) : Reply → Except Error Reply
  | .string _ => do return .string (← MessagePack.string.convert obj)
  | .bool _ => do return .bool (← MessagePack.bool.convert obj)
  | .uint32 _ => do return .uint32 (← MessagePack.uint32.convert obj)
  | .vector _ => do return .vector (← vectorChar.convert obj)
  | .void => pure .void

-- A return that no object can hold ends the process, as an exception does.
def Node.answer (n : Node) (request : Request) : Option Reply × Node :=
  match n.serve request with
  | (none, n) => (none, n)
  | (some reply, n) =>
      match reply.object with
      | .ok _ => (some reply, n)
      | .error _ => (none, { n with alive := false })

namespace Rpc

-- response::get_data
def responseData (id : UInt32) (error result : Object) : Bytes :=
  packArray 4 ++ packUint32 1 ++ packUint32 id ++ error.pack ++ result.pack

def respondError (n : Node) (id : UInt32) (text : Bytes) : Option Bytes × Node :=
  match string.object text with
  | .error _ => (none, { n with alive := false })
  | .ok error => (some (responseData id error .nil), n)

-- A message that the worker takes up: the response, if there is one.
def serveMessage (n : Node) (stale : UInt32) (msg : Object) : Option Bytes × Node :=
  match dispatch stale msg with
  | .error _ => (none, { n with alive := false })
  | .ok (_, .empty) => (none, n)
  | .ok (none, .notFound _) => (none, n)
  | .ok (none, .clientError _) => (none, { n with alive := false })
  | .ok (some id, .notFound text) => respondError n id text
  | .ok (some id, .clientError text) => respondError n id text
  | .ok (_, .request none) => (none, n)
  | .ok (id, .request (some request)) =>
      let (reply, n) := n.answer request
      match id, reply.map Reply.object with
      | some id, some (.ok result) => (some (responseData id .nil result), n)
      | _, _ => (none, n)

-- server_session of a participant with one worker: the unpacker with what it has not used, the
-- messages posted to the worker, the responses posted to the strand that writes, and what is
-- written. All that has been read is history. A second worker could run a handler while
-- the first runs another, and only some of them take the mutex of the participant.
structure Session where
  node : Node
  pac : Context × Bytes
  posted : List Object
  responses : List Bytes
  written : Bytes
  received : Bytes

-- Some bytes arrive, the worker takes the next message up and posts the response, or the strand
-- takes the next response up.
inductive Move where
  | read (chunk : Bytes)
  | serve (stale : UInt32)
  | write

namespace Session

def start (n : Node) : Session := ⟨n, (unpacker.start, []), [], [], [], []⟩

-- server_session::do_read. An exception of the unpacker ends the process.
def read (s : Session) (chunk : Bytes) : Session :=
  match unpacker.drain s.pac.1 (s.pac.2 ++ chunk) with
  | (msgs, .ok pac) => { s with pac := pac, posted := s.posted ++ msgs, received := s.received ++ chunk }
  | (msgs, .error _) =>
      { s with
        node := { s.node with alive := false }
        posted := s.posted ++ msgs
        received := s.received ++ chunk }

def serve (s : Session) (stale : UInt32) : Option Session :=
  match s.posted with
  | [] => none
  | msg :: posted =>
      let (response, node) := serveMessage s.node stale msg
      some { s with node, posted, responses := s.responses ++ response.toList }

def write (s : Session) : Option Session :=
  match s.responses with
  | [] => none
  | data :: responses => some { s with responses, written := s.written ++ data }

def step (s : Session) (move : Move) : Option Session :=
  if s.node.alive then
    match move with
    | .read chunk => some (s.read chunk)
    | .serve stale => s.serve stale
    | .write => s.write
  else none

end Session

-- response::response: the number of the call, the error and the result.
def response (obj : Object) : Except Error (UInt32 × Object × Object) := do
  let items ← arrayItems obj
  let _ ← convertMember uint32.convert items 0 0
  let id ← convertMember uint32.convert items 1 0
  let error ← convertMember pure items 2 .nil
  let result ← convertMember pure items 3 .nil
  return (id, error, result)

-- client::do_read on the chunks that it has read: the calls that it resolves, in this order.
def responses (chunks : List Bytes) : Except Error (List (UInt32 × Object × Object)) := do
  let (objs, last) := unpacker.receive unpacker.start [] chunks
  let resolved ← objs.mapM response
  let _ ← last
  return resolved

-- What a participant replies to calls with their numbers, and where this leaves it.
def answers (n : Node) : List (Nat × Request) → List (Nat × Reply) × Node
  | [] => ([], n)
  | (idx, request) :: calls =>
      let (reply, n) := n.answer request
      let (later, n) := answers n calls
      (reply.toList.map (idx, ·) ++ later, n)

-- The same with messages, each with the word that is in the memory as it is dispatched.
def serveAll (n : Node) : List (UInt32 × Object) → List Bytes × Node
  | [] => ([], n)
  | (stale, msg) :: msgs =>
      let (response, n) := serveMessage n stale msg
      let (later, n) := serveAll n msgs
      (response.toList ++ later, n)

end Rpc

end CloudLabs.Cdb
