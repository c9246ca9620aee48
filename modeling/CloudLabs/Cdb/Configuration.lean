import CloudLabs.Cdb.Command
import CloudLabs.Parsing.Fields
import CloudLabs.Parsing.Numbers

namespace CloudLabs.Cdb

open CloudLabs.Parsing

-- struct configuration without its mode, which tells the two kinds apart below.
-- No constructor sets the port: a new object holds whatever `fresh` stands for.
structure Configuration where
  addr : Bytes
  port : UInt16
  numWorkers : UInt64
  deriving DecidableEq

structure CoordinatorConfiguration extends Configuration where
  participantAddrs : List Bytes
  participantPorts : List UInt16
  deriving DecidableEq

structure ParticipantConfiguration extends Configuration where
  coordinatorAddr : Bytes
  coordinatorPort : UInt16
  storagePath : Bytes
  deriving DecidableEq

-- What a pointer to the base class refers to.
inductive AnyConfiguration where
  | coordinator (conf : CoordinatorConfiguration)
  | participant (conf : ParticipantConfiguration)
  deriving DecidableEq

-- What ends the program before a server is made: an exception of errors.hpp, abort(),
-- or a line so long that the int counting its characters overflows.
inductive Refusal where
  | configError (what : String)
  | serverError (what : String)
  | aborted (what : String)
  | overflow
  deriving DecidableEq

namespace Configuration

def new (fresh : UInt16) : Configuration := ⟨[], fresh, 2⟩

end Configuration

namespace CoordinatorConfiguration

def new (fresh : UInt16) : CoordinatorConfiguration := ⟨.new fresh, [], []⟩

-- The move constructor and the move assignment list the fields they take.
def moved (conf : CoordinatorConfiguration) (fresh : UInt16) : CoordinatorConfiguration :=
  { new fresh with
    participantAddrs := conf.participantAddrs, participantPorts := conf.participantPorts,
    addr := conf.addr, port := conf.port }

def assign (this conf : CoordinatorConfiguration) : CoordinatorConfiguration :=
  { this with
    participantAddrs := conf.participantAddrs, participantPorts := conf.participantPorts,
    addr := conf.addr, port := conf.port }

end CoordinatorConfiguration

namespace ParticipantConfiguration

def new (fresh : UInt16) : ParticipantConfiguration :=
  ⟨.new fresh, bytes "127.0.0.1", 8080, bytes "/tmp/testdb"⟩

def moved (conf : ParticipantConfiguration) (fresh : UInt16) : ParticipantConfiguration :=
  { new fresh with
    coordinatorAddr := conf.coordinatorAddr, coordinatorPort := conf.coordinatorPort,
    storagePath := conf.storagePath, addr := conf.addr, port := conf.port }

def assign (this conf : ParticipantConfiguration) : ParticipantConfiguration :=
  { this with
    coordinatorAddr := conf.coordinatorAddr, coordinatorPort := conf.coordinatorPort,
    storagePath := conf.storagePath, addr := conf.addr, port := conf.port }

end ParticipantConfiguration

-- std::getline on what a stream still holds: the characters up to the delimiter, which
-- is dropped, and what is left. It fails where nothing is left.
def getline (delim : UInt8) (stream : Bytes) : Option (Bytes × Bytes) :=
  if stream = [] then none
  else some (stream.takeWhile (· ≠ delim), (stream.dropWhile (· ≠ delim)).tail)

-- std::stoi, where an int has 32 bits.
def stoi (text : Bytes) : Option Int :=
  match readNumeral text with
  | none => none
  | some numeral => if -2 ^ 31 ≤ numeral.value ∧ numeral.value < 2 ^ 31 then some numeral.value else none

-- std::stoul: a sign negates the number that was read.
def stoul (text : Bytes) : Option UInt64 :=
  match readNumeral text with
  | none => none
  | some numeral => if numeral.magnitude < 2 ^ 64 then some (UInt64.ofInt numeral.value) else none

namespace ConfigurationManager

-- What ends the name of a field.
def isBlank (ch : UInt8) : Bool := ch = 32 || ch = 9 || ch = 13

def getOption (line : Bytes) : Option (Bytes × Bytes) :=
  let op := line.takeWhile fun ch => !isBlank ch
  if op.length = line.length then none else some (op, line.drop (op.length + 1))

-- What coordinator_info and participant_info have in common: both take an address apart
-- and store it. The spelling of the first message is theirs.
def setInfo (invalid : String) (store : Bytes → UInt16 → AnyConfiguration) (value : Bytes) :
    Except Refusal AnyConfiguration :=
  match getline 58 value with
  | none => .error (.configError "invalid coorinator_info")
  | some (ip, stream) =>
    match getline 10 stream with
    | none => .error (.configError "invalid coordinator_info")
    | some (port, _) =>
      match stoi port with
      | none => .error (.configError invalid)
      | some port => .ok (store ip (UInt16.ofInt port))

def coordinatorInfo (conf : AnyConfiguration) (value : Bytes) : Except Refusal AnyConfiguration :=
  let store ip port :=
    match conf with
    | .coordinator conf => AnyConfiguration.coordinator { conf with addr := ip, port }
    | .participant conf => .participant { conf with coordinatorAddr := ip, coordinatorPort := port }
  setInfo "invalid coordinator_info" store value

def participantInfo (conf : AnyConfiguration) (value : Bytes) : Except Refusal AnyConfiguration :=
  let store ip port :=
    match conf with
    | .coordinator conf =>
      AnyConfiguration.coordinator { conf with
        participantAddrs := conf.participantAddrs ++ [ip],
        participantPorts := conf.participantPorts ++ [port] }
    | .participant conf => .participant { conf with addr := ip, port }
  setInfo "invalid participant_info" store value

def numWorkers (conf : AnyConfiguration) (value : Bytes) : Except Refusal AnyConfiguration :=
  match stoul value with
  | none => .error (.configError "invalid number of workers")
  | some number =>
    match conf with
    | .coordinator conf => .ok (.coordinator { conf with numWorkers := number })
    | .participant conf => .ok (.participant { conf with numWorkers := number })

def storagePath (conf : AnyConfiguration) (value : Bytes) : Except Refusal AnyConfiguration :=
  match conf with
  | .coordinator _ => .error (.configError "storage path specified in coordinator configuration")
  | .participant conf => .ok (.participant { conf with storagePath := value })

-- The map m of the constructor, applied: (m[op])(conf, value).
def setField (conf : AnyConfiguration) (op value : Bytes) : Except Refusal AnyConfiguration :=
  if op = bytes "coordinator_info" then coordinatorInfo conf value
  else if op = bytes "participant_info" then participantInfo conf value
  else if op = bytes "num_workers" then numWorkers conf value
  else if op = bytes "storage_path" then storagePath conf value
  else .error (.configError "unknown configuration field")

-- ret is null until a line sets the mode.
def setOption (fresh : UInt16) (ret : Option AnyConfiguration) (op value : Bytes) :
    Except Refusal (Option AnyConfiguration) :=
  match ret with
  | some conf => (setField conf op value).map some
  | none =>
    if op = bytes "mode" ∧ value = bytes "coordinator" then .ok (some (.coordinator (.new fresh)))
    else if op = bytes "mode" ∧ value = bytes "participant" then .ok (some (.participant (.new fresh)))
    else .error (.configError "first field is not mode")

def isComment (line : Bytes) : Bool := line.head? = some 33 || line = []

-- One turn of the loop of get_conf.
def readLine (fresh : UInt16) (ret : Option AnyConfiguration) (line : Bytes) :
    Except Refusal (Option AnyConfiguration) :=
  if isComment line then .ok ret
  else if 2 ^ 31 ≤ (line.takeWhile fun ch => !isBlank ch).length then .error .overflow
  else
    match getOption line with
    | none => .error (.serverError "invalid configuration file")
    | some (op, value) => setOption fresh ret op value

-- What is in the file, or nothing where it cannot be opened. A call of getline in the
-- loop takes one line.
def getConf (fresh : UInt16) (conf_str : Option Bytes) : Except Refusal (Option AnyConfiguration) :=
  match conf_str with
  | none => .error (.serverError "configuration file does not exist")
  | some text => (split 10 text).foldlM (readLine fresh) none

end ConfigurationManager

-- split_addr of parse_addrs.
def splitAddr (addr : Bytes) : Option (Bytes × UInt16) :=
  match getline 58 addr with
  | none => none
  | some (ip, stream) =>
    match getline 10 stream with
    | none => none
    | some (port_str, _) => (stoi port_str).map fun port => (ip, UInt16.ofInt port)

def parseAddrs (addrs : Bytes) : Option (List (Bytes × UInt16)) := (split 59 addrs).mapM splitAddr

-- The command line that main has parsed. An option that is not given is empty or 0.
structure Flags where
  mode : Bytes
  ip : Bytes
  port : UInt16
  participantAddrs : Bytes
  coordinatorAddr : Bytes

-- if (!ip.empty()) conf.addr = ip; if (port != 0) conf.port = port;
def Flags.override (flags : Flags) (conf : Configuration) : Configuration :=
  { conf with
    addr := if flags.ip = [] then conf.addr else flags.ip
    port := if flags.port = 0 then conf.port else flags.port }

-- What main does with the configuration from the file, up to the configuration that the
-- server it starts holds. Where the option is empty, parse_addrs is not called and
-- overrides nothing.
def startCoordinator (fresh : UInt16) (flags : Flags) (conf : CoordinatorConfiguration) :
    Except Refusal AnyConfiguration :=
  let conf := { conf with toConfiguration := flags.override conf.toConfiguration }
  if conf.participantAddrs = [] ∧ flags.participantAddrs = [] then
    .error (.aborted "coordinator was started with no participants")
  else
    match parseAddrs flags.participantAddrs with
    | none => .error (.aborted "invalid participant addresses")
    | some [] => .ok (.coordinator (conf.moved fresh))
    | some addrs =>
      let conf := { conf with
        participantAddrs := addrs.map Prod.fst, participantPorts := addrs.map Prod.snd }
      .ok (.coordinator (conf.moved fresh))

def startParticipant (fresh : UInt16) (flags : Flags) (conf : ParticipantConfiguration) :
    Except Refusal AnyConfiguration :=
  let conf := { conf with toConfiguration := flags.override conf.toConfiguration }
  if conf.coordinatorAddr = [] ∧ flags.coordinatorAddr = [] then
    .error (.aborted "participant was started with no coordinator")
  else
    match parseAddrs flags.coordinatorAddr with
    | none => .error (.aborted "invalid coordinator address")
    | some [] => .ok (.participant (conf.moved fresh))
    | some ((ip, port) :: _) =>
      let conf := { conf with coordinatorAddr := ip, coordinatorPort := port }
      .ok (.participant (conf.moved fresh))

def start (fresh : UInt16) (flags : Flags) (conf_ptr : Option AnyConfiguration) :
    Except Refusal AnyConfiguration :=
  match conf_ptr with
  | some (.coordinator conf) =>
    startCoordinator fresh flags ((CoordinatorConfiguration.new fresh).assign conf)
  | some (.participant conf) =>
    if flags.mode = bytes "coordinator" then .error (.configError "misamatching config")
    else startParticipant fresh flags ((ParticipantConfiguration.new fresh).assign conf)
  | none =>
    if flags.mode = bytes "coordinator" then startCoordinator fresh flags (.new fresh)
    else startParticipant fresh flags (.new fresh)

end CloudLabs.Cdb
