import CloudLabs.HttpServer.TcpSocket
import CloudLabs.Parsing.Fields

namespace CloudLabs.HttpServer

-- The exceptions that nobody catches, and back() of an empty string, which the
-- language leaves undefined.
inductive Fault where
  | invalidArgument
  | outOfRange
  | badAlloc
  | readFailure
  | emptyBack
  deriving DecidableEq, Repr

-- What std::ifstream finds under a name. Reading a directory throws.
inductive File where
  | absent
  | readable (content : Bytes)
  | unreadable

structure Host where
  contentBase : Bytes
  files : Bytes → File
  -- The sizes that operator new has memory for.
  allocates : Nat → Bool
  order : Order

-- c_str() as the system calls read it.
def cString (str : Bytes) : Bytes := str.takeWhile (· ≠ 0)

-- The name under which a file is opened. The empty one is refused.
def opened (filename : Bytes) : Option Bytes :=
  if cString filename = [] then none else some (cString filename)

def Host.ifstream (host : Host) (filename : Bytes) : File :=
  match opened filename with
  | none => .absent
  | some name => host.files name

section Text

-- The delimiters of the source are single characters.
def split (str : Bytes) (delim : UInt8) : List Bytes := Parsing.split delim str

def concat (strs : List Bytes) (delim : Bytes) : Bytes := delim.intercalate strs

-- ' ', '\t', '\r' and '\n'.
def isWhitespace (ch : UInt8) : Bool := ch = 32 || ch = 9 || ch = 13 || ch = 10

def trimWhitespace (s : Bytes) : Bytes := Parsing.trim isWhitespace s

-- std::stoll
def stoll (str : Bytes) : Except Fault Int :=
  match Parsing.readNumeral str with
  | none => .error .invalidArgument
  | some numeral =>
      if -2 ^ 63 ≤ numeral.value ∧ numeral.value < 2 ^ 63 then .ok numeral.value else .error .outOfRange

-- The method, the URI and the version; `none` for false.
def parseReqLine (line : Bytes) : Option (Bytes × Bytes × Bytes) :=
  match split (trimWhitespace line) 32 with
  | [method, uri, version] => some (method, uri, version)
  | _ => none

-- One round of the loop of parse_headers. Without a value there is no header.
def parseHeader (hd : Bytes) : Option (Bytes × Bytes) :=
  match split (trimWhitespace hd) 58 with
  | name :: value :: rest =>
      let value := if rest = [] then value else concat (value :: rest) (bytes ":")
      some (trimWhitespace name, trimWhitespace value)
  | _ => none

def putHeader (headers : Headers) (hd : Bytes) : Headers :=
  match parseHeader hd with
  | some (name, value) => headers.insert name value
  | none => headers

def parseHeaders (str : Bytes) : Headers := (split str 10).foldl putHeader ∅

-- A leading '.' goes when '/' and something more are behind it.
def normalizeUri (uri : Bytes) : Bytes :=
  match uri with
  | 46 :: 47 :: ch :: rest => 47 :: ch :: rest
  | _ => uri

def parseUri (contentBase uri : Bytes) : Except Fault Bytes :=
  let normalized := normalizeUri uri
  if normalized ≠ [] ∧ normalized.head? ≠ some 47 then .ok []
  else
    let f := contentBase ++ normalized
    match f.getLast? with
    | none => .error .emptyBack
    | some ch => .ok (if ch = 47 then f ++ bytes "index.html" else f)

-- One round of the loop of parse_name_id.
def putNameId (map : Headers) (pair : Bytes) : Headers :=
  match split pair 61 with
  | [name, id] => map.insert (trimWhitespace name) (trimWhitespace id)
  | _ => map

def parseNameId (data : Bytes) : Headers := (split data 38).foldl putNameId ∅

end Text

section Responses

variable (order : Order)

def serverName : Bytes := bytes "Cloud-fantasy server"

-- The three headers that every handler inserts.
def htmlHeaders (body : Bytes) : Headers :=
  (((∅ : Headers).insertIfNew (bytes "Server") serverName).insertIfNew
    (bytes "Content-type") (bytes "text/html")).insertIfNew
    (bytes "Content-length") (toString body.length)

def html (statusCode : Nat) (status body : Bytes) : Bytes :=
  { Response.new with
    statusCode := statusCode
    status := status
    headers := htmlHeaders body
    body := body }.serialize order

def pageNotFound (f : Bytes) : Bytes :=
  html order 404 (bytes "Page Not Found")
    (bytes "<html><title>404 Not Found</title><body bgcolor=\"FFFFFF\">\r\n" ++ bytes " Not Found\r\n" ++
      bytes "<p>Couldn't find this file: " ++ f ++ bytes "\r\n" ++
      bytes "<hr><em>HTTP Web server</em>\r\n" ++ bytes "</body></html>\r\n")

def internalError (msg : Bytes) : Bytes := html order 501 (bytes "Not Implemented") msg

def versionNotSupported : Bytes :=
  internalError order
    (bytes "<html><title>HTTP version not supported</title>" ++
      bytes "<body>\r\n" ++ bytes "<p>Unsupported HTTP version</p>" ++ bytes "</body></html>\r\n")

def methodNotSupported (m : Bytes) : Bytes :=
  internalError order
    (bytes "<html><title>501 Not implemented</title>" ++ bytes "<body>\r\n" ++ bytes " Not Implemented\r\n" ++
      bytes "<p>Does not implement this method: " ++ m ++ bytes "\r\n" ++
      bytes "<hr><em>HTTP Web server</em>\r\n" ++ bytes "</body></html>\r\n")

def postShow (name id : Bytes) : Bytes :=
  html order 200 (bytes "OK")
    (bytes "<html><title>POST method</title><body bgcolor=ffffff>\r\n" ++
      bytes "Your Name:   " ++ name ++ bytes "\r\n" ++ bytes "ID:  " ++ id ++ bytes "\r\n" ++
      bytes "<hr><em>Http Web server</em>\r\n" ++ bytes "</body></html>\r\n")

end Responses

section Serving

variable (host : Host)

-- The spellings in the order in which they are looked for.
def contentLens : List Bytes :=
  [bytes "content-length", bytes "Content-Length", bytes "Content-length"]

-- The value of the first spelling that is there.
def contentLength (headers : Headers) : Option Bytes := contentLens.findSome? fun CL => headers[CL]?

-- `fresh` is what the new buffer holds before anything is received.
def recvBody (fresh : Nat → UInt8) (headers : Headers) (peer : Peer) : Except Fault Bytes :=
  match contentLength headers with
  | none => .ok []
  | some text => do
      let contentLen ← stoll text
      if 0 < contentLen then
        let n := contentLen.toNat
        if host.allocates n then
          let received := (TcpSocket.recvBytes n peer).1
          return received ++ (List.range' received.length (n - received.length)).map fresh
        else throw .badAlloc
      else return []

-- The header loop, for as many rounds; `none` where these are not enough.
def recvHeaders : Nat → Bytes → Peer → Option (Bytes × Peer)
  | 0, _, _ => none
  | rounds + 1, headerStr, peer =>
      let (line, peer) := TcpSocket.recvLine peer
      if line = bytes "\r\n" then some (headerStr, peer) else recvHeaders rounds (headerStr ++ line) peer

-- What serve_client has when it dispatches. A request line that cannot be parsed is
-- not answered.
inductive Reading where
  | rejected
  | unsupported
  | request (req : Request)

def readRequest (fresh : Nat → UInt8) (rounds : Nat) (peer : Peer) : Option (Except Fault Reading) :=
  let (reqLine, peer) := TcpSocket.recvLine peer
  match parseReqLine reqLine with
  | none => some (.ok .rejected)
  | some (method, uri, version) =>
      if version ≠ bytes "HTTP/1.1" then some (.ok .unsupported)
      else
        (recvHeaders rounds [] peer).map fun (headerStr, peer) => do
          let headers := parseHeaders headerStr
          let body ← recvBody host fresh headers peer
          return .request ⟨version, method, headers, uri, body⟩

def handleGet (req : Request) : Except Fault Bytes := do
  let filename ← parseUri host.contentBase req.resource
  match host.ifstream filename with
  | .absent => return pageNotFound host.order req.resource
  | .unreadable => throw .readFailure
  | .readable content => return html host.order 200 (bytes "OK") content

def handlePost (req : Request) : Bytes :=
  let data := parseNameId req.body
  match data[bytes "Name"]?, data[bytes "ID"]? with
  | some name, some id =>
      if req.resource ≠ bytes "/Post_show" then pageNotFound host.order req.resource
      else postShow host.order name id
  | _, _ => pageNotFound host.order req.resource

-- What serve_client comes to: it closes the connection, or it has this to send.
inductive Outcome where
  | dropped
  | answered (sent : Bytes)
  deriving DecidableEq

def dispatch : Reading → Except Fault Outcome
  | .rejected => .ok .dropped
  | .unsupported => .ok (.answered (versionNotSupported host.order))
  | .request req =>
      if req.method = bytes "GET" then (handleGet host req).map .answered
      else if req.method = bytes "POST" then .ok (.answered (handlePost host req))
      else .ok (.answered (methodNotSupported host.order req.method))

-- serve_client up to its call of send.
def serveClient (fresh : Nat → UInt8) (rounds : Nat) (peer : Peer) : Option (Except Fault Outcome) :=
  (readRequest host fresh rounds peer).map fun reading => reading.bind (dispatch host)

-- How serve_client ends: it returns, an exception leaves it, or SIGPIPE does away with
-- the process.
inductive Served where
  | returned (outcome : Outcome)
  | threw (fault : Fault)
  | killed
  deriving DecidableEq

-- The call of send, if there is something to send.
def deliver (delivery : Delivery) : Except Fault Outcome → Option Served
  | .error fault => some (.threw fault)
  | .ok .dropped => some (.returned .dropped)
  | .ok (.answered sent) =>
      match delivery with
      | .sent | .failed => some (.returned (.answered sent))
      | .signalled => some .killed
      | .blocked => none

-- All of serve_client; `none` also where send does not come back.
def serveToEnd (fresh : Nat → UInt8) (rounds : Nat) (client : Client) : Option Served :=
  (serveClient host fresh rounds client.peer).bind (deliver client.delivery)

end Serving

end CloudLabs.HttpServer
