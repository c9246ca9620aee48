import Std.Data.ExtTreeMap
import CloudLabs.Parsing.Numbers

namespace CloudLabs.HttpServer

-- std::string and std::vector<char>.
abbrev Bytes := List UInt8

-- The bytes of a string literal of the source.
def bytes (text : String) : Bytes := text.toUTF8.data.toList

-- std::to_string of an unsigned number.
def toString (number : Nat) : Bytes := Parsing.decimal number

-- LINE_END
def lineEnd : Bytes := bytes "\r\n"

-- The unordered_map under the class of the same name.
abbrev Headers := Std.ExtTreeMap Bytes Bytes

-- How an unordered_map goes over its pairs: each of them once, in an order that
-- nothing specifies.
structure Order where
  list : Headers → List (Bytes × Bytes)
  perm : ∀ headers, (list headers).Perm headers.toList

def Order.sorted : Order := ⟨fun headers => headers.toList, fun _ => .refl _⟩

def Headers.serialize (order : Order) (headers : Headers) : Bytes :=
  (order.list headers).flatMap fun KV => KV.1 ++ bytes ": " ++ KV.2 ++ lineEnd

structure Request where
  version : Bytes
  method : Bytes
  headers : Headers
  resource : Bytes
  body : Bytes

-- Nothing stands between the resource and the version.
def Request.serialize (order : Order) (req : Request) : Bytes :=
  req.method ++ bytes " " ++ req.resource ++ req.version ++ lineEnd ++
    (Headers.serialize order req.headers ++ (lineEnd ++ (req.body ++ lineEnd)))

-- The method of a response is not read.
structure Response where
  version : Bytes
  headers : Headers
  statusCode : Nat
  status : Bytes
  body : Bytes

def Response.new : Response := ⟨bytes "HTTP/1.1", ∅, 0, [], []⟩

def Response.serialize (order : Order) (res : Response) : Bytes :=
  res.version ++ bytes " " ++ toString res.statusCode ++ bytes " " ++ res.status ++ lineEnd ++
    (Headers.serialize order res.headers ++ (lineEnd ++ (res.body ++ lineEnd)))

end CloudLabs.HttpServer
