import CloudLabs.Parsing.Numbers
import Mathlib.Data.UInt
import Std.Data.ExtTreeMap
import Std.Data.ExtTreeSet

namespace CloudLabs.Cdb

-- std::string and std::vector<char>: any sequence of bytes, ordered bytewise.
abbrev Bytes := List UInt8

-- The bytes of a string literal of the source.
def bytes (text : String) : Bytes := text.toUTF8.data.toList

-- std::to_string of an unsigned number.
def toString (number : Nat) : Bytes := Parsing.decimal number

-- What a call can end in instead of returning: one of the exceptions of
-- errors.hpp, or behaviour that the language leaves undefined.
inductive Fault where
  | logError (what : String)
  | serverError (what : String)
  | outOfBounds
  | nullDereference
  | endDereference
  | deadlock
  deriving DecidableEq, Repr

abbrev CommandType := UInt8

def CMD_GET : CommandType := 0
def CMD_SET : CommandType := 1
def CMD_DEL : CommandType := 2

structure GetCommand where
  key : Bytes
  deriving DecidableEq, Repr

structure SetCommand where
  id : UInt32
  key : Bytes
  value : Bytes
  deriving DecidableEq, Repr

structure DelCommand where
  id : UInt32
  keys : List Bytes
  deriving DecidableEq, Repr

-- What a pointer to the base class refers to.
inductive Command where
  | get (cmd : GetCommand)
  | set (cmd : SetCommand)
  | del (cmd : DelCommand)
  deriving DecidableEq, Repr

namespace Command

def type : Command → CommandType
  | .get _ => CMD_GET
  | .set _ => CMD_SET
  | .del _ => CMD_DEL

-- GET keeps the base class's id().
def id : Command → UInt32
  | .get _ => 0
  | .set cmd => cmd.id
  | .del cmd => cmd.id

-- SET and DEL.
def isUpdate : Command → Bool
  | .get _ => false
  | _ => true

def setId (id : UInt32) : Command → Command
  | .get cmd => .get cmd
  | .set cmd => .set { cmd with id }
  | .del cmd => .del { cmd with id }

@[simp] theorem isUpdate_setId (id : UInt32) (cmd : Command) : (cmd.setId id).isUpdate = cmd.isUpdate := by
  cases cmd <;> rfl

theorem id_setId {cmd : Command} (h : cmd.isUpdate) (id : UInt32) : (cmd.setId id).id = id := by
  cases cmd with
  | get cmd => cases h
  | set cmd => rfl
  | del cmd => rfl

end Command

end CloudLabs.Cdb
