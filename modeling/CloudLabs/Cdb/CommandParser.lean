import CloudLabs.Cdb.Command
import CloudLabs.Parsing.Reader

namespace CloudLabs.Cdb

open Parsing

-- _parse_incomplete_error and _parse_syntax_error.
inductive ParseError where
  | incomplete (what : String)
  | syntaxError (what : String)
  deriving DecidableEq, Repr

def ParseError.isIncomplete : ParseError → Bool
  | .incomplete _ => true
  | .syntaxError _ => false

-- A member function of command_parser: the buffer is data_, the position idx_.
abbrev Parser (α : Type) := Reader ParseError UInt8 α

namespace CommandParser

-- What peek_char throws at the end of the data.
def wanting (data : Bytes) : ParseError :=
  if data = [] then .incomplete "fail reading from client" else .incomplete "incomplete command"

def peekChar : Parser UInt8 := Reader.peek wanting

def readChar : Parser UInt8 := do
  let ch ← peekChar
  Reader.advance
  return ch

def expectChar (ch : UInt8) (msg : String) : Parser Unit := do
  let c ← readChar
  if c ≠ ch then Reader.fail (.syntaxError msg) else pure ()

-- '\r' and '\n'.
def expectSeparator : Parser Unit := do
  let c ← readChar
  if c ≠ 13 then Reader.fail (.syntaxError "expect separator")
  else do
    let c ← readChar
    if c ≠ 10 then Reader.fail (.syntaxError "expect separator") else pure ()

def isNumeric (ch : UInt8) : Bool := Parsing.isDigit ch

-- std::stol on a string of digits, which throws if it is empty or if the number
-- is not a long.
def stol (digits : Bytes) : Option Nat :=
  let number := Parsing.value digits
  if digits = [] then none else if number < 2 ^ 63 then some number else none

def readNumElem : Parser Nat := do
  let digits ← Reader.takeWhile isNumeric wanting
  match stol digits with
  | some number => pure number
  | none => Reader.fail (.syntaxError "error read_num_elem")

def readBulkString : Parser Bytes := do
  expectChar 36 "expecting '$'"
  let numElem ← readNumElem
  expectSeparator
  Reader.times readChar numElem

def readCommandType : Parser CommandType := do
  let type ← readBulkString
  if type = bytes "GET" then pure CMD_GET
  else if type = bytes "SET" then pure CMD_SET
  else if type = bytes "DEL" then pure CMD_DEL
  else Reader.fail (.syntaxError "unknown command type")

-- The loops of GET and SET behind the first part, for that many rounds.
def readParts : Nat → Bytes → Parser Bytes
  | 0, stream => pure stream
  | rounds + 1, stream => do
      let part ← readBulkString
      expectSeparator
      readParts rounds (stream ++ [32] ++ part)

-- The loop of DEL behind the first key.
def readKeys : Nat → List Bytes → Parser (List Bytes)
  | 0, keys => pure keys
  | rounds + 1, keys => do
      let key ← readBulkString
      expectSeparator
      readKeys rounds (keys ++ [key])

-- The loop counts from 2 to `numElem`.
def readGetCommand (numElem : Nat) : Parser Command :=
  if numElem = 0 then Reader.fail (.syntaxError "mismatching args")
  else do
    let key ← readBulkString
    expectSeparator
    let key ← readParts (numElem - 2) key
    return .get ⟨key⟩

-- The loop counts from 3 to `numElem`.
def readSetCommand (numElem : Nat) : Parser Command :=
  if numElem < 2 then Reader.fail (.syntaxError "missing args")
  else do
    let key ← readBulkString
    expectSeparator
    let value ← readBulkString
    expectSeparator
    let value ← readParts (numElem - 3) value
    return .set ⟨0, key, value⟩

def readDelCommand (numElem : Nat) : Parser Command :=
  if numElem = 0 then Reader.fail (.syntaxError "mising args")
  else do
    let key ← readBulkString
    expectSeparator
    let keys ← readKeys (numElem - 2) [key]
    return .del ⟨0, keys⟩

def readCommand : Parser Command := do
  expectChar 42 "mismatching char"
  let numElem ← readNumElem
  expectSeparator
  let type ← readCommandType
  expectSeparator
  if type = CMD_GET then readGetCommand numElem
  else if type = CMD_SET then readSetCommand numElem
  else if type = CMD_DEL then readDelCommand numElem
  else Reader.fail (.syntaxError "unregconized command")

end CommandParser

-- coordinator::parse_db_requests: the commands, bytes_parsed, and the exception
-- that it ends in if it does.
def parseDbRequests (data : Bytes) : List Command × Nat × Option ParseError :=
  Reader.readAll CommandParser.readCommand data

end CloudLabs.Cdb
