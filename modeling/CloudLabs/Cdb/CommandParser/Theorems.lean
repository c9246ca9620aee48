import CloudLabs.Cdb.CommandParser
import CloudLabs.Cdb.Participant
import CloudLabs.Parsing.Incoming

namespace CloudLabs.Cdb.CommandParser

open Parsing

section Steady

abbrev Steady {α : Type} (r : Parser α) : Prop := Reader.Steady ParseError.isIncomplete r

theorem isIncomplete_wanting (data : Bytes) : (wanting data).isIncomplete := by
  unfold wanting
  split <;> rfl

theorem readChar_steady : Steady readChar := Reader.Steady.next isIncomplete_wanting

theorem expectChar_steady (ch : UInt8) (msg : String) : Steady (expectChar ch msg) :=
  readChar_steady.bind fun _ => .ite _ (.fail _) (.pure ())

theorem expectSeparator_steady : Steady expectSeparator :=
  readChar_steady.bind fun _ => .ite _ (.fail _)
    (readChar_steady.bind fun _ => .ite _ (.fail _) (.pure ()))

theorem readNumElem_steady : Steady readNumElem := by
  refine (Reader.Steady.takeWhile isIncomplete_wanting).bind fun digits => ?_
  cases stol digits with
  | none => exact .fail _
  | some number => exact .pure number

theorem readBulkString_steady : Steady readBulkString :=
  (expectChar_steady _ _).bind fun _ => readNumElem_steady.bind fun numElem =>
    expectSeparator_steady.bind fun _ => readChar_steady.times numElem

theorem readCommandType_steady : Steady readCommandType :=
  readBulkString_steady.bind fun _ => .ite _ (.pure _) (.ite _ (.pure _) (.ite _ (.pure _) (.fail _)))

theorem readParts_steady (rounds : Nat) (stream : Bytes) : Steady (readParts rounds stream) := by
  induction rounds generalizing stream with
  | zero => exact .pure stream
  | succ rounds ih =>
      exact readBulkString_steady.bind fun part => expectSeparator_steady.bind fun _ => ih _

theorem readKeys_steady (rounds : Nat) (keys : List Bytes) : Steady (readKeys rounds keys) := by
  induction rounds generalizing keys with
  | zero => exact .pure keys
  | succ rounds ih =>
      exact readBulkString_steady.bind fun key => expectSeparator_steady.bind fun _ => ih _

theorem readGetCommand_steady (numElem : Nat) : Steady (readGetCommand numElem) :=
  .ite _ (.fail _) (readBulkString_steady.bind fun key => expectSeparator_steady.bind fun _ =>
    (readParts_steady _ key).bind fun _ => .pure _)

theorem readSetCommand_steady (numElem : Nat) : Steady (readSetCommand numElem) :=
  .ite _ (.fail _) (readBulkString_steady.bind fun _ => expectSeparator_steady.bind fun _ =>
    readBulkString_steady.bind fun value => expectSeparator_steady.bind fun _ =>
      (readParts_steady _ value).bind fun _ => .pure _)

theorem readDelCommand_steady (numElem : Nat) : Steady (readDelCommand numElem) :=
  .ite _ (.fail _) (readBulkString_steady.bind fun key => expectSeparator_steady.bind fun _ =>
    (readKeys_steady _ [key]).bind fun _ => .pure _)

end Steady

-- read_command up to the separator behind the name of the command: the announced
-- number of elements and the type.
def readHeader : Parser (Nat × CommandType) := do
  expectChar 42 "mismatching char"
  let numElem ← readNumElem
  expectSeparator
  let type ← readCommandType
  expectSeparator
  return (numElem, type)

-- What follows the name.
def readArguments (header : Nat × CommandType) : Parser Command :=
  if header.2 = CMD_GET then readGetCommand header.1
  else if header.2 = CMD_SET then readSetCommand header.1
  else if header.2 = CMD_DEL then readDelCommand header.1
  else Reader.fail (.syntaxError "unregconized command")

theorem readCommand_eq : readCommand = readHeader >>= readArguments := by
  unfold readCommand readHeader
  simp only [bind_assoc, pure_bind, readArguments]

theorem readHeader_steady : Steady readHeader :=
  (expectChar_steady _ _).bind fun _ => readNumElem_steady.bind fun _ =>
    expectSeparator_steady.bind fun _ => readCommandType_steady.bind fun _ =>
      expectSeparator_steady.bind fun _ => .pure _

theorem readArguments_steady (header : Nat × CommandType) : Steady (readArguments header) :=
  .ite _ (readGetCommand_steady _) (.ite _ (readSetCommand_steady _)
    (.ite _ (readDelCommand_steady _) (.fail _)))

theorem readCommand_steady : Steady readCommand := by
  rw [readCommand_eq]
  exact readHeader_steady.bind readArguments_steady

section Progress

abbrev Progresses {α : Type} (r : Parser α) : Prop := Reader.Progresses ParseError.isIncomplete r

theorem readChar_progresses : Progresses readChar := Reader.Progresses.next isIncomplete_wanting

theorem expectChar_progresses (ch : UInt8) (msg : String) : Progresses (expectChar ch msg) :=
  readChar_progresses.bind readChar_steady fun _ => .ite _ (.fail _) (.pure ())

theorem readBulkString_progresses : Progresses readBulkString :=
  (expectChar_progresses _ _).bind (expectChar_steady _ _) fun _ =>
    readNumElem_steady.bind fun numElem => expectSeparator_steady.bind fun _ =>
      readChar_steady.times numElem

theorem readCommand_progresses : Progresses readCommand := by
  rw [readCommand_eq]
  refine Reader.Progresses.bind ?_ readHeader_steady readArguments_steady
  exact (expectChar_progresses _ _).bind (expectChar_steady _ _) fun _ =>
    readNumElem_steady.bind fun _ => expectSeparator_steady.bind fun _ =>
      readCommandType_steady.bind fun _ => expectSeparator_steady.bind fun _ => .pure _

end Progress

end CloudLabs.Cdb.CommandParser
