import CloudLabs.Cdb.Resp

namespace CloudLabs.Cdb

open Parsing CommandParser Participant

-- std::vector<char>::max_size()
def maxSize : Nat := 2 ^ 63 - 1

-- A command as a client sends it, with at least the strings that it needs.
inductive ClientCommand where
  | get (part : Bytes) (parts : List Bytes)
  | set (key part : Bytes) (parts : List Bytes)
  | del (key : Bytes) (keys : List Bytes)

-- The parts with single spaces between them.
def joinParts (part : Bytes) (parts : List Bytes) : Bytes := [32].intercalate (part :: parts)

namespace ClientCommand

def name : ClientCommand → Bytes
  | .get _ _ => bytes "GET"
  | .set _ _ _ => bytes "SET"
  | .del _ _ => bytes "DEL"

def args : ClientCommand → List Bytes
  | .get part parts => part :: parts
  | .set key part parts => key :: part :: parts
  | .del key keys => key :: keys

def encode (cmd : ClientCommand) : Bytes := encodeArray (cmd.name :: cmd.args)

-- What the server makes of it.
def toCommand : ClientCommand → Command
  | .get part parts => .get ⟨joinParts part parts⟩
  | .set key part parts => .set ⟨0, key, joinParts part parts⟩
  | .del key keys => .del ⟨0, key :: keys⟩

end ClientCommand

theorem joinParts_eq (part : Bytes) (parts : List Bytes) :
    joinParts part parts = part ++ parts.flatMap fun part => [32] ++ part := by
  induction parts generalizing part with
  | nil => simp [joinParts]
  | cons next parts ih =>
      have hnext := ih next
      unfold joinParts at hnext ⊢
      rw [List.intercalate_cons_cons, hnext, List.flatMap_cons]
      simp

section Reads

def Fits (strs : List Bytes) : Prop := ∀ str ∈ strs, str.length < 2 ^ 63

theorem Fits.of_cons {str : Bytes} {strs : List Bytes} (h : Fits (str :: strs)) :
    str.length < 2 ^ 63 ∧ Fits strs := List.forall_mem_cons.mp h

theorem readParts_reads {parts : List Bytes} (h : Fits parts) (stream : Bytes) :
    Reader.Reads (readParts parts.length stream) (parts.flatMap encodeBulkString)
      (stream ++ parts.flatMap fun part => [32] ++ part) := by
  induction parts generalizing stream with
  | nil =>
      rw [List.flatMap_nil, List.flatMap_nil, List.append_nil]
      exact .pure stream
  | cons part parts ih =>
      obtain ⟨hpart, hparts⟩ := h.of_cons
      have hrest := ih hparts (stream ++ [32] ++ part)
      rw [List.flatMap_cons, List.flatMap_cons, ← List.append_assoc stream, ← List.append_assoc stream]
      exact element_reads hpart hrest

theorem readKeys_reads {more : List Bytes} (h : Fits more) (keys : List Bytes) :
    Reader.Reads (readKeys more.length keys) (more.flatMap encodeBulkString) (keys ++ more) := by
  induction more generalizing keys with
  | nil =>
      rw [List.append_nil]
      exact .pure keys
  | cons key more ih =>
      obtain ⟨hkey, hmore⟩ := h.of_cons
      have hrest := ih hmore (keys ++ [key])
      rw [List.append_assoc] at hrest
      exact element_reads hkey hrest

theorem readGetCommand_reads {part : Bytes} {parts : List Bytes} (h : Fits (part :: parts)) :
    Reader.Reads (readGetCommand (parts.length + 2)) ((part :: parts).flatMap encodeBulkString)
      (.get ⟨joinParts part parts⟩) := by
  obtain ⟨hpart, hrest⟩ := h.of_cons
  have hparts := readParts_reads hrest part
  have hget : Reader.Reads (do let key ← readParts parts.length part; return .get ⟨key⟩)
      (parts.flatMap encodeBulkString ++ []) (.get ⟨joinParts part parts⟩ : Command) := by
    rw [joinParts_eq]
    exact hparts.bind (.pure _)
  rw [List.append_nil] at hget
  unfold readGetCommand
  rw [if_neg (by omega), Nat.add_sub_cancel]
  exact element_reads hpart hget

theorem readSetCommand_reads {key part : Bytes} {parts : List Bytes} (h : Fits (key :: part :: parts)) :
    Reader.Reads (readSetCommand (parts.length + 3)) ((key :: part :: parts).flatMap encodeBulkString)
      (.set ⟨0, key, joinParts part parts⟩) := by
  obtain ⟨hkey, hvalue⟩ := h.of_cons
  obtain ⟨hpart, hrest⟩ := hvalue.of_cons
  have hparts := readParts_reads hrest part
  have hset : Reader.Reads (do let value ← readParts parts.length part; return .set ⟨0, key, value⟩)
      (parts.flatMap encodeBulkString ++ []) (.set ⟨0, key, joinParts part parts⟩ : Command) := by
    rw [joinParts_eq]
    exact hparts.bind (.pure _)
  rw [List.append_nil] at hset
  unfold readSetCommand
  rw [if_neg (by omega), Nat.add_sub_cancel]
  exact element_reads hkey (element_reads hpart hset)

theorem readDelCommand_reads {key : Bytes} {keys : List Bytes} (h : Fits (key :: keys)) :
    Reader.Reads (readDelCommand (keys.length + 2)) ((key :: keys).flatMap encodeBulkString)
      (.del ⟨0, key :: keys⟩) := by
  obtain ⟨hkey, hrest⟩ := h.of_cons
  have hkeys := readKeys_reads hrest [key]
  have hdel : Reader.Reads (do let keys ← readKeys keys.length [key]; return .del ⟨0, keys⟩)
      (keys.flatMap encodeBulkString ++ []) (.del ⟨0, key :: keys⟩ : Command) := hkeys.bind (.pure _)
  rw [List.append_nil] at hdel
  unfold readDelCommand
  rw [if_neg (by omega), Nat.add_sub_cancel]
  exact element_reads hkey hdel

theorem readCommandType_reads {name : Bytes} {type : CommandType}
    (h : (name, type) ∈ [(bytes "GET", CMD_GET), (bytes "SET", CMD_SET), (bytes "DEL", CMD_DEL)]) :
    name.length < 2 ^ 63 ∧ Reader.Reads readCommandType
      (bytes "$" ++ (toString name.length ++ (separator ++ name))) type := by
  have hlen : name.length < 2 ^ 63 := by
    simp only [List.mem_cons, Prod.mk.injEq, List.not_mem_nil, or_false] at h
    rcases h with ⟨rfl, -⟩ | ⟨rfl, -⟩ | ⟨rfl, -⟩ <;> decide
  have htype : (if name = bytes "GET" then pure CMD_GET
      else if name = bytes "SET" then pure CMD_SET
      else if name = bytes "DEL" then pure CMD_DEL
      else Reader.fail (.syntaxError "unknown command type") : Parser CommandType) = pure type := by
    simp only [List.mem_cons, Prod.mk.injEq, List.not_mem_nil, or_false] at h
    rcases h with ⟨rfl, rfl⟩ | ⟨rfl, rfl⟩ | ⟨rfl, rfl⟩ <;> rfl
  refine ⟨hlen, ?_⟩
  have hread : Reader.Reads readCommandType
      (bytes "$" ++ (toString name.length ++ (separator ++ name)) ++ []) type := by
    refine Reader.Reads.bind (readBulkString_reads hlen) ?_
    rw [htype]
    exact .pure type
  rw [List.append_nil] at hread
  exact hread

-- The array of a name and its arguments.
theorem readCommand_reads {name : Bytes} {args : List Bytes} {type : CommandType} {cmd : Command}
    (hcount : (name :: args).length < 2 ^ 63)
    (htype : (name, type) ∈ [(bytes "GET", CMD_GET), (bytes "SET", CMD_SET), (bytes "DEL", CMD_DEL)])
    (hargs : Reader.Reads (readArguments ((name :: args).length, type))
      (args.flatMap encodeBulkString) cmd) :
    Reader.Reads readCommand (encodeArray (name :: args)) cmd := by
  obtain ⟨-, hname⟩ := readCommandType_reads htype
  have hrest : Reader.Reads (do
      let type ← readCommandType
      expectSeparator
      readArguments ((name :: args).length, type))
      (bytes "$" ++ (toString name.length ++ (separator ++ name)) ++
        (separator ++ args.flatMap encodeBulkString)) cmd :=
    hname.bind (expectSeparator_reads.bind hargs)
  have hnumber : Reader.Reads (do
      let numElem ← readNumElem
      expectSeparator
      let type ← readCommandType
      expectSeparator
      readArguments (numElem, type))
      (toString (name :: args).length ++ (separator ++
        (bytes "$" ++ (toString name.length ++ (separator ++ name)) ++
          (separator ++ args.flatMap encodeBulkString)))) cmd :=
    readNumElem_reads hcount (expectSeparator_reads.bind hrest)
  have hword : encodeArray (name :: args) = bytes "*" ++ (toString (name :: args).length ++ (separator ++
      (bytes "$" ++ (toString name.length ++ (separator ++ name)) ++
        (separator ++ args.flatMap encodeBulkString)))) := by
    simp [encodeArray, encodeBulkString]
  rw [hword]
  exact (expectChar_reads 42 "mismatching char").bind hnumber

end Reads

section Sizes

theorem length_le_encodeBulkString (str : Bytes) : str.length < (encodeBulkString str).length := by
  simp only [encodeBulkString, List.length_append]
  have hdollar : (bytes "$").length = 1 := rfl
  omega

theorem length_le_flatMap {str : Bytes} {strs : List Bytes} (h : str ∈ strs) :
    (encodeBulkString str).length ≤ (strs.flatMap encodeBulkString).length := by
  obtain ⟨before, after, rfl⟩ := List.append_of_mem h
  simp only [List.flatMap_append, List.flatMap_cons, List.length_append]
  omega

theorem count_le_flatMap (strs : List Bytes) : strs.length ≤ (strs.flatMap encodeBulkString).length := by
  induction strs with
  | nil => exact Nat.le_refl _
  | cons str strs ih =>
      have hstr := length_le_encodeBulkString str
      simp only [List.flatMap_cons, List.length_append, List.length_cons]
      omega

theorem flatMap_lt_encodeArray (strs : List Bytes) :
    (strs.flatMap encodeBulkString).length < (encodeArray strs).length := by
  have hstar : (bytes "*").length = 1 := rfl
  simp only [encodeArray, List.length_append]
  omega

-- Every string of an array that a vector can hold has a length that is a long.
theorem fits_of_encodeArray {strs : List Bytes} (h : (encodeArray strs).length ≤ maxSize) :
    strs.length < 2 ^ 63 ∧ Fits strs := by
  have hflat := flatMap_lt_encodeArray strs
  have hcount := count_le_flatMap strs
  unfold maxSize at h
  refine ⟨by omega, fun str hstr => ?_⟩
  have hlen := length_le_encodeBulkString str
  have hmem := length_le_flatMap hstr
  omega

end Sizes

namespace ClientCommand

theorem reads (cmd : ClientCommand) (h : cmd.encode.length ≤ maxSize) :
    Reader.Reads readCommand cmd.encode cmd.toCommand := by
  obtain ⟨hcount, hfits⟩ := fits_of_encodeArray h
  obtain ⟨-, hargs⟩ := hfits.of_cons
  cases cmd with
  | get part parts =>
      have hget : Reader.Reads (readArguments (parts.length + 2, CMD_GET))
          ((part :: parts).flatMap encodeBulkString) _ := readGetCommand_reads hargs
      exact readCommand_reads hcount (by simp [name]) hget
  | set key part parts =>
      have hset : Reader.Reads (readArguments (parts.length + 3, CMD_SET))
          ((key :: part :: parts).flatMap encodeBulkString) _ := readSetCommand_reads hargs
      exact readCommand_reads hcount (by simp [name]) hset
  | del key keys =>
      have hdel : Reader.Reads (readArguments (keys.length + 2, CMD_DEL))
          ((key :: keys).flatMap encodeBulkString) _ := readDelCommand_reads hargs
      exact readCommand_reads hcount (by simp [name]) hdel

-- Pipelined commands come back one by one, and all bytes are parsed.
theorem parseDbRequests_encode (cmds : List ClientCommand)
    (hfits : (cmds.flatMap encode).length ≤ maxSize) :
    parseDbRequests (cmds.flatMap encode) =
      (cmds.map toCommand, (cmds.flatMap encode).length, none) := by
  have hreads : ∀ cmd ∈ cmds, Reader.Reads readCommand cmd.encode cmd.toCommand ∧ cmd.encode ≠ [] := by
    intro cmd hcmd
    obtain ⟨before, after, rfl⟩ := List.append_of_mem hcmd
    simp only [List.flatMap_append, List.flatMap_cons, List.length_append] at hfits
    have hlen := flatMap_lt_encodeArray (cmd.name :: cmd.args)
    exact ⟨cmd.reads (by omega), List.ne_nil_of_length_pos (by unfold encode; omega)⟩
  have hrun := ReadsTo.of_reads [] hreads
  have hall := ReadsTo.readAll readCommand_steady readCommand_progresses (cmds.flatMap encode)
  obtain ⟨hcmds, hlast, hstop⟩ := hall.unique hrun
  exact Prod.ext hcmds (Prod.ext hlast hstop)

theorem parseDbRequests_encode_pipelined :
    parseDbRequests ([get [0] [], set [] [32] [[13, 10]], del [36] [[], [42]]].flatMap encode) =
      ([.get ⟨[0]⟩, .set ⟨0, [], [32, 32, 13, 10]⟩, .del ⟨0, [[36], [], [42]]⟩], 87, none) :=
  parseDbRequests_encode [get [0] [], set [] [32] [[13, 10]], del [36] [[], [42]]] (by decide)

end ClientCommand

end CloudLabs.Cdb
