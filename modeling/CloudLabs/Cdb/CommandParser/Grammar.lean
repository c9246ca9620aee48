import CloudLabs.Cdb.CommandParser.RoundTrip
import CloudLabs.Parsing.Grammar

namespace CloudLabs.Cdb

open Parsing CommandParser

-- How the words of the protocol are spelled.
namespace Spelling

-- A number as std::stol reads it, which may begin with zeros.
def Number : Language UInt8 Nat := fun word number => (∀ ch ∈ word, isNumeric ch) ∧ stol word = some number

def BulkString : Language UInt8 Bytes := fun word str =>
  ∃ digits, Number digits str.length ∧ word = bytes "$" ++ digits ++ separator ++ str

def Element : Language UInt8 Bytes := fun word str => ∃ first, BulkString first str ∧ word = first ++ separator

def Elements (word : Bytes) (strs : List Bytes) : Prop :=
  ∃ words, List.Forall₂ Element words strs ∧ word = words.flatten

inductive Named : Bytes → CommandType → Prop
  | get : Named (bytes "GET") CMD_GET
  | set : Named (bytes "SET") CMD_SET
  | del : Named (bytes "DEL") CMD_DEL

-- What is made of the arguments. The number is the one that the array announces: one
-- that is too small by one is made up for.
inductive Made (numElem : Nat) : CommandType → List Bytes → Command → Prop
  | get {part : Bytes} {parts : List Bytes} (hnum : numElem ≠ 0) (hparts : parts.length = numElem - 2) :
      Made numElem CMD_GET (part :: parts) (.get ⟨joinParts part parts⟩)
  | set {key part : Bytes} {parts : List Bytes} (hnum : 2 ≤ numElem) (hparts : parts.length = numElem - 3) :
      Made numElem CMD_SET (key :: part :: parts) (.set ⟨0, key, joinParts part parts⟩)
  | del {key : Bytes} {keys : List Bytes} (hnum : numElem ≠ 0) (hkeys : keys.length = numElem - 2) :
      Made numElem CMD_DEL (key :: keys) (.del ⟨0, key :: keys⟩)

def Request : Language UInt8 Command := fun word cmd => ∃ digits numElem rest name type args,
  Number digits numElem ∧ Named name type ∧ Elements rest (name :: args) ∧ Made numElem type args cmd ∧
    word = bytes "*" ++ digits ++ separator ++ rest

end Spelling

namespace CommandParser

open Spelling Reader

section Strings

theorem readChar_recognises : Recognises readChar fun word ch => word = [ch] := Recognises.element wanting

theorem expectChar_recognises (ch : UInt8) (msg : String) :
    Recognises (expectChar ch msg) fun word _ => word = [ch] := by
  refine (readChar_recognises.bind fun c => Recognises.ite (fun _ => .fail _) fun _ => .pure ()).congr
    fun word value => ⟨?_, ?_⟩
  · rintro ⟨first, second, c, rfl, rfl, ⟨-, hfail⟩ | ⟨hsame, rfl, -⟩⟩
    · exact hfail.elim
    · rw [not_not.mp hsame, List.append_nil]
  · rintro rfl
    exact ⟨[ch], [], ch, rfl, rfl, .inr ⟨by simp, rfl, rfl⟩⟩

theorem expectSeparator_recognises : Recognises expectSeparator fun word _ => word = separator := by
  refine (readChar_recognises.bind fun c => Recognises.ite (fun _ => .fail _) fun _ =>
    readChar_recognises.bind fun c => Recognises.ite (fun _ => .fail _) fun _ => .pure ()).congr
    fun word value => ⟨?_, ?_⟩
  · rintro ⟨first, second, c, rfl, rfl, ⟨-, hfail⟩ | ⟨hreturn, third, last, d, rfl, rfl, hlast⟩⟩
    · exact hfail.elim
    · rcases hlast with ⟨-, hfail⟩ | ⟨hnewline, rfl, -⟩
      · exact hfail.elim
      · rw [not_not.mp hreturn, not_not.mp hnewline]
        rfl
  · rintro rfl
    exact ⟨[13], [10], 13, rfl, rfl, .inr ⟨by simp, [10], [], 10, rfl, rfl, .inr ⟨by simp, rfl, rfl⟩⟩⟩

-- A number ends where the separator begins.
theorem number_recognises {α : Type} {next : Nat → Parser α} {M : Nat → Language UInt8 α}
    (hnext : ∀ number, Recognises (next number) (M number)) :
    Recognises (do let number ← readNumElem; expectSeparator; next number) fun word value =>
      ∃ digits number rest, Number digits number ∧ M number rest value ∧ word = digits ++ separator ++ rest := by
  have hbehind : ∀ number, Recognises (do expectSeparator; next number) fun word value =>
      ∃ rest, M number rest value ∧ word = separator ++ rest := fun number =>
    (expectSeparator_recognises.bind fun _ => hnext number).congr fun word value => by
      constructor
      · rintro ⟨_, rest, _, rfl, rfl, hrest⟩
        exact ⟨rest, hrest, rfl⟩
      · rintro ⟨rest, hrest, rfl⟩
        exact ⟨separator, rest, (), rfl, rfl, hrest⟩
  unfold readNumElem
  rw [bind_assoc]
  refine (Recognises.takeWhile (M := fun digits word value => ∃ number rest, stol digits = some number ∧
    M number rest value ∧ word = separator ++ rest) (fun digits => ?_) ?_).congr fun word value => ⟨?_, ?_⟩
  · cases hnumber : stol digits with
    | none => exact ((Recognises.fail _).bind hbehind).congr fun word value => by simp
    | some number =>
        rw [pure_bind]
        exact (hbehind number).congr fun word value => by simp
  · rintro digits _ value ⟨number, rest, -, -, rfl⟩
    exact ⟨13, 10 :: rest, rfl, rfl⟩
  · rintro ⟨digits, _, rfl, hnumeric, number, rest, hnumber, hrest, rfl⟩
    exact ⟨digits, number, rest, ⟨hnumeric, hnumber⟩, hrest, (List.append_assoc _ _ _).symm⟩
  · rintro ⟨digits, number, rest, ⟨hnumeric, hnumber⟩, hrest, rfl⟩
    exact ⟨digits, separator ++ rest, List.append_assoc _ _ _, hnumeric, number, rest, hnumber, hrest, rfl⟩

theorem chars_iff {words : List Bytes} {str : Bytes} :
    List.Forall₂ (fun word ch => word = [ch]) words str ↔ words = str.map fun ch => [ch] := by
  constructor
  · intro h
    induction h with
    | nil => rfl
    | cons hword _ ih => rw [hword, ih, List.map_cons]
  · rintro rfl
    induction str with
    | nil => exact .nil
    | cons ch str ih => exact .cons rfl ih

theorem chars_flatten (str : Bytes) : (str.map fun ch => [ch]).flatten = str := by
  rw [← List.flatMap_def, List.flatMap_singleton']

theorem readBulkString_recognises : Recognises readBulkString BulkString := by
  have hrest := number_recognises fun number => readChar_recognises.times number
  refine ((expectChar_recognises 36 _).bind fun _ => hrest).congr fun word str => ⟨?_, ?_⟩
  · rintro ⟨_, _, _, rfl, rfl, digits, number, _, hnumber, ⟨words, rfl, hwords, rfl⟩, rfl⟩
    rw [chars_iff.mp hwords, chars_flatten]
    exact ⟨digits, hnumber, rfl⟩
  · rintro ⟨digits, hnumber, rfl⟩
    refine ⟨[36], digits ++ separator ++ str, (), rfl, rfl, digits, str.length, str, hnumber, ?_, rfl⟩
    exact ⟨str.map fun ch => [ch], (chars_flatten str).symm, chars_iff.mpr rfl, rfl⟩

theorem element_recognises {α : Type} {next : Bytes → Parser α} {M : Bytes → Language UInt8 α}
    (hnext : ∀ str, Recognises (next str) (M str)) :
    Recognises (do let str ← readBulkString; expectSeparator; next str) fun word value =>
      ∃ first str rest, Element first str ∧ M str rest value ∧ word = first ++ rest := by
  refine (readBulkString_recognises.bind fun str => expectSeparator_recognises.bind fun _ => hnext str).congr
    fun word value => ⟨?_, ?_⟩
  · rintro ⟨first, _, str, rfl, hfirst, _, rest, _, rfl, rfl, hrest⟩
    exact ⟨first ++ separator, str, rest, ⟨first, hfirst, rfl⟩, hrest, (List.append_assoc _ _ _).symm⟩
  · rintro ⟨_, str, rest, ⟨first, hfirst, rfl⟩, hrest, rfl⟩
    exact ⟨first, separator ++ rest, str, List.append_assoc _ _ _, hfirst, separator, rest, (), rfl, rfl, hrest⟩

end Strings

section Arguments

theorem elements_nil {word : Bytes} : Spelling.Elements word [] ↔ word = [] := by
  constructor
  · rintro ⟨words, hwords, rfl⟩
    cases hwords
    rfl
  · rintro rfl
    exact ⟨[], .nil, rfl⟩

theorem elements_cons {word str : Bytes} {strs : List Bytes} :
    Spelling.Elements word (str :: strs) ↔
      ∃ first rest, Element first str ∧ Spelling.Elements rest strs ∧ word = first ++ rest := by
  constructor
  · rintro ⟨words, hwords, rfl⟩
    cases hwords with
    | cons hfirst hrest => exact ⟨_, _, hfirst, ⟨_, hrest, rfl⟩, rfl⟩
  · rintro ⟨first, _, hfirst, ⟨words, hwords, rfl⟩, rfl⟩
    exact ⟨first :: words, .cons hfirst hwords, rfl⟩

theorem readParts_recognises (rounds : Nat) (stream : Bytes) :
    Recognises (readParts rounds stream) fun word value => ∃ parts, parts.length = rounds ∧
      Spelling.Elements word parts ∧ value = stream ++ parts.flatMap fun part => [32] ++ part := by
  induction rounds generalizing stream with
  | zero =>
      refine (Recognises.pure stream).congr fun word value => ⟨?_, ?_⟩
      · rintro ⟨rfl, rfl⟩
        exact ⟨[], rfl, elements_nil.mpr rfl, by simp⟩
      · rintro ⟨parts, hlen, hparts, rfl⟩
        obtain rfl := List.length_eq_zero_iff.mp hlen
        exact ⟨elements_nil.mp hparts, by simp⟩
  | succ rounds ih =>
      refine (element_recognises fun part => ih (stream ++ [32] ++ part)).congr fun word value => ⟨?_, ?_⟩
      · rintro ⟨first, part, rest, hfirst, ⟨parts, hlen, hparts, rfl⟩, rfl⟩
        have hall := elements_cons.mpr ⟨first, rest, hfirst, hparts, rfl⟩
        exact ⟨part :: parts, by rw [List.length_cons, hlen], hall, by simp⟩
      · rintro ⟨parts, hlen, hparts, rfl⟩
        obtain ⟨part, parts, rfl⟩ := List.exists_cons_of_length_eq_add_one hlen
        obtain ⟨first, rest, hfirst, hrest, rfl⟩ := elements_cons.mp hparts
        exact ⟨first, part, rest, hfirst, ⟨parts, Nat.succ.inj hlen, hrest, by simp⟩, rfl⟩

theorem readKeys_recognises (rounds : Nat) (keys : List Bytes) :
    Recognises (readKeys rounds keys) fun word value => ∃ more, more.length = rounds ∧
      Spelling.Elements word more ∧ value = keys ++ more := by
  induction rounds generalizing keys with
  | zero =>
      refine (Recognises.pure keys).congr fun word value => ⟨?_, ?_⟩
      · rintro ⟨rfl, rfl⟩
        exact ⟨[], rfl, elements_nil.mpr rfl, by simp⟩
      · rintro ⟨more, hlen, hmore, rfl⟩
        obtain rfl := List.length_eq_zero_iff.mp hlen
        exact ⟨elements_nil.mp hmore, by simp⟩
  | succ rounds ih =>
      refine (element_recognises fun key => ih (keys ++ [key])).congr fun word value => ⟨?_, ?_⟩
      · rintro ⟨first, key, rest, hfirst, ⟨more, hlen, hmore, rfl⟩, rfl⟩
        have hall := elements_cons.mpr ⟨first, rest, hfirst, hmore, rfl⟩
        exact ⟨key :: more, by rw [List.length_cons, hlen], hall, by simp⟩
      · rintro ⟨more, hlen, hmore, rfl⟩
        obtain ⟨key, more, rfl⟩ := List.exists_cons_of_length_eq_add_one hlen
        obtain ⟨first, rest, hfirst, hrest, rfl⟩ := elements_cons.mp hmore
        exact ⟨first, key, rest, hfirst, ⟨more, Nat.succ.inj hlen, hrest, by simp⟩, rfl⟩

theorem readGetCommand_recognises (numElem : Nat) :
    Recognises (readGetCommand numElem) fun word cmd => numElem ≠ 0 ∧ ∃ part parts,
      parts.length = numElem - 2 ∧ Spelling.Elements word (part :: parts) ∧ cmd = .get ⟨joinParts part parts⟩ := by
  have hget := element_recognises fun part => (readParts_recognises (numElem - 2) part).bind fun key =>
    Recognises.pure (Command.get ⟨key⟩)
  refine (Recognises.ite (fun _ => .fail _) fun _ => hget).congr fun word cmd => ⟨?_, ?_⟩
  · rintro (⟨-, hfail⟩ | ⟨hnum, first, part, _, hfirst, ⟨rest, _, _, rfl, ⟨parts, hlen, hparts, rfl⟩, rfl, rfl⟩,
      rfl⟩)
    · exact hfail.elim
    · have hall := elements_cons.mpr ⟨first, rest, hfirst, hparts, rfl⟩
      exact ⟨hnum, part, parts, hlen, by simpa using hall, by rw [joinParts_eq]⟩
  · rintro ⟨hnum, part, parts, hlen, hparts, rfl⟩
    obtain ⟨first, rest, hfirst, hrest, rfl⟩ := elements_cons.mp hparts
    exact .inr ⟨hnum, first, part, rest, hfirst, ⟨rest, [], _, by simp, ⟨parts, hlen, hrest, rfl⟩, rfl,
      by rw [joinParts_eq]⟩, rfl⟩

theorem readSetCommand_recognises (numElem : Nat) :
    Recognises (readSetCommand numElem) fun word cmd => 2 ≤ numElem ∧ ∃ key part parts,
      parts.length = numElem - 3 ∧ Spelling.Elements word (key :: part :: parts) ∧
        cmd = .set ⟨0, key, joinParts part parts⟩ := by
  have hset := element_recognises fun key => element_recognises fun part =>
    (readParts_recognises (numElem - 3) part).bind fun value => Recognises.pure (Command.set ⟨0, key, value⟩)
  refine (Recognises.ite (fun _ => .fail _) fun _ => hset).congr fun word cmd => ⟨?_, ?_⟩
  · rintro (⟨-, hfail⟩ | ⟨hnum, first, key, _, hfirst, ⟨second, part, _, hsecond,
      ⟨rest, _, _, rfl, ⟨parts, hlen, hparts, rfl⟩, rfl, rfl⟩, rfl⟩, rfl⟩)
    · exact hfail.elim
    · have hrest := elements_cons.mpr ⟨second, rest, hsecond, hparts, rfl⟩
      have hall := elements_cons.mpr ⟨first, _, hfirst, hrest, rfl⟩
      exact ⟨by omega, key, part, parts, hlen, by simpa using hall, by rw [joinParts_eq]⟩
  · rintro ⟨hnum, key, part, parts, hlen, hparts, rfl⟩
    obtain ⟨first, _, hfirst, hbehind, rfl⟩ := elements_cons.mp hparts
    obtain ⟨second, rest, hsecond, hrest, rfl⟩ := elements_cons.mp hbehind
    exact .inr ⟨by omega, first, key, _, hfirst, ⟨second, part, rest, hsecond, ⟨rest, [], _, by simp,
      ⟨parts, hlen, hrest, rfl⟩, rfl, by rw [joinParts_eq]⟩, rfl⟩, rfl⟩

theorem readDelCommand_recognises (numElem : Nat) :
    Recognises (readDelCommand numElem) fun word cmd => numElem ≠ 0 ∧ ∃ key keys,
      keys.length = numElem - 2 ∧ Spelling.Elements word (key :: keys) ∧ cmd = .del ⟨0, key :: keys⟩ := by
  have hdel := element_recognises fun key => (readKeys_recognises (numElem - 2) [key]).bind fun keys =>
    Recognises.pure (Command.del ⟨0, keys⟩)
  refine (Recognises.ite (fun _ => .fail _) fun _ => hdel).congr fun word cmd => ⟨?_, ?_⟩
  · rintro (⟨-, hfail⟩ | ⟨hnum, first, key, _, hfirst, ⟨rest, _, _, rfl, ⟨keys, hlen, hkeys, rfl⟩, rfl, rfl⟩,
      rfl⟩)
    · exact hfail.elim
    · have hall := elements_cons.mpr ⟨first, rest, hfirst, hkeys, rfl⟩
      exact ⟨hnum, key, keys, hlen, by simpa using hall, rfl⟩
  · rintro ⟨hnum, key, keys, hlen, hkeys, rfl⟩
    obtain ⟨first, rest, hfirst, hrest, rfl⟩ := elements_cons.mp hkeys
    exact .inr ⟨hnum, first, key, rest, hfirst, ⟨rest, [], _, by simp, ⟨keys, hlen, hrest, rfl⟩, rfl, rfl⟩, rfl⟩

end Arguments

section Requests

theorem readCommandType_recognises :
    Recognises readCommandType fun word type => ∃ name, BulkString word name ∧ Named name type := by
  refine (readBulkString_recognises.bind fun name => Recognises.ite (fun _ => .pure CMD_GET) fun _ =>
    Recognises.ite (fun _ => .pure CMD_SET) fun _ => Recognises.ite (fun _ => .pure CMD_DEL) fun _ =>
      .fail _).congr fun word type => ⟨?_, ?_⟩
  · rintro ⟨first, second, name, rfl, hfirst, ⟨rfl, rfl, rfl⟩ | ⟨-, ⟨rfl, rfl, rfl⟩ | ⟨-, ⟨rfl, rfl, rfl⟩ |
      ⟨-, hfail⟩⟩⟩⟩
    · exact ⟨_, by rwa [List.append_nil], .get⟩
    · exact ⟨_, by rwa [List.append_nil], .set⟩
    · exact ⟨_, by rwa [List.append_nil], .del⟩
    · exact hfail.elim
  · rintro ⟨name, hname, htype⟩
    refine ⟨word, [], name, (List.append_nil word).symm, hname, ?_⟩
    cases htype with
    | get => exact .inl ⟨rfl, rfl, rfl⟩
    | set => exact .inr ⟨by decide, .inl ⟨rfl, rfl, rfl⟩⟩
    | del => exact .inr ⟨by decide, .inr ⟨by decide, .inl ⟨rfl, rfl, rfl⟩⟩⟩

theorem readArguments_recognises (numElem : Nat) (type : CommandType) :
    Recognises (readArguments (numElem, type)) fun word cmd => ∃ args,
      Spelling.Elements word args ∧ Made numElem type args cmd := by
  refine (Recognises.ite (fun _ => readGetCommand_recognises numElem) fun _ =>
    Recognises.ite (fun _ => readSetCommand_recognises numElem) fun _ =>
    Recognises.ite (fun _ => readDelCommand_recognises numElem) fun _ => .fail _).congr
    fun word cmd => ⟨?_, ?_⟩
  · rintro (⟨rfl, hnum, part, parts, hlen, hargs, rfl⟩ | ⟨-, ⟨rfl, hnum, key, part, parts, hlen, hargs, rfl⟩ |
      ⟨-, ⟨rfl, hnum, key, keys, hlen, hargs, rfl⟩ | ⟨-, hfail⟩⟩⟩)
    · exact ⟨_, hargs, .get hnum hlen⟩
    · exact ⟨_, hargs, .set hnum hlen⟩
    · exact ⟨_, hargs, .del hnum hlen⟩
    · exact hfail.elim
  · rintro ⟨args, hargs, hmade⟩
    cases hmade with
    | get hnum hlen => exact .inl ⟨rfl, hnum, _, _, hlen, hargs, rfl⟩
    | set hnum hlen =>
        have hget : CMD_SET ≠ CMD_GET := by decide
        exact .inr ⟨hget, .inl ⟨rfl, hnum, _, _, _, hlen, hargs, rfl⟩⟩
    | del hnum hlen =>
        have hget : CMD_DEL ≠ CMD_GET := by decide
        have hset : CMD_DEL ≠ CMD_SET := by decide
        exact .inr ⟨hget, .inr ⟨hset, .inl ⟨rfl, hnum, _, _, hlen, hargs, rfl⟩⟩⟩

theorem readCommand_recognises : Recognises readCommand Spelling.Request := by
  have hrest : ∀ numElem, Recognises (do
      let type ← readCommandType
      expectSeparator
      readArguments (numElem, type)) fun word cmd => ∃ first name type rest args, Element first name ∧
        Named name type ∧ Spelling.Elements rest args ∧ Made numElem type args cmd ∧ word = first ++ rest :=
    fun numElem => (readCommandType_recognises.bind fun type => expectSeparator_recognises.bind fun _ =>
      readArguments_recognises numElem type).congr fun word cmd => by
        constructor
        · rintro ⟨first, _, type, rfl, ⟨name, hname, htype⟩, _, rest, _, rfl, rfl, args, hargs, hmade⟩
          exact ⟨first ++ separator, name, type, rest, args, ⟨first, hname, rfl⟩, htype, hargs, hmade,
            (List.append_assoc _ _ _).symm⟩
        · rintro ⟨_, name, type, rest, args, ⟨first, hname, rfl⟩, htype, hargs, hmade, rfl⟩
          exact ⟨first, separator ++ rest, type, List.append_assoc _ _ _, ⟨name, hname, htype⟩, separator, rest, (),
            rfl, rfl, args, hargs, hmade⟩
  refine ((expectChar_recognises 42 _).bind fun _ => number_recognises hrest).congr fun word cmd => ⟨?_, ?_⟩
  · rintro ⟨_, _, _, rfl, rfl, digits, numElem, _, hnumber, ⟨first, name, type, rest, args, hfirst, htype, hargs,
      hmade, rfl⟩, rfl⟩
    exact ⟨digits, numElem, first ++ rest, name, type, args, hnumber, htype,
      elements_cons.mpr ⟨first, rest, hfirst, hargs, rfl⟩, hmade, rfl⟩
  · rintro ⟨digits, numElem, _, name, type, args, hnumber, htype, hstrs, hmade, rfl⟩
    obtain ⟨first, rest, hfirst, hargs, rfl⟩ := elements_cons.mp hstrs
    exact ⟨[42], _, (), rfl, rfl, digits, numElem, first ++ rest, hnumber, ⟨first, name, type, rest, args, hfirst,
      htype, hargs, hmade, rfl⟩, rfl⟩

-- The commands are the requests that stand side by side at the beginning of what was
-- received, and what is kept begins with no request.
theorem parseDbRequests_iff (data : Bytes) (cmds : List Command) (last : Nat) :
    (parseDbRequests data).1 = cmds ∧ (parseDbRequests data).2.1 = last ↔
      ∃ words rest, Spelling.Request.Splits data words cmds rest ∧ last = words.flatten.length :=
  readCommand_recognises.readAll_iff readCommand_steady readCommand_progresses

end Requests

end CommandParser

end CloudLabs.Cdb
