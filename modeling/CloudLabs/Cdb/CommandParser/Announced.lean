import CloudLabs.Cdb.CommandParser.Theorems

namespace CloudLabs.Cdb.CommandParser

open Parsing

-- A bulk string of an array, with the separator that follows it.
def readElement : Parser Bytes := do
  let str ← readBulkString
  expectSeparator
  return str

-- Exactly these bulk strings stand between the two positions.
def Elements (data : Bytes) (start : Nat) (strs : List Bytes) (last : Nat) : Prop :=
  Reader.times readElement strs.length data start = (.ok strs, last)

-- The fewest elements that a command of the type has.
def minimum (type : CommandType) : Nat := if type = CMD_SET then 3 else 2

-- A command is made of as many bulk strings as its array announces, and an array
-- that announces too few is rejected where its name ends.
def StaysInside (data : Bytes) (idx : Nat) : Prop :=
  ∀ numElem type start, readHeader data idx = (.ok (numElem, type), start) →
    (∀ cmd last, readCommand data idx = (.ok cmd, last) →
      ∃ args, Elements data start args last ∧ 1 + args.length = numElem) ∧
    (numElem < minimum type →
      ∃ what, readCommand data idx = (.error (.syntaxError what), start))

section Elements

variable {data : Bytes} {start last : Nat}

theorem Elements.nil : Elements data start [] start := rfl

theorem Elements.cons {mid next : Nat} {str : Bytes} {strs : List Bytes}
    (hstr : readBulkString data start = (.ok str, mid))
    (hseparator : expectSeparator data mid = (.ok (), next)) (hrest : Elements data next strs last) :
    Elements data start (str :: strs) last := by
  have helement : readElement data start = (.ok str, next) := by
    unfold readElement
    rw [Reader.bind_ok hstr, Reader.bind_ok hseparator]
    rfl
  unfold Elements at hrest ⊢
  rw [List.length_cons, Reader.times, Reader.bind_ok helement, Reader.bind_ok hrest]
  rfl

theorem readParts_elements {rounds : Nat} {stream value : Bytes}
    (h : readParts rounds stream data start = (.ok value, last)) :
    ∃ parts, parts.length = rounds ∧ Elements data start parts last := by
  induction rounds generalizing stream start with
  | zero =>
      cases h
      exact ⟨[], rfl, .nil⟩
  | succ rounds ih =>
      obtain ⟨part, mid, hpart, h⟩ := Reader.of_bind_ok h
      obtain ⟨_, next, hseparator, h⟩ := Reader.of_bind_ok h
      obtain ⟨parts, hlen, hparts⟩ := ih h
      exact ⟨part :: parts, by rw [List.length_cons, hlen], hparts.cons hpart hseparator⟩

theorem readKeys_elements {rounds : Nat} {keys value : List Bytes}
    (h : readKeys rounds keys data start = (.ok value, last)) :
    ∃ more, more.length = rounds ∧ Elements data start more last := by
  induction rounds generalizing keys start with
  | zero =>
      cases h
      exact ⟨[], rfl, .nil⟩
  | succ rounds ih =>
      obtain ⟨key, mid, hkey, h⟩ := Reader.of_bind_ok h
      obtain ⟨_, next, hseparator, h⟩ := Reader.of_bind_ok h
      obtain ⟨more, hlen, hmore⟩ := ih h
      exact ⟨key :: more, by rw [List.length_cons, hlen], hmore.cons hkey hseparator⟩

end Elements

section Arguments

variable {data : Bytes} {numElem start last : Nat} {type : CommandType} {cmd : Command}

def known (type : CommandType) : Prop := type = CMD_GET ∨ type = CMD_SET ∨ type = CMD_DEL

theorem readHeader_known {idx : Nat} (h : readHeader data idx = (.ok (numElem, type), start)) :
    known type := by
  obtain ⟨-, _, -, h⟩ := Reader.of_bind_ok h
  obtain ⟨_, _, -, h⟩ := Reader.of_bind_ok h
  obtain ⟨-, _, -, h⟩ := Reader.of_bind_ok h
  obtain ⟨type', _, htype, h⟩ := Reader.of_bind_ok h
  obtain ⟨-, _, -, h⟩ := Reader.of_bind_ok h
  cases h
  obtain ⟨name, _, -, hname⟩ := Reader.of_bind_ok htype
  unfold known
  split at hname
  · cases hname
    exact .inl rfl
  split at hname
  · cases hname
    exact .inr (.inl rfl)
  split at hname
  · cases hname
    exact .inr (.inr rfl)
  · cases hname

theorem readGetCommand_elements (h : readGetCommand numElem data start = (.ok cmd, last)) :
    2 ≤ numElem + 1 ∧ ∃ args, Elements data start args last ∧ 1 + args.length = max numElem 2 := by
  unfold readGetCommand at h
  split at h
  · cases h
  obtain ⟨key, mid, hkey, h⟩ := Reader.of_bind_ok h
  obtain ⟨_, next, hseparator, h⟩ := Reader.of_bind_ok h
  obtain ⟨value, _, hparts, h⟩ := Reader.of_bind_ok h
  cases h
  obtain ⟨parts, hlen, hparts⟩ := readParts_elements hparts
  exact ⟨by omega, key :: parts, hparts.cons hkey hseparator, by rw [List.length_cons]; omega⟩

theorem readSetCommand_elements (h : readSetCommand numElem data start = (.ok cmd, last)) :
    3 ≤ numElem + 1 ∧ ∃ args, Elements data start args last ∧ 1 + args.length = max numElem 3 := by
  unfold readSetCommand at h
  split at h
  · cases h
  obtain ⟨key, mid, hkey, h⟩ := Reader.of_bind_ok h
  obtain ⟨_, next, hseparator, h⟩ := Reader.of_bind_ok h
  obtain ⟨value, mid', hvalue, h⟩ := Reader.of_bind_ok h
  obtain ⟨_, next', hseparator', h⟩ := Reader.of_bind_ok h
  obtain ⟨value, _, hparts, h⟩ := Reader.of_bind_ok h
  cases h
  obtain ⟨parts, hlen, hparts⟩ := readParts_elements hparts
  have hargs := (hparts.cons hvalue hseparator').cons hkey hseparator
  exact ⟨by omega, _, hargs, by rw [List.length_cons, List.length_cons]; omega⟩

theorem readDelCommand_elements (h : readDelCommand numElem data start = (.ok cmd, last)) :
    2 ≤ numElem + 1 ∧ ∃ args, Elements data start args last ∧ 1 + args.length = max numElem 2 := by
  unfold readDelCommand at h
  split at h
  · cases h
  obtain ⟨key, mid, hkey, h⟩ := Reader.of_bind_ok h
  obtain ⟨_, next, hseparator, h⟩ := Reader.of_bind_ok h
  obtain ⟨keys, _, hkeys, h⟩ := Reader.of_bind_ok h
  cases h
  obtain ⟨more, hlen, hmore⟩ := readKeys_elements hkeys
  exact ⟨by omega, key :: more, hmore.cons hkey hseparator, by rw [List.length_cons]; omega⟩

-- With one element too few, the command still reads what it needs at least.
theorem readArguments_elements (h : readArguments (numElem, type) data start = (.ok cmd, last)) :
    minimum type ≤ numElem + 1 ∧
      ∃ args, Elements data start args last ∧ 1 + args.length = max numElem (minimum type) := by
  unfold readArguments at h
  simp only at h
  split at h
  · rename_i htype
    rw [htype]
    exact readGetCommand_elements h
  split at h
  · rename_i htype
    rw [htype]
    exact readSetCommand_elements h
  split at h
  · rename_i htype
    rw [htype]
    exact readDelCommand_elements h
  · cases h

-- Two elements too few are noticed before anything else is read.
theorem readArguments_rejects (hknown : known type) (hfew : numElem + 1 < minimum type) :
    ∃ what, readArguments (numElem, type) data start = (.error (.syntaxError what), start) := by
  rcases hknown with rfl | rfl | rfl
  · have hzero : numElem = 0 := by
      have hmin : minimum CMD_GET = 2 := rfl
      omega
    subst hzero
    exact ⟨_, rfl⟩
  · have hless : numElem < 2 := by
      have hmin : minimum CMD_SET = 3 := rfl
      omega
    refine ⟨"missing args", ?_⟩
    show readSetCommand numElem data start = _
    unfold readSetCommand
    rw [if_pos hless]
    rfl
  · have hzero : numElem = 0 := by
      have hmin : minimum CMD_DEL = 2 := rfl
      omega
    subst hzero
    exact ⟨_, rfl⟩

-- One element too few is not: the next bulk string is read.
theorem readArguments_reads_on (hknown : known type) (hfew : numElem + 1 = minimum type)
    (hstart : start ≤ data.length) (what : String) :
    readArguments (numElem, type) data start ≠ (.error (.syntaxError what), start) := by
  intro h
  have hprogress : Progresses (readArguments (numElem, type)) := by
    rcases hknown with rfl | rfl | rfl
    · have hone : numElem = 1 := by
        have hmin : minimum CMD_GET = 2 := rfl
        omega
      subst hone
      exact readBulkString_progresses.bind readBulkString_steady fun key =>
        expectSeparator_steady.bind fun _ => (readParts_steady _ key).bind fun _ => .pure _
    · have htwo : numElem = 2 := by
        have hmin : minimum CMD_SET = 3 := rfl
        omega
      subst htwo
      exact readBulkString_progresses.bind readBulkString_steady fun _ =>
        expectSeparator_steady.bind fun _ => readBulkString_steady.bind fun value =>
          expectSeparator_steady.bind fun _ => (readParts_steady _ value).bind fun _ => .pure _
    · have hone : numElem = 1 := by
        have hmin : minimum CMD_DEL = 2 := rfl
        omega
      subst hone
      exact readBulkString_progresses.bind readBulkString_steady fun key =>
        expectSeparator_steady.bind fun _ => (readKeys_steady _ [key]).bind fun _ => .pure _
  have hmoved := hprogress data start hstart
  rw [h] at hmoved
  exact Nat.lt_irrefl start (hmoved (by simp [Reader.Waits, ParseError.isIncomplete]))

end Arguments

theorem readCommand_of_header {data : Bytes} {idx start : Nat} {header : Nat × CommandType}
    (h : readHeader data idx = (.ok header, start)) :
    readCommand data idx = readArguments header data start := by
  rw [readCommand_eq, Reader.bind_ok h]

-- Exactly the arrays with one element too few are read past their end.
theorem staysInside_iff (data : Bytes) (idx : Nat) (hidx : idx ≤ data.length) :
    StaysInside data idx ↔ ∀ numElem type start,
      readHeader data idx = (.ok (numElem, type), start) → numElem + 1 ≠ minimum type := by
  constructor
  · intro hinside numElem type start hheader hfew
    obtain ⟨what, hreject⟩ := (hinside numElem type start hheader).2 (by omega)
    have hstart := readHeader_steady.bounds data idx hidx
    rw [hheader] at hstart
    rw [readCommand_of_header hheader] at hreject
    exact readArguments_reads_on (readHeader_known hheader) hfew hstart.2 what hreject
  · intro hcount numElem type start hheader
    have hne := hcount numElem type start hheader
    rw [readCommand_of_header hheader]
    constructor
    · intro cmd last hcmd
      obtain ⟨hmin, args, hargs, hlen⟩ := readArguments_elements hcmd
      exact ⟨args, hargs, by omega⟩
    · intro hfew
      exact readArguments_rejects (readHeader_known hheader) (by omega)

theorem staysInside_iff_get :
    StaysInside (bytes "*2\r\n$3\r\nGET\r\n$1\r\nk\r\n") 0 := by
  refine (staysInside_iff _ 0 (Nat.zero_le _)).mpr ?_
  intro numElem type start hheader
  have hget : readHeader (bytes "*2\r\n$3\r\nGET\r\n$1\r\nk\r\n") 0 = (.ok (2, CMD_GET), 13) := rfl
  rw [hget] at hheader
  cases hheader
  decide

-- A GET that announces its name alone takes a key all the same, and with another
-- command behind it, it takes the first byte of that one.
theorem short_get_not_staysInside :
    readCommand (bytes "*1\r\n$3\r\nGET\r\n$1\r\nk\r\n") 0 = (.ok (.get ⟨bytes "k"⟩), 20) ∧
      ¬ StaysInside (bytes "*1\r\n$3\r\nGET\r\n$1\r\nk\r\n") 0 := by
  have hget : readCommand (bytes "*1\r\n$3\r\nGET\r\n$1\r\nk\r\n") 0 =
      (.ok (.get ⟨bytes "k"⟩), 20) := rfl
  refine ⟨hget, fun hinside => ?_⟩
  obtain ⟨what, hreject⟩ := (hinside 1 CMD_GET 13 rfl).2 (by decide)
  rw [hget] at hreject
  cases hreject

end CloudLabs.Cdb.CommandParser
