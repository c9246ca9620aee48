import CloudLabs.Cdb.CommandParser.Theorems

namespace CloudLabs.Cdb

open Parsing

-- What a connection does after handle_db_requests: it reads again, with prev_data
-- for the next call (`none` is the null pointer), or send_error ends it.
inductive NextRead where
  | read (prevData : Option Bytes)
  | closed
  deriving DecidableEq, Repr

-- coordinator::handle_command_error
def handleCommandError (data : Bytes) (isIncomplete : Bool) : NextRead :=
  if isIncomplete then .read (some data) else .closed

-- coordinator::handle_db_requests on a successful read: the commands that it
-- dispatches, and how the connection goes on.
def handleDbRequests (prevData : Option Bytes) (reqData : Bytes) : List Command × NextRead :=
  let data := prevData.getD [] ++ reqData
  let (cmds, bytesParsed, parseError) := parseDbRequests data
  match parseError with
  | some e => (cmds, handleCommandError (data.drop bytesParsed) e.isIncomplete)
  | none => (cmds, .read none)

-- The reads of a connection, one chunk each.
def handleReads (next : NextRead) (chunks : List Bytes) : List Command × NextRead :=
  match next, chunks with
  | .closed, _ => ([], .closed)
  | .read prevData, [] => ([], .read prevData)
  | .read prevData, chunk :: chunks =>
      let (cmds, next) := handleDbRequests prevData chunk
      let (cmds', next) := handleReads next chunks
      (cmds ++ cmds', next)

namespace NextRead

-- The null pointer stands for no bytes that are left.
def ofIncoming : Incoming UInt8 → NextRead
  | .failed => .closed
  | .waiting left => .read (if left = [] then none else some left)

end NextRead

open NextRead

theorem handleDbRequests_eq (left chunk : Bytes) :
    handleDbRequests (if left = [] then none else some left) chunk =
      ((Incoming.feed ParseError.isIncomplete CommandParser.readCommand (.waiting left) chunk).1,
        ofIncoming
          (Incoming.feed ParseError.isIncomplete CommandParser.readCommand (.waiting left) chunk).2) := by
  have hdata : (if left = [] then none else some left).getD [] = left := by
    split <;> simp [*]
  have hrun := ReadsTo.readAll CommandParser.readCommand_steady CommandParser.readCommand_progresses
    (left ++ chunk)
  have hbounds := hrun.bounds CommandParser.readCommand_steady (Nat.zero_le _)
  unfold handleDbRequests Incoming.feed parseDbRequests
  simp only [hdata]
  generalize Reader.readAll CommandParser.readCommand (left ++ chunk) = result at hbounds ⊢
  obtain ⟨cmds, last, stop⟩ := result
  cases stop with
  | none =>
      have hlast : (left ++ chunk).drop last = [] :=
        List.drop_eq_nil_of_le (Nat.le_of_eq (hbounds.2.2.mp rfl).symm)
      simp [Incoming.ending, ofIncoming, hlast]
  | some e =>
      have hlast : last ≠ (left ++ chunk).length := fun heq => by
        have hnone := hbounds.2.2.mpr heq
        cases hnone
      have hleft : (left ++ chunk).drop last ≠ [] := by
        have hle : last ≤ (left ++ chunk).length := hbounds.2.1
        simp only [ne_eq, List.drop_eq_nil_iff]
        omega
      cases hmore : e.isIncomplete with
      | true => simp [Incoming.ending, handleCommandError, ofIncoming, hmore, hleft]
      | false => simp [Incoming.ending, handleCommandError, ofIncoming, hmore]

theorem handleReads_eq (incoming : Incoming UInt8) (chunks : List Bytes) :
    handleReads (ofIncoming incoming) chunks =
      ((Incoming.feedAll ParseError.isIncomplete CommandParser.readCommand incoming chunks).1,
        ofIncoming
          (Incoming.feedAll ParseError.isIncomplete CommandParser.readCommand incoming chunks).2) := by
  induction chunks generalizing incoming with
  | nil => cases incoming <;> rfl
  | cons chunk chunks ih =>
      cases incoming with
      | failed =>
          have hrest := ih .failed
          simp only [ofIncoming, handleReads, Prod.mk.injEq] at hrest ⊢
          simpa [Incoming.feedAll, Incoming.feed] using hrest
      | waiting left =>
          have hrest := ih
            (Incoming.feed ParseError.isIncomplete CommandParser.readCommand (.waiting left) chunk).2
          show handleReads (.read (if left = [] then none else some left)) (chunk :: chunks) = _
          simp only [handleReads, handleDbRequests_eq left chunk, Incoming.feedAll, hrest]

-- However the bytes are cut into reads, the same commands are dispatched and the
-- same bytes are left.
theorem handleReads_flatten (chunks : List Bytes) :
    handleReads (.read none) chunks = handleReads (.read none) [chunks.flatten] := by
  have hstart : NextRead.read none = ofIncoming (.waiting []) := rfl
  rw [hstart, handleReads_eq, handleReads_eq]
  cases chunks with
  | nil => rfl
  | cons chunk chunks =>
      rw [Incoming.feedAll_flatten CommandParser.readCommand_steady CommandParser.readCommand_progresses,
        Incoming.feedAll_flatten CommandParser.readCommand_steady CommandParser.readCommand_progresses,
        List.flatten_cons, List.flatten_nil, List.append_nil]

theorem handleReads_singleton (prevData : Option Bytes) (chunk : Bytes) :
    handleReads (.read prevData) [chunk] = handleDbRequests prevData chunk := by
  have hdone : ∀ next, handleReads next [] = ([], next) := by
    intro next
    cases next <;> rfl
  simp only [handleReads, hdone, List.append_nil]

theorem handleReads_append (next : NextRead) (chunks more : List Bytes) :
    handleReads next (chunks ++ more) =
      ((handleReads next chunks).1 ++ (handleReads (handleReads next chunks).2 more).1,
        (handleReads (handleReads next chunks).2 more).2) := by
  induction chunks generalizing next with
  | nil => cases next <;> simp [handleReads]
  | cons chunk chunks ih =>
      cases next with
      | closed => simp [handleReads]
      | read prevData =>
          rw [List.cons_append]
          simp only [handleReads, ih, List.append_assoc]

end CloudLabs.Cdb
