import CloudLabs.Cdb.Record.Theorems

namespace CloudLabs.Cdb.RecordManager

-- What a participant writes to its logs: a command with the PREPARED record that
-- follows it, or a record alone.
inductive LogCall where
  | command (cmd : Command) (nextId : UInt32)
  | record (r : Record)

def LogCall.logged : LogCall → Record
  | .command cmd nextId => ⟨RECORD_PREPARED, cmd.id, nextId⟩
  | .record r => r

def logCall (m : RecordManager) (call : LogCall) : Except Fault RecordManager := do
  let m ← match call with
    | .command cmd _ => m.logCommand (some cmd)
    | .record _ => pure m
  return m.log call.logged

def logCalls (m : RecordManager) : List LogCall → Except Fault RecordManager
  | [] => pure m
  | call :: calls => do logCalls (← m.logCall call) calls

-- The record_manager of empty files.
def fresh : RecordManager := { file := [], cmdFile := [], nextId := 0, records := ∅, cmds := ∅ }

-- The last record of the id leaves it open.
def leavesOpen (id : UInt32) (isOpen : Bool) (call : LogCall) : Bool :=
  if call.logged.id = id then !call.logged.done else isOpen

def isOpen (calls : List LogCall) (id : UInt32) : Bool := calls.foldl (leavesOpen id) false

-- The last command that was logged under the id.
def lastCommand (id : UInt32) (found : Option Command) : LogCall → Option Command
  | .command cmd _ => if cmd.id = id then some cmd else found
  | .record _ => found

def commandOf (calls : List LogCall) (id : UInt32) : Option Command := calls.foldl (lastCommand id) none

-- A new record_manager on the files finds the commands of the open records.
def RoundTrips (m : RecordManager) (calls : List LogCall) : Prop :=
  ∃ loaded, load m.file m.cmdFile = .ok loaded ∧
    ∀ id ∈ loaded.records, loaded.cmds[id]? = commandOf calls id

theorem logCommand_recoverable {m m' : RecordManager} {cmd : Option Command} {nextId : UInt32}
    (h : m.Recoverable nextId) (hlog : m.logCommand cmd = .ok m') :
    m'.Recoverable nextId ∧ m'.records = m.records := by
  cases cmd with
  | none => cases hlog
  | some cmd =>
      cases cmd with
      | get cmd => cases hlog
      | set cmd => cases hlog; exact ⟨h, rfl⟩
      | del cmd => cases hlog; exact ⟨h, rfl⟩

theorem logCall_recoverable {m m' : RecordManager} {call : LogCall} {nextId : UInt32}
    (h : m.Recoverable nextId) (hlog : m.logCall call = .ok m') :
    m'.Recoverable call.logged.nextId ∧
      ∀ id, id ∈ m'.records ↔ leavesOpen id (m.records.contains id) call := by
  have hstep : ∃ n : RecordManager, n.Recoverable nextId ∧ n.records = m.records ∧ m' = n.log call.logged := by
    cases call with
    | record r => cases hlog; exact ⟨m, h, rfl, rfl⟩
    | command cmd next =>
        cases hcmd : m.logCommand (some cmd) with
        | error fault => simp [logCall, hcmd] at hlog
        | ok n =>
            obtain ⟨hn, hrecords⟩ := logCommand_recoverable h hcmd
            simp only [logCall, hcmd, ok_bind, pure_eq_ok, Except.ok.injEq] at hlog
            exact ⟨n, hn, hrecords, hlog.symm⟩
  obtain ⟨n, hn, hrecords, rfl⟩ := hstep
  refine ⟨hn.log _, fun id => ?_⟩
  rw [log_records, hrecords, leavesOpen]
  by_cases hid : call.logged.id = id
  · cases hdone : call.logged.done <;> simp [hid]
  · cases hdone : call.logged.done <;> simp [hid]

theorem logCalls_recoverable {m last : RecordManager} {calls : List LogCall} {nextId : UInt32}
    (h : m.Recoverable nextId) (hlog : m.logCalls calls = .ok last) :
    (∃ nextId', last.Recoverable nextId') ∧
      ∀ id, id ∈ last.records ↔ calls.foldl (leavesOpen id) (m.records.contains id) := by
  induction calls generalizing m nextId with
  | nil =>
      cases hlog
      exact ⟨⟨nextId, h⟩, fun id => Std.ExtTreeMap.mem_iff_contains⟩
  | cons call calls ih =>
      cases hcall : m.logCall call with
      | error fault => simp [logCalls, hcall] at hlog
      | ok m' =>
          simp only [logCalls, hcall, ok_bind] at hlog
          obtain ⟨hnext, hmem⟩ := logCall_recoverable h hcall
          obtain ⟨hlast, hopen⟩ := ih hnext hlog
          refine ⟨hlast, fun id => ?_⟩
          rw [hopen id, List.foldl_cons]
          have heq : m'.records.contains id = leavesOpen id (m.records.contains id) call := by
            rw [Bool.eq_iff_iff, ← hmem id, Std.ExtTreeMap.mem_iff_contains]
          rw [heq]

-- The commands come back exactly when there are none to come back.
theorem roundTrips_iff (calls : List LogCall) (m : RecordManager)
    (hlog : fresh.logCalls calls = .ok m) :
    m.RoundTrips calls ↔ ∀ id, isOpen calls id → commandOf calls id = none := by
  obtain ⟨⟨nextId, hrec⟩, hmem⟩ := logCalls_recoverable (show fresh.Recoverable 0 from ⟨[], rfl, rfl⟩) hlog
  have hopen : ∀ id, id ∈ m.records ↔ isOpen calls id := fun id => by
    rw [hmem id, isOpen]
    simp [fresh]
  constructor
  · rintro ⟨loaded, hload, hcmds⟩ id hid
    rw [hrec.load] at hload
    cases hload
    rw [← hcmds id ((hopen id).mpr hid)]
    simp
  · intro hnone
    refine ⟨_, hrec.load, fun id hid => ?_⟩
    rw [hnone id ((hopen id).mp hid)]
    simp

-- A SET that was prepared and then committed: nothing is open, nothing is missed.
theorem roundTrips_iff_committed :
    ∃ m, fresh.logCalls
        [.command (.set ⟨1, bytes "k", bytes "v"⟩) 1, .record ⟨RECORD_COMMIT_DONE, 1, 2⟩] = .ok m ∧
      m.RoundTrips
        [.command (.set ⟨1, bytes "k", bytes "v"⟩) 1, .record ⟨RECORD_COMMIT_DONE, 1, 2⟩] := by
  refine ⟨_, rfl, (roundTrips_iff _ _ rfl).mpr fun id hopen => ?_⟩
  by_cases hid : 1 = id
  · subst hid
    exact absurd hopen (by decide)
  · simp [commandOf, lastCommand, Command.id, hid]

-- A SET that is only prepared is not found again.
theorem prepared_not_roundTrips :
    ∃ m, fresh.logCalls [.command (.set ⟨1, bytes "k", bytes "v"⟩) 1] = .ok m ∧
      ¬ m.RoundTrips [.command (.set ⟨1, bytes "k", bytes "v"⟩) 1] := by
  refine ⟨_, rfl, ?_⟩
  rintro ⟨loaded, hload, hcmds⟩
  cases hload
  have hmissed := hcmds 1 (by decide)
  exact absurd hmissed (by decide)

end CloudLabs.Cdb.RecordManager
