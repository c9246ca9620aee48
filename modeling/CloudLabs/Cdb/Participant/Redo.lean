import CloudLabs.Cdb.Participant.Theorems
import CloudLabs.Cdb.Record.Crash

namespace CloudLabs.Cdb.Participant

-- What the database can hold while the handler of the command runs.
def applying (store : Store) : Command → List Store
  | .set cmd => [store, store.insert cmd.key cmd.value]
  | .del cmd => cmd.keys.inits.map fun keys => (deleteKeys store keys).2
  | .get _ => []

-- A process that died in COMMIT(i) of the participant `p`: RECORD_COMMIT is on
-- disk, and of RECORD_COMMIT_DONE only a part. `cmds` is what the restart finds
-- in its command log.
structure CommitCrash where
  p : Participant
  cmd : Command
  rest : List (Option Command)
  pending : p.dbRequests = some cmd :: rest
  id : cmd.id = p.nextId
  records : List Record
  opened : p.rManager.file = RecordManager.fileOf records
  store : Store
  applied : store ∈ applying p.store cmd
  written : Nat
  partly : written < Record.recordSize
  cmds : IdMap Command
  logged : cmds[cmd.id]? = some cmd

namespace CommitCrash

def file (crash : CommitCrash) : Bytes :=
  (crash.p.rManager.log ⟨RECORD_COMMIT, crash.cmd.id, crash.p.nextId⟩).file ++
    (Record.toBinary ⟨RECORD_COMMIT_DONE, crash.cmd.id, crash.p.nextId + 1⟩).take crash.written

def restart (crash : CommitCrash) : Except Fault Participant := do
  let m ← RecordManager.load crash.file crash.p.rManager.cmdFile
  recovery crash.store { m with cmds := crash.cmds }

-- The restart completes the COMMIT.
def Redone (crash : CommitCrash) : Prop :=
  ∃ ret q, crash.restart = .ok q ∧ dispatch crash.p.store crash.cmd = .ok (ret, q.store) ∧
    q.nextId = crash.cmd.id + 1 ∧ q.dbRequests = []

end CommitCrash

-- The handler that recovery() calls for RECORD_COMMIT waits for the mutex of
-- recovery() itself, so that the loop does not get past such a record.
theorem recoverRecords_ne_ok {cmds : IdMap Command} {records : List Record} {r : Record}
    (hmem : r ∈ records) (hcommit : r.status = RECORD_COMMIT)
    (state last : UInt32 × List (Option Command)) : recoverRecords cmds records state ≠ .ok last := by
  induction records generalizing state with
  | nil => simp at hmem
  | cons head rest ih =>
      intro hok
      by_cases hhead : head.status = RECORD_COMMIT
      · cases hinsert : insertRequest cmds[head.id]? state.2 <;>
          simp [recoverRecords, hhead, hinsert] at hok
      · have hrest : r ∈ rest := by
          refine (List.mem_cons.mp hmem).resolve_left fun heq => hhead ?_
          rw [← heq, hcommit]
        by_cases hprepared : head.status = RECORD_PREPARED
        · cases hinsert : insertRequest cmds[head.id]? state.2 with
          | error fault => simp [recoverRecords, hprepared, hinsert] at hok
          | ok requests =>
              have hprep : RECORD_PREPARED ≠ RECORD_COMMIT := by decide
              simp only [recoverRecords, hprepared, hinsert, hprep, if_false, if_true, ok_bind] at hok
              exact ih hrest _ hok
        · simp [recoverRecords, hhead, hprepared] at hok

-- A restart that can read the log finds the RECORD_COMMIT in it.
theorem CommitCrash.mem_records {crash : CommitCrash} {m : RecordManager}
    (h : RecordManager.load crash.file crash.p.rManager.cmdFile = .ok m) :
    (⟨RECORD_COMMIT, crash.cmd.id, crash.p.nextId⟩ : Record) ∈ m.records.values := by
  let r : Record := ⟨RECORD_COMMIT, crash.cmd.id, crash.p.nextId⟩
  have hlog : (crash.p.rManager.log r).file = RecordManager.fileOf (crash.records ++ [r]) := by
    have hopen : ¬ crash.p.rManager.clears r := fun hclear =>
      absurd (RecordManager.done_of_clears hclear) (by simp [r])
    rw [RecordManager.log_file, if_neg hopen, crash.opened]
    simp
  have hnone : crash.written = 0 := by
    by_contra hsome
    rw [file, hlog] at h
    exact RecordManager.load_torn (Nat.pos_of_ne_zero hsome) crash.partly _ _ h
  have hfile : crash.file = RecordManager.fileOf (crash.records ++ [r]) := by
    rw [file, hlog, hnone, List.take_zero, List.append_nil]
  rw [hfile, RecordManager.load_fileOf, List.foldl_append] at h
  cases h
  rw [IdMap.mem_values]
  exact ⟨crash.cmd.id, by simp [RecordManager.replay, r]⟩

theorem CommitCrash.not_redone (crash : CommitCrash) : ¬ crash.Redone := by
  rintro ⟨ret, q, hrestart, -⟩
  simp only [restart] at hrestart
  cases hload : RecordManager.load crash.file crash.p.rManager.cmdFile with
  | error fault => simp [hload] at hrestart
  | ok m =>
      simp only [hload, ok_bind, recovery] at hrestart
      cases hrecover : recoverRecords crash.cmds m.records.values (0, []) with
      | error fault => simp [hrecover] at hrestart
      | ok last => exact recoverRecords_ne_ok (mem_records hload) rfl _ _ hrecover

-- SET k v as the only pending command, and a crash right behind RECORD_COMMIT.
def committing : CommitCrash where
  p := {
    store := ∅, nextId := 5, dbRequests := [some (.set ⟨5, bytes "k", bytes "v"⟩)]
    rManager := RecordManager.log ⟨[], [], 0, ∅, ∅⟩ ⟨RECORD_PREPARED, 5, 5⟩ }
  cmd := .set ⟨5, bytes "k", bytes "v"⟩
  rest := []
  pending := rfl
  id := rfl
  records := [⟨RECORD_PREPARED, 5, 5⟩]
  opened := rfl
  store := ∅
  applied := by simp [applying]
  written := 0
  partly := by decide
  cmds := (∅ : IdMap Command).insert 5 (.set ⟨5, bytes "k", bytes "v"⟩)
  logged := rfl

theorem committing_deadlock : committing.restart = .error .deadlock ∧ ¬ committing.Redone := by
  have hrestart : committing.restart = .error .deadlock := rfl
  refine ⟨hrestart, ?_⟩
  rintro ⟨ret, q, hok, -⟩
  rw [hrestart] at hok
  cases hok

end CloudLabs.Cdb.Participant
