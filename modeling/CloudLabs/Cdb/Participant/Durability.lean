import CloudLabs.Cdb.Participant
import CloudLabs.Cdb.Record.Theorems

namespace CloudLabs.Cdb.Participant

-- The RPCs that an update consists of.
def isUpdate : Request → Bool
  | .PREPARE_SET _ | .PREPARE_DEL _ | .COMMIT _ | .ABORT _ => true
  | _ => false

-- Whether the record that was logged last carries the next_id_ that the
-- participant has after the RPC.
def logsNextId (p : Participant) (exact : Bool) : Request → Bool
  | .PREPARE_SET _ | .PREPARE_DEL _ => true
  | .COMMIT id => if id < p.nextId then exact else true
  | .ABORT id => id = p.nextId
  | _ => exact

-- A sequence of RPCs; the participant and whether its last record is exact.
def handleAll (p : Participant) (exact : Bool) : List Request → Except Fault (Participant × Bool)
  | [] => pure (p, exact)
  | request :: requests => do
      let (_, next) ← p.handle request
      handleAll next (p.logsNextId exact request) requests

-- Nothing that was prepared is open and the last record is exact, or the one
-- command that is open bears next_id_. An id of zero counts for nothing.
def durable (p : Participant) (exact : Bool) : Prop :=
  match p.rManager.records.values with
  | [] => exact
  | [r] => if r.id = 0 then exact else r.id = p.nextId
  | _ => False

-- The log holds PREPARED records only, and a new record_manager finds a
-- next_id in it that is `nextId` or not.
structure Logged (m : RecordManager) (nextId : UInt32) (exact : Bool) : Prop where
  recoverable : ∃ found, m.Recoverable found ∧ (exact ↔ found = nextId)
  prepared : ∀ (id : UInt32) (r : Record), m.records[id]? = some r → r.status = RECORD_PREPARED

-- What recovery() leaves if it found a command, until something is logged.
structure Recovered (m : RecordManager) (requests : List (Option Command)) : Prop where
  records : m.records = ∅
  pending : requests = [none]

theorem Logged.logPrepared {m : RecordManager} {nextId : UInt32} {exact : Bool}
    (h : Logged m nextId exact) (id : UInt32) :
    Logged (m.log ⟨RECORD_PREPARED, id, nextId⟩) nextId true := by
  obtain ⟨⟨found, hrec, -⟩, hprep⟩ := h
  refine ⟨⟨nextId, hrec.log _, by simp⟩, fun other r hr => ?_⟩
  rw [RecordManager.log_records, if_neg (by simp), Std.ExtTreeMap.getElem?_insert] at hr
  split at hr
  · cases hr
    rfl
  · exact hprep other r hr

theorem Logged.logDone {m : RecordManager} {nextId : UInt32} {exact : Bool}
    (h : Logged m nextId exact) (r : Record) (hdone : r.done) {nextId' : UInt32} {exact' : Bool}
    (hexact : exact' ↔ r.nextId = nextId') : Logged (m.log r) nextId' exact' := by
  obtain ⟨⟨found, hrec, -⟩, hprep⟩ := h
  refine ⟨⟨r.nextId, hrec.log r, hexact⟩, fun other s hs => ?_⟩
  rw [RecordManager.log_records, if_pos hdone, Std.ExtTreeMap.getElem?_erase] at hs
  split at hs
  · cases hs
  · exact hprep other s hs

-- The two records of a commit: the second one closes the first.
theorem Logged.logCommit {m : RecordManager} {nextId : UInt32} {exact : Bool}
    (h : Logged m nextId exact) (id : UInt32) :
    Logged ((m.log ⟨RECORD_COMMIT, id, nextId⟩).log ⟨RECORD_COMMIT_DONE, id, nextId + 1⟩)
      (nextId + 1) true := by
  obtain ⟨⟨found, hrec, -⟩, hprep⟩ := h
  refine ⟨⟨nextId + 1, (hrec.log _).log _, by simp⟩, fun other s hs => ?_⟩
  rw [RecordManager.log_records, if_pos (by simp), RecordManager.log_records, if_neg (by simp),
    Std.ExtTreeMap.getElem?_erase] at hs
  split at hs
  · cases hs
  · rename_i hne
    rw [Std.ExtTreeMap.getElem?_insert, if_neg hne] at hs
    exact hprep other s hs

-- The first record that closes something clears the log.
theorem Recovered.logDone {m : RecordManager} {requests : List (Option Command)}
    (h : Recovered m requests) (r : Record) (hdone : r.done) {nextId : UInt32} {exact : Bool}
    (hexact : exact ↔ r.nextId = nextId) : Logged (m.log r) nextId exact := by
  refine ⟨⟨r.nextId, ⟨[r], ?_, ?_⟩, hexact⟩, fun other s hs => ?_⟩
  · simp [RecordManager.log, hdone, h.records, RecordManager.fileOf]
  · simp [hdone, h.records, RecordManager.replay]
  · simp [hdone, h.records] at hs

-- What holds of a participant that has been started from its log.
def Started (p : Participant) (exact : Bool) : Prop :=
  Logged p.rManager p.nextId exact ∨ Recovered p.rManager p.dbRequests

theorem Started.prepare {p q : Participant} {exact ok : Bool} {cmd : Command} (h : p.Started exact)
    (hprep : p.prepare cmd = .ok (ok, q)) (hkind : ∀ get, cmd ≠ .get get) : q.Started true := by
  obtain ⟨m, hm, hrecords, hlog⟩ : ∃ m, p.rManager.logCommand (some cmd) = .ok m ∧
      m.records = p.rManager.records ∧ m.file = p.rManager.file := by
    cases cmd with
    | get cmd => exact absurd rfl (hkind cmd)
    | set cmd => exact ⟨_, rfl, rfl, rfl⟩
    | del cmd => exact ⟨_, rfl, rfl, rfl⟩
  rw [Participant.prepare, hm] at hprep
  cases hreq : insertRequest (some cmd) p.dbRequests with
  | error fault => simp [hreq] at hprep
  | ok requests =>
      simp only [hreq, ok_bind, pure_eq_ok, Except.ok.injEq, Prod.mk.injEq] at hprep
      obtain ⟨-, rfl⟩ := hprep
      rcases h with h | h
      · have hlogged : Logged m p.nextId exact := by
          refine ⟨?_, fun id r hr => h.prepared id r (hrecords ▸ hr)⟩
          obtain ⟨found, ⟨rs, hfile, hreplay⟩, hexact⟩ := h.recoverable
          exact ⟨found, ⟨rs, hlog.trans hfile, hrecords ▸ hreplay⟩, hexact⟩
        exact .inl (hlogged.logPrepared cmd.id)
      · -- Comparing with the null pointer that recovery() left is no exception.
        simp [insertRequest, h.pending] at hreq

theorem Started.commit {p q : Participant} {exact : Bool} {id : UInt32} {ret : Bytes}
    (h : p.Started exact) (hcommit : p.commit id = .ok (ret, q)) :
    q.Started (p.logsNextId exact (.COMMIT id)) := by
  rw [Participant.commit] at hcommit
  simp only [logsNextId]
  split at hcommit
  · rename_i hseen
    cases hcommit
    rwa [if_pos hseen]
  rename_i hseen
  rw [if_neg hseen]
  split at hcommit
  · cases hcommit
  split at hcommit
  · cases hcommit
  · cases hcommit
  rename_i cmd rest hpending
  split at hcommit
  · cases hcommit
  cases hret : dispatch p.store cmd with
  | error fault => simp [hret] at hcommit
  | ok result =>
      simp only [hret, ok_bind, pure_eq_ok, Except.ok.injEq, Prod.mk.injEq] at hcommit
      obtain ⟨-, rfl⟩ := hcommit
      rcases h with h | h
      · exact .inl (h.logCommit id)
      · exact absurd (h.pending.symm.trans hpending) (by simp)

-- The record of an ABORT carries the next_id_ that follows the present one,
-- whatever id it is for.
theorem Started.abort {p : Participant} {exact : Bool} (id : UInt32) (h : p.Started exact) :
    (p.abort id).2.Started (p.logsNextId exact (.ABORT id)) := by
  have hexact : (decide (id = p.nextId) : Bool) ↔ p.nextId + 1 = (p.abort id).2.nextId := by
    simp only [decide_eq_true_eq, Participant.abort]
    split <;> rename_i hne
    · split <;> rename_i hlt <;> grind
    · grind
  refine .inl ?_
  have hmanager : (p.abort id).2.rManager = p.rManager.log ⟨RECORD_ABORT_DONE, id, p.nextId + 1⟩ := by
    simp only [Participant.abort]
    split <;> rfl
  rw [hmanager]
  rcases h with h | h
  · exact h.logDone _ rfl hexact
  · exact h.logDone _ rfl hexact

theorem Started.handle {p q : Participant} {exact : Bool} {request : Request} {reply : Reply}
    (h : p.Started exact) (hupdate : isUpdate request) (hhandle : p.handle request = .ok (reply, q)) :
    q.Started (p.logsNextId exact request) := by
  cases request with
  | PREPARE_SET cmd =>
      cases hprep : p.prepare (.set cmd) with
      | error fault => simp [Participant.handle, prepareSet, hprep] at hhandle
      | ok answer =>
          simp only [Participant.handle, prepareSet, hprep, ok_bind] at hhandle
          cases hhandle
          exact h.prepare hprep nofun
  | PREPARE_DEL cmd =>
      cases hprep : p.prepare (.del cmd) with
      | error fault => simp [Participant.handle, prepareDel, hprep] at hhandle
      | ok answer =>
          simp only [Participant.handle, prepareDel, hprep, ok_bind] at hhandle
          cases hhandle
          exact h.prepare hprep nofun
  | COMMIT id =>
      cases hcommit : p.commit id with
      | error fault => simp [Participant.handle, hcommit] at hhandle
      | ok answer =>
          simp only [Participant.handle, hcommit, ok_bind] at hhandle
          cases hhandle
          exact h.commit hcommit
  | ABORT id => cases hhandle; exact h.abort id
  | _ => cases hupdate

theorem Started.handleAll {p q : Participant} {exact last : Bool} {requests : List Request}
    (h : p.Started exact) (hupdate : ∀ request ∈ requests, isUpdate request)
    (hrun : p.handleAll exact requests = .ok (q, last)) : q.Started last := by
  induction requests generalizing p exact with
  | nil => cases hrun; exact h
  | cons request requests ih =>
      cases hhandle : p.handle request with
      | error fault => simp [Participant.handleAll, hhandle] at hrun
      | ok answer =>
          simp only [Participant.handleAll, hhandle, ok_bind] at hrun
          exact ih (h.handle (hupdate request (by simp)) hhandle)
            (fun other hother => hupdate other (by simp [hother])) hrun

-- recovery() survives one PREPARED record at the most: the second null pointer
-- would be compared with the first.
theorem recoverRecords_cons (r : Record) (rest : List Record) :
    recoverRecords ∅ (r :: rest) (0, []) =
      if r.status = RECORD_COMMIT then .error .deadlock
      else if r.status = RECORD_PREPARED then
        match rest with
        | [] => .ok (r.id, [none])
        | s :: _ =>
            if s.status = RECORD_COMMIT ∨ s.status = RECORD_PREPARED then .error .nullDereference
            else .error (.serverError "participant recovery failed")
      else .error (.serverError "participant recovery failed") := by
  cases rest with
  | nil => simp [recoverRecords, insertRequest]
  | cons s rest =>
      by_cases hcommit : s.status = RECORD_COMMIT
      · simp [recoverRecords, insertRequest, hcommit]
      · by_cases hprepared : s.status = RECORD_PREPARED
        · simp [recoverRecords, insertRequest, hprepared, RECORD_PREPARED, RECORD_COMMIT]
        · simp [recoverRecords, insertRequest, hprepared, hcommit]

theorem recovery_started {store : Store} {m : RecordManager} {p : Participant}
    {content cmdContent : Bytes} (hload : RecordManager.load content cmdContent = .ok m)
    (h : recovery store m = .ok p) : p.Started true := by
  obtain ⟨hrec, hcmds⟩ := RecordManager.recoverable_of_load hload
  rw [recovery, hcmds] at h
  match hl : m.records.values with
  | [] =>
      have hrecords : m.records = ∅ := by simpa [IdMap.values_eq] using hl
      simp only [hl, recoverRecords, pure_eq_ok, ok_bind, Except.ok.injEq] at h
      subst h
      obtain ⟨rs, hfile, hreplay⟩ := hrec
      exact .inl ⟨⟨m.nextId, ⟨rs, hfile, hrecords ▸ hreplay⟩, by simp⟩, by simp⟩
  | r :: rest =>
      rw [hl, recoverRecords_cons] at h
      split at h
      · cases h
      split at h
      · cases rest with
        | nil => cases h; exact .inr ⟨rfl, rfl⟩
        | cons s rest => dsimp only at h; split at h <;> cases h
      · cases h

-- What a new process finds in the log of this one.
theorem restart_nextId {p : Participant} {exact : Bool} (h : Logged p.rManager p.nextId exact) :
    (∃ q, p.restart = .ok q ∧ q.nextId = p.nextId) ↔ p.durable exact := by
  obtain ⟨⟨found, hrec, hexact⟩, hprep⟩ := h
  have hprepared : ∀ r ∈ p.rManager.records.values, r.status = RECORD_PREPARED := fun r hr => by
    obtain ⟨id, hid⟩ := IdMap.mem_values.mp hr
    exact hprep id r hid
  simp only [restart, hrec.load, ok_bind, recovery, durable]
  generalize p.rManager.records.values = records at hprepared
  cases records with
  | nil => simp [recoverRecords, hexact]
  | cons r rest =>
      have hr := hprepared r (by simp)
      cases rest with
      | nil =>
          simp only [recoverRecords_cons, hr, if_neg (show ¬ RECORD_PREPARED = RECORD_COMMIT by decide)]
          by_cases hzero : r.id = 0
          · simp [hzero, hexact]
          · simp [hzero]
      | cons s rest =>
          have hs := hprepared s (by simp)
          simp [recoverRecords_cons, hr, hs, if_neg (show ¬ RECORD_PREPARED = RECORD_COMMIT by decide)]

-- next_id_ survives exactly where the log says so.
theorem restart_nextId_iff (store : Store) (content cmdContent : Bytes) (m : RecordManager)
    (p q : Participant) (requests : List Request) (exact : Bool)
    (hload : RecordManager.load content cmdContent = .ok m) (hstart : recovery store m = .ok p)
    (hupdate : ∀ request ∈ requests, isUpdate request)
    (hrun : p.handleAll true requests = .ok (q, exact)) (hpending : q.dbRequests = []) :
    (∃ r, q.restart = .ok r ∧ r.nextId = q.nextId) ↔ q.durable exact := by
  rcases (recovery_started hload hstart).handleAll hupdate hrun with hlogged | hrecovered
  · exact restart_nextId hlogged
  · rw [hrecovered.pending] at hpending
    cases hpending

-- A participant that has resolved the update 4.
def resolved : Participant where
  store := ∅
  nextId := 5
  dbRequests := []
  rManager := {
    file := RecordManager.fileOf [⟨RECORD_ABORT_DONE, 4, 5⟩]
    cmdFile := [], nextId := 5, records := ∅, cmds := ∅ }

-- An ABORT for the update that is next.
theorem restart_nextId_iff_abort :
    (resolved.abort 5).2.nextId = 6 ∧
      ∃ r, (resolved.abort 5).2.restart = .ok r ∧ r.nextId = (resolved.abort 5).2.nextId :=
  ⟨rfl, (restart_nextId_iff ∅ resolved.rManager.file [] resolved.rManager resolved
    (resolved.abort 5).2 [.ABORT 5] true rfl rfl (by simp [isUpdate]) rfl rfl).mpr rfl⟩

-- An ABORT that is repeated for an update that has been resolved.
theorem abort_repeated_not_durable :
    RecordManager.load resolved.rManager.file [] = .ok resolved.rManager ∧
      recovery ∅ resolved.rManager = .ok resolved ∧
      resolved.handleAll true [.ABORT 4] = .ok ((resolved.abort 4).2, false) ∧
      (resolved.abort 4).2.dbRequests = [] ∧ (resolved.abort 4).2.nextId = 5 ∧
      ∃ r, (resolved.abort 4).2.restart = .ok r ∧ r.nextId = 6 :=
  ⟨rfl, rfl, rfl, rfl, rfl, _, rfl, rfl⟩

end CloudLabs.Cdb.Participant
