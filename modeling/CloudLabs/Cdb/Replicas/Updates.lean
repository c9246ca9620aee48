import CloudLabs.Cdb.Reference
import CloudLabs.Cdb.Replicas.Frames

namespace CloudLabs.Cdb

open Interaction Participant

def Job.deleted : Job → List Bytes
  | some (_, cmd) => cmd.deleted
  | none => []

namespace Replicas

-- A COMMIT that the participant carries out leaves this store.
def Commits (id : UInt32) (store : Store) (p : Participant) : Prop :=
  ∀ ret q, p.commit id = .ok (ret, q) → q.nextId = id + 1 ∧ q.store = store

-- No participant has got beyond the update.
def Vacant (addrs : List Addr) (id : UInt32) (w : World) : Prop :=
  ∀ addr ∈ addrs, (w.node addr).participant.nextId ≠ id + 1

-- A member that has prepared the update.
def Ready (cmd : Command) (p : Participant) : Prop :=
  p.nextId = cmd.id ∧ p.Only cmd ∧ cmd.Fits

-- An ABORT takes the participant to the next update.
def Aborts (id : UInt32) (store : Store) (p : Participant) : Prop :=
  p.store = store ∧ (p.abort id).2.nextId = id + 1

instance {addrs : List Addr} {id : UInt32} : Visible (Vacant addrs id) :=
  ⟨fun h hq addr haddr => by
    rw [hq.participant]
    exact h addr haddr⟩

section Assertions

variable (addrs : List Addr)

def settled : (contract addrs).Assertion := known addrs (Idle addrs [])

-- An update that all members have prepared, or one whose COMMIT is logged.
def toCommit : Job → UInt32 → (contract addrs).Assertion
  | some (_, cmd), id => known addrs fun w => ∃ store, (cmd.isUpdate ∧ cmd.id = id ∧ cmd.Fits) ∧
      Running addrs id RECORD_UNRESOLVED store [] w ∧ Vacant addrs id w ∧ w.Everyone (Ready cmd)
  | none, id => known addrs fun w => ∃ store, Running addrs id RECORD_COMMIT store [] w ∧
      w.Everyone (Commits id store)

def committing (job : Job) (id : UInt32) (rest : List Addr) (_ : Bytes) : (contract addrs).Assertion :=
  known addrs fun w => ∃ store, Running addrs id RECORD_COMMIT store job.deleted w ∧
    w.Turn rest (Commits id store) (·.nextId = id + 1)

def uncommitted (job : Job) (id : UInt32) (addr : Addr) (rest : List Addr) (_ : Bytes) :
    (contract addrs).Assertion :=
  known addrs fun w => ∃ store, Running addrs id RECORD_COMMIT store job.deleted w ∧
    w.Dropping addr rest (Commits id store) (·.nextId = id + 1)

-- The keys of a DEL have not been remembered yet.
def committed (job : Job) : (contract addrs).Assertion := known addrs (Idle addrs job.deleted)

def toAbort (id : UInt32) : (contract addrs).Assertion := known addrs fun w =>
  ∃ status store, Running addrs id status store [] w ∧ w.Everyone (Aborts id store)

def aborting (id : UInt32) (rest : List Addr) : (contract addrs).Assertion := known addrs fun w =>
  ∃ store, Running addrs id RECORD_ABORT store [] w ∧ w.Turn rest (Aborts id store) (·.nextId = id + 1)

def unaborted (id : UInt32) (addr : Addr) (rest : List Addr) : (contract addrs).Assertion := known addrs fun w =>
  ∃ store, Running addrs id RECORD_ABORT store [] w ∧
    w.Dropping addr rest (Aborts id store) (·.nextId = id + 1)

end Assertions

variable {addrs : List Addr} {role : Role} {mode : Mode} {w u : World} {id : UInt32} {cmd : Command}
  {store : Store}

section Commit

-- Those that have prepared the update have only its command under its id.
theorem commits_of_ready {store' : Store} {ret : Bytes} {p : Participant} (hready : Ready cmd p)
    (hstore : p.store = store) (hdispatch : dispatch store cmd = .ok (ret, store')) :
    Commits cmd.id store' p := by
  intro ret' q hcommit
  rcases commit_ok hcommit with ⟨hlt, -, -⟩ | ⟨-, other, rest, hpending, hother, hrun, hnext, -⟩
  · rw [hready.1] at hlt
    exact absurd hlt (UInt32.lt_irrefl _)
  · have honly : other = cmd := hready.2.1 other (by simp [hpending]) hother
    rw [honly, hstore, hdispatch] at hrun
    exact ⟨hnext, (Prod.mk.inj (Except.ok.inj hrun)).2.symm⟩

-- The COMMIT is logged: from here on those are current that have committed.
theorem committing_of_ready (hupdate : cmd.isUpdate) (hfits : cmd.Fits)
    (hrunning : Running addrs cmd.id RECORD_UNRESOLVED store [] w) (hvacant : Vacant addrs cmd.id w)
    (hready : w.Everyone (Ready cmd)) :
    ∃ store', Running addrs cmd.id RECORD_COMMIT store' cmd.deleted (w.log RECORD_COMMIT cmd.id) ∧
      (w.log RECORD_COMMIT cmd.id).Everyone (Commits cmd.id store') := by
  obtain ⟨hnext, hsynced, hopen⟩ := hrunning
  obtain ⟨ret, store', hdispatch⟩ := Reference.dispatch_ok store hupdate
  have hdone : (⟨RECORD_COMMIT, cmd.id, w.coordinator.nextId⟩ : Record).done = false := rfl
  have hopens : (w.log RECORD_COMMIT cmd.id).coordinator.rManager.Opens cmd.id RECORD_COMMIT :=
    hopen.log rfl hdone
  refine ⟨store', ⟨hnext, ?_, hopens⟩, fun addr haddr => ?_⟩
  · refine hsynced.log hnext (.inr ⟨_, _, hopens, rfl, .inr (.inl rfl)⟩)
      (short_of_dispatch hdispatch hfits hsynced.short) (fun a ha hcurrent => ?_) fun a ha key hkey hgone => ?_
    · exact absurd ((Running.current_iff hopens (by decide) _).mp hcurrent) (hvacant a ha)
    · by_cases hold : key ∈ store
      · exact .inr (mem_deleted_of_dispatch hdispatch hold hgone)
      · exact ((hsynced.tracks a ha).covered key hkey hold).imp_right fun hnone => absurd hnone (by simp)
  · have hp := hready addr haddr
    have hcurrent : w.coordinator.Current (cmd.id + 1) (w.node addr).participant := by
      refine .inr ?_
      rw [hp.1]
      exact hopen
    exact commits_of_ready hp ((hsynced.tracks addr (hsynced.members addr haddr)).level hcurrent) hdispatch

theorem logCommit_triple (hmode : mode ≠ .outside) (job : Job) (id : UInt32) :
    Triple cdb agreeing (contract addrs) role mode (toCommit addrs job id) (Coordinator.log RECORD_COMMIT id)
      fun _ w => committing addrs job id w.coordinator.participants.toList [] w := by
  refine log_knows hmode ((toCommit addrs job id).stable hmode)
    (stable_self (fun c => committing addrs job id c.participants.toList []) hmode) (fun _ _ => trivial) fun w hw _ => ?_
  cases job with
  | some job =>
      obtain ⟨store, ⟨hupdate, rfl, hfits⟩, hrunning, hvacant, hready⟩ := hw
      obtain ⟨store', hrunning', hcommits⟩ := committing_of_ready hupdate hfits hrunning hvacant hready
      exact ⟨hrunning'.always, store', hrunning', World.Turn.start hcommits⟩
  | none =>
      obtain ⟨store, hrunning, hcommits⟩ := hw
      have hrunning' := hrunning.logDecision (.inl rfl)
      exact ⟨hrunning'.always, store, hrunning', World.Turn.start hcommits⟩

theorem commit_triple (hmode : mode ≠ .outside) (job : Job) (id : UInt32) (addr : Addr) (rest : List Addr)
    (ret : Bytes) :
    Triple cdb agreeing (contract addrs) role mode (committing addrs job id (addr :: rest) ret)
      (Coordinator.call addr (.COMMIT id)) fun reply w => match reply with
        | some (.string value) => committing addrs job id rest (if ret = [] then value else ret) w
        | _ => uncommitted addrs job id addr rest ret w := by
  refine call_knows hmode ((committing addrs job id (addr :: rest) ret).stable hmode) (fun reply => ?_)
    (fun _ _ => trivial) fun w choice reply u hw _ hcall => ?_
  · split <;> exact Contract.Assertion.stable _ hmode
  obtain ⟨store, hrunning, hturn⟩ := hw
  have hcommits := hturn.left addr List.mem_cons_self
  have hhandled : ∀ answer q, (w.node addr).participant.handle (.COMMIT id) = .ok (answer, q) →
      (∃ value, answer = .string value) ∧ q.nextId = id + 1 ∧ q.store = store := by
    intro answer q hhandle
    obtain ⟨⟨value, p⟩, hcommit, hanswer⟩ := ok_of_bind hhandle
    obtain ⟨rfl, rfl⟩ := Prod.mk.inj (Except.ok.inj hanswer)
    exact ⟨⟨value, rfl⟩, hcommits value p hcommit⟩
  have hrunning' : Running addrs id RECORD_COMMIT store job.deleted u := by
    refine hrunning.call hcall fun haddr answer q hhandle => ?_
    exact .of_store (hhandled answer q hhandle).2.2 hrunning.2.1.short
  have htouch := World.call_touches hcall
  obtain ⟨-, ⟨-, rfl⟩ | ⟨answer, hhandle, rfl | rfl⟩ | ⟨stage, cmd, hprepares, -⟩⟩ := World.call_participant hcall
  · exact ⟨hrunning'.always, store, hrunning', hturn.fail htouch⟩
  · obtain ⟨⟨value, rfl⟩, hnext, -⟩ := hhandled _ _ hhandle
    exact ⟨hrunning'.always, store, hrunning', hturn.next htouch hnext⟩
  · exact ⟨hrunning'.always, store, hrunning', hturn.fail htouch⟩
  · cases hprepares

theorem dropUncommitted_triple (hmode : mode ≠ .outside) (job : Job) (id : UInt32) (addr : Addr)
    (rest : List Addr) (ret : Bytes) :
    Triple cdb agreeing (contract addrs) role mode (uncommitted addrs job id addr rest ret)
      (Coordinator.eraseParticipant addr) fun _ => committing addrs job id rest ret := by
  refine modify_knows hmode ((uncommitted addrs job id addr rest ret).stable hmode)
    ((committing addrs job id rest ret).stable hmode) (fun _ _ => trivial) fun w hw => ?_
  obtain ⟨store, hrunning, hdrop⟩ := hw
  have hrunning' := hrunning.erase addr
  exact ⟨hrunning'.always, store, hrunning', hdrop.erase⟩

theorem logCommitDone_triple (hmode : mode ≠ .outside) (job : Job) (id : UInt32) (ret : Bytes) :
    Triple cdb agreeing (contract addrs) role mode
      (fun w => committing addrs job id [] ret w ∧ w.coordinator.participants ≠ ∅)
      (Coordinator.log RECORD_COMMIT_DONE id) fun _ => committed addrs job := by
  refine log_knows hmode (((committing addrs job id [] ret).stable hmode).and
    (stable_coordinator hmode (·.participants ≠ ∅))) ((committed addrs job).stable hmode) (fun _ _ => trivial) fun w hw _ => ?_
  obtain ⟨⟨store, hrunning, hturn⟩, -⟩ := hw
  have hidle := (hrunning.level_of_done (.inl rfl) hturn.finish).idle
  exact ⟨hidle.always, hidle⟩

end Commit

section Abort

theorem logAbort_triple (hmode : mode ≠ .outside) (id : UInt32) :
    Triple cdb agreeing (contract addrs) role mode (toAbort addrs id) (Coordinator.log RECORD_ABORT id)
      fun _ w => aborting addrs id w.coordinator.participants.toList w := by
  refine log_knows hmode ((toAbort addrs id).stable hmode)
    (stable_self (fun c => aborting addrs id c.participants.toList) hmode) (fun _ _ => trivial) fun w hw _ => ?_
  obtain ⟨status, store, hrunning, haborts⟩ := hw
  have hrunning' := hrunning.logDecision (.inr rfl)
  exact ⟨hrunning'.always, store, hrunning', World.Turn.start haborts⟩

theorem abort_triple (hmode : mode ≠ .outside) (id : UInt32) (addr : Addr) (rest : List Addr) :
    Triple cdb agreeing (contract addrs) role mode (aborting addrs id (addr :: rest))
      (Coordinator.call addr (.ABORT id)) fun reply w => match reply with
        | some (.bool true) => aborting addrs id rest w
        | _ => unaborted addrs id addr rest w := by
  refine call_knows hmode ((aborting addrs id (addr :: rest)).stable hmode) (fun reply => ?_)
    (fun _ _ => trivial) fun w choice reply u hw _ hcall => ?_
  · split <;> exact Contract.Assertion.stable _ hmode
  obtain ⟨store, hrunning, hturn⟩ := hw
  obtain ⟨hstore, hnext⟩ := hturn.left addr List.mem_cons_self
  have hrunning' : Running addrs id RECORD_ABORT store [] u := by
    refine hrunning.call hcall fun haddr answer q hhandle => ?_
    rw [handle_abort] at hhandle
    cases hhandle
    exact .of_store ((abort_store _ _).trans hstore) hrunning.2.1.short
  have htouch := World.call_touches hcall
  obtain ⟨-, ⟨-, rfl⟩ | ⟨answer, hhandle, rfl | rfl⟩ | ⟨stage, cmd, hprepares, -⟩⟩ := World.call_participant hcall
  · exact ⟨hrunning'.always, store, hrunning', hturn.fail htouch⟩
  · rw [handle_abort] at hhandle
    obtain ⟨rfl, hq⟩ := Prod.mk.inj (Except.ok.inj hhandle)
    exact ⟨hrunning'.always, store, hrunning', hturn.next htouch (by rw [← hq]; exact hnext)⟩
  · exact ⟨hrunning'.always, store, hrunning', hturn.fail htouch⟩
  · cases hprepares

theorem dropUnaborted_triple (hmode : mode ≠ .outside) (id : UInt32) (addr : Addr) (rest : List Addr) :
    Triple cdb agreeing (contract addrs) role mode (unaborted addrs id addr rest)
      (Coordinator.eraseParticipant addr) fun _ => aborting addrs id rest := by
  refine modify_knows hmode ((unaborted addrs id addr rest).stable hmode)
    ((aborting addrs id rest).stable hmode) (fun _ _ => trivial) fun w hw => ?_
  obtain ⟨store, hrunning, hdrop⟩ := hw
  have hrunning' := hrunning.erase addr
  exact ⟨hrunning'.always, store, hrunning', hdrop.erase⟩

theorem logAbortDone_triple (hmode : mode ≠ .outside) (id : UInt32) :
    Triple cdb agreeing (contract addrs) role mode
      (fun w => aborting addrs id [] w ∧ w.coordinator.participants ≠ ∅)
      (Coordinator.log RECORD_ABORT_DONE id) fun _ => settled addrs := by
  refine log_knows hmode (((aborting addrs id []).stable hmode).and
    (stable_coordinator hmode (·.participants ≠ ∅))) ((settled addrs).stable hmode) (fun _ _ => trivial) fun w hw _ => ?_
  obtain ⟨⟨store, hrunning, hturn⟩, -⟩ := hw
  have hidle := (hrunning.level_of_done (.inr rfl) hturn.finish).idle
  exact ⟨hidle.always, hidle⟩

end Abort

def deciding (hmode : mode ≠ .outside) : Deciding agreeing (contract addrs) role mode where
  settled := settled addrs
  toCommit := toCommit addrs
  committing := committing addrs
  uncommitted := uncommitted addrs
  committed job _ _ := committed addrs job
  replied job _ := committed addrs job
  logCommit := logCommit_triple hmode
  commit := commit_triple hmode
  dropUncommitted := dropUncommitted_triple hmode
  logCommitDone := logCommitDone_triple hmode
  commitLost := fun _ _ _ _ _ ⟨_, hrunning, _⟩ hempty => (hrunning.level_of_lost hempty).idle
  sendCommit client cmd _ ret := sendResult_keeps hmode (committed addrs (some (client, cmd))) client ret fun _ _ => trivial
  keepCommit _ _ _ _ h := h
  finishNone _ _ _ h := h
  toAbort _ := toAbort addrs
  aborting _ := aborting addrs
  unaborted _ := unaborted addrs
  aborted _ _ := settled addrs
  logAbort _ := logAbort_triple hmode
  abort _ := abort_triple hmode
  dropUnaborted _ := dropUnaborted_triple hmode
  logAbortDone _ := logAbortDone_triple hmode
  abortLost := fun _ _ _ _ ⟨_, hrunning, _⟩ hempty => (hrunning.level_of_lost hempty).idle
  sendAbort client _ id := sendError_keeps hmode (settled addrs) client (some id) fun _ _ => trivial
  keepAbort _ _ _ h := h

end Replicas

end CloudLabs.Cdb
