import CloudLabs.Cdb.Refinement.Frames

namespace CloudLabs.Cdb.Refinement

open Interaction

variable (X : Refinement)

section Assertions

variable (client : Client) (old : List (Client × Bytes))

-- The request of the client has been answered, and nothing is in progress.
def settled : X.contract.Assertion := X.known (fun w => (∃ msg, w.replies = (client, msg) :: old) ∧ X.Idle w) (by infer_instance)

-- All members have prepared the update, and nobody has refused it.
def toCommit (job : Job) (id : UInt32) : X.contract.Assertion := X.known (fun w =>
  ∃ cmd r store, (job = some (client, cmd) ∧ id = cmd.id) ∧ X.Accepted client old cmd r store w ∧
    w.Everyone (·.Holds store cmd.id [some cmd])) (by infer_instance)

-- `ret` is the answer of those that have committed, if anybody has.
def committing (job : Job) (id : UInt32) (rest : List Addr) (ret : Bytes) : X.contract.Assertion :=
  X.known (fun w => ∃ cmd r store result store',
    (job = some (client, cmd) ∧ id = cmd.id ∧ Participant.dispatch store cmd = .ok (result, store') ∧
      (ret = [] ∨ ret = result) ∧ (X.survivor ∉ rest → ret = result)) ∧
    X.Accepted client old cmd r store w ∧
    w.Turn rest (·.Holds store cmd.id [some cmd]) (·.Holds store' (cmd.id + 1) [])) (by infer_instance)

def uncommitted (job : Job) (id : UInt32) (addr : Addr) (rest : List Addr) (ret : Bytes) :
    X.contract.Assertion :=
  X.known (fun w => ∃ cmd r store result store',
    (job = some (client, cmd) ∧ id = cmd.id ∧ Participant.dispatch store cmd = .ok (result, store') ∧
      (ret = [] ∨ ret = result) ∧ (X.survivor ∉ rest → ret = result) ∧ addr ≠ X.survivor) ∧
    X.Accepted client old cmd r store w ∧ w.Everyone (fun p => p.store = store ∨ p.store = store') ∧
    w.Dropping addr rest (·.Holds store cmd.id [some cmd]) (·.Holds store' (cmd.id + 1) [])) (by infer_instance)

def committed (job : Job) (id : UInt32) (ret : Bytes) : X.contract.Assertion := X.known (fun w =>
  ∃ cmd r store store', (job = some (client, cmd) ∧ id = cmd.id ∧
      Participant.dispatch store cmd = .ok (ret, store')) ∧
    X.Accepted client old cmd r store w ∧ w.Everyone (·.Holds store' (cmd.id + 1) [])) (by infer_instance)

-- Somebody has refused the update; the others may have prepared it.
def toAbort (job : Job) (id : UInt32) : X.contract.Assertion := X.known (fun w =>
  ∃ cmd r store, (job = some (client, cmd) ∧ id = cmd.id) ∧ X.Rejected client old cmd r store w ∧
    w.Everyone (fun p => p.Holds store cmd.id [] ∨ p.Holds store cmd.id [some cmd])) (by infer_instance)

def aborting (job : Job) (id : UInt32) (rest : List Addr) : X.contract.Assertion := X.known (fun w =>
  ∃ cmd r store, (job = some (client, cmd) ∧ id = cmd.id) ∧ X.Rejected client old cmd r store w ∧
    w.Turn rest (fun p => p.Holds store cmd.id [] ∨ p.Holds store cmd.id [some cmd])
      (·.Holds store (cmd.id + 1) [])) (by infer_instance)

def unaborted (job : Job) (id : UInt32) (addr : Addr) (rest : List Addr) : X.contract.Assertion :=
  X.known (fun w => ∃ cmd r store, (job = some (client, cmd) ∧ id = cmd.id ∧ addr ≠ X.survivor) ∧
    X.Rejected client old cmd r store w ∧ w.Everyone (·.store = store) ∧
    w.Dropping addr rest (fun p => p.Holds store cmd.id [] ∨ p.Holds store cmd.id [some cmd])
      (·.Holds store (cmd.id + 1) [])) (by infer_instance)

def aborted (job : Job) (id : UInt32) : X.contract.Assertion := X.known (fun w =>
  ∃ cmd r store, (job = some (client, cmd) ∧ id = cmd.id) ∧ X.Rejected client old cmd r store w ∧
    w.Everyone (·.Holds store (cmd.id + 1) [])) (by infer_instance)

end Assertions

section Decide

variable {X} {role : Role} {mode : Mode} {client : Client} {old : List (Client × Bytes)} {cmd : Command}
  {r : Reference} {store store' : Store} {ret : Bytes} {w u : World}

theorem logCommit_triple (hmode : mode ≠ .outside) (job : Job) (id : UInt32) :
    Triple cdb X.terms X.contract role mode (X.toCommit client old job id)
      (Coordinator.log RECORD_COMMIT id)
      fun _ w => X.committing client old job id w.coordinator.participants.toList [] w := by
  refine log_knows hmode ((X.toCommit client old job id).stable hmode)
    (stable_self (fun c => X.committing client old job id c.participants.toList []) hmode) fun w hw => ?_
  obtain ⟨cmd, r, store, ⟨hjob, hid⟩, ⟨hbusy, hveto⟩, hall⟩ := hw
  obtain ⟨result, store', hdispatch⟩ := Reference.dispatch_ok store hbusy.update
  have hlog : X.Busy client old cmd r store (w.log RECORD_COMMIT id) := hbusy.log (by decide)
  refine ⟨hlog.agrees (hall.mono fun p hp => hp.store), cmd, r, store, result, store',
    ⟨hjob, hid, hdispatch, .inl rfl, fun hnot => ?_⟩, ⟨hlog, hveto⟩, World.Turn.start hall⟩
  exact absurd (Std.ExtTreeSet.mem_toList.mpr hbusy.answered.2.1) hnot

-- The stores after a call that may or may not have changed one of them.
theorem World.Turn.stores {addr : Addr} {rest : List Addr} {left done : Participant → Prop}
    {P : Participant → Prop} (h : w.Turn rest left done) (htouch : w.Touches u addr)
    (hleft : ∀ p, left p → P p) (hdone : ∀ p, done p → P p) (haddr : P (u.node addr).participant) :
    u.Everyone P := by
  intro a ha
  by_cases heq : a = addr
  · rwa [heq]
  · rw [htouch.coordinator] at ha
    rw [htouch.node a heq]
    exact (h.either a ha).elim (hleft _) (hdone _)

theorem commit_triple (hmode : mode ≠ .outside) (job : Job) (id : UInt32) (addr : Addr)
    (rest : List Addr) (ret : Bytes) :
    Triple cdb X.terms X.contract role mode (X.committing client old job id (addr :: rest) ret)
      (Coordinator.call addr (.COMMIT id)) fun reply w => match reply with
        | some (.string value) => X.committing client old job id rest (if ret = [] then value else ret) w
        | _ => X.uncommitted client old job id addr rest ret w := by
  refine call_knows hmode ((X.committing client old job id (addr :: rest) ret).stable hmode)
    (fun reply => ?_) fun w choice reply u hw hT hcall => ?_
  · split <;> exact Contract.Assertion.stable _ hmode
  obtain ⟨cmd, r, store, result, store', ⟨hjob, rfl, hdispatch, hret, hlast⟩, ⟨hbusy, hveto⟩, hturn⟩ := hw
  have hp := hturn.left addr (by simp)
  obtain ⟨q, hcommit, hstore, hnext, hpending⟩ :=
    Participant.commit_of_pending hp.nextId hp.pending rfl (by rw [hp.store]; exact hdispatch)
  have hhandle : (w.node addr).participant.handle (.COMMIT cmd.id) = .ok (.string result, q) := by
    simp only [Participant.handle, hcommit, ok_bind, pure_eq_ok]
  have hq : q.Holds store' (cmd.id + 1) [] := ⟨hstore, hnext, hpending⟩
  have htouch := World.call_touches hcall
  obtain ⟨halive, hcases⟩ := call_cases hbusy.answered hT hhandle hcall
  rcases hcases with ⟨rfl, hnode, hvetoed⟩ | ⟨rfl, hne, hvetoed, hnode⟩ | ⟨stage, _, hprepares, -⟩
  · have hbusy' := hbusy.call hcall halive hvetoed
    have hturn' := hturn.next htouch (by rw [hnode]; exact hq)
    have hresult : (if ret = [] then result else ret) = result := by
      rcases hret with rfl | rfl <;> simp
    refine ⟨hbusy'.agrees_commit hdispatch (hturn'.either.mono fun p => Or.imp (·.store) (·.store)),
      cmd, r, store, result, store', ⟨hjob, rfl, hdispatch, .inr hresult, fun _ => hresult⟩,
      ⟨hbusy', by rwa [hvetoed]⟩, hturn'⟩
  · have hbusy' := hbusy.call hcall halive hvetoed
    have hstores : u.Everyone fun p => p.store = store ∨ p.store = store' := by
      refine World.Turn.stores hturn htouch (fun p hp => .inl hp.store) (fun p hp => .inr hp.store) ?_
      rcases hnode with hnode | hnode
      · exact .inl (by rw [hnode]; exact hp.store)
      · exact .inr (by rw [hnode]; exact hstore)
    exact ⟨hbusy'.agrees_commit hdispatch hstores, cmd, r, store, result, store',
      ⟨hjob, rfl, hdispatch, hret, fun hnot => hlast (by simp [hnot, hne.symm]), hne⟩,
      ⟨hbusy', by rwa [hvetoed]⟩, hstores, hturn.fail htouch⟩
  · cases hprepares

theorem dropUncommitted_triple (hmode : mode ≠ .outside) (job : Job) (id : UInt32) (addr : Addr)
    (rest : List Addr) (ret : Bytes) :
    Triple cdb X.terms X.contract role mode (X.uncommitted client old job id addr rest ret)
      (Coordinator.eraseParticipant addr) fun _ => X.committing client old job id rest ret := by
  refine modify_knows hmode ((X.uncommitted client old job id addr rest ret).stable hmode)
    ((X.committing client old job id rest ret).stable hmode) fun w hw => ?_
  obtain ⟨cmd, r, store, result, store', ⟨hjob, hid, hdispatch, hret, hlast, hne⟩, ⟨hbusy, hveto⟩, -, hdrop⟩ := hw
  have hbusy' := hbusy.erase hne
  have hturn := hdrop.erase
  exact ⟨hbusy'.agrees_commit hdispatch (hturn.either.mono fun p => Or.imp (·.store) (·.store)),
    cmd, r, store, result, store', ⟨hjob, hid, hdispatch, hret, hlast⟩, ⟨hbusy', hveto⟩, hturn⟩

theorem logCommitDone_triple (hmode : mode ≠ .outside) (job : Job) (id : UInt32) (ret : Bytes) :
    Triple cdb X.terms X.contract role mode
      (fun w => X.committing client old job id [] ret w ∧ w.coordinator.participants ≠ ∅)
      (Coordinator.log RECORD_COMMIT_DONE id) fun _ => X.committed client old job id ret := by
  refine log_knows hmode (((X.committing client old job id [] ret).stable hmode).and
    (stable_coordinator hmode (·.participants ≠ ∅))) ((X.committed client old job id ret).stable hmode)
    fun w hw => ?_
  obtain ⟨⟨cmd, r, store, result, store', ⟨hjob, hid, hdispatch, -, hlast⟩, ⟨hbusy, hveto⟩, hturn⟩, -⟩ := hw
  have hlog : X.Busy client old cmd r store (w.log RECORD_COMMIT_DONE id) := hbusy.log (by decide)
  have hall : (w.log RECORD_COMMIT_DONE id).Everyone (·.Holds store' (cmd.id + 1) []) := hturn.finish
  rw [← hlast (by simp)] at hdispatch
  exact ⟨hlog.agrees_commit hdispatch (hall.mono fun p hp => .inr hp.store), cmd, r, store, store',
    ⟨hjob, hid, hdispatch⟩, ⟨hlog, hveto⟩, hall⟩

theorem sendCommit_triple (hmode : mode ≠ .outside) (client' : Client) (cmd : Command) (id : UInt32)
    (ret : Bytes) :
    Triple cdb X.terms X.contract role mode (X.committed client old (some (client', cmd)) id ret)
      (Coordinator.sendResult client' ret) fun _ => X.settled client old := by
  refine Coordinator.sendResult_triple ((X.committed client old _ id ret).stable hmode)
    ((X.settled client old).stable hmode) fun w _ hw => ?_
  obtain ⟨cmd', r, store, store', ⟨hjob, -, hdispatch⟩, ⟨hbusy, hveto⟩, hall⟩ := hw
  cases hjob
  have hserve := Reference.dispatch_view hbusy.view hdispatch
  rw [hbusy.asked, Reference.serve_setId] at hserve
  have hidle : X.Idle { w with replies := (client, ret) :: w.replies } := by
    refine ⟨⟨store'.view, r.updates + 1⟩, store', cmd.id + 1,
      hbusy.answered.reply rfl rfl rfl rfl (Nat.le_succ _) fun veto hagree => ?_, rfl, hbusy.counts,
      hbusy.nextId, hall⟩
    have hnot : veto (r.updates + 1) = false := by
      have hiff := hagree (r.updates + 1) (Nat.le_refl _)
      cases hv : veto (r.updates + 1) with
      | false => rfl
      | true => exact absurd (hiff.mp hv) hveto
    rw [hnot, Bool.and_false, if_neg Bool.false_ne_true, hserve]
  exact ⟨trivial, hidle.agrees, give_inside hmode _ _, ⟨ret, by rw [← hbusy.replies]⟩, hidle⟩

theorem logAbort_triple (hmode : mode ≠ .outside) (job : Job) (id : UInt32) :
    Triple cdb X.terms X.contract role mode (X.toAbort client old job id)
      (Coordinator.log RECORD_ABORT id)
      fun _ w => X.aborting client old job id w.coordinator.participants.toList w := by
  refine log_knows hmode ((X.toAbort client old job id).stable hmode)
    (stable_self (fun c => X.aborting client old job id c.participants.toList) hmode) fun w hw => ?_
  obtain ⟨cmd, r, store, hjob, ⟨hbusy, hveto⟩, hall⟩ := hw
  have hlog : X.Busy client old cmd r store (w.log RECORD_ABORT id) := hbusy.log (by decide)
  exact ⟨hlog.agrees (hall.mono fun p hp => hp.elim (·.store) (·.store)), cmd, r, store, hjob,
    ⟨hlog, hveto⟩, World.Turn.start hall⟩

-- An ABORT takes the pending command away, if there is one.
theorem abort_holds {p : Participant} {id : UInt32} {cmd : Command}
    (h : p.Holds store id [] ∨ p.Holds store id [some cmd]) :
    (p.abort id).2.Holds store (id + 1) [] ∧ (p.abort id).1 = true := by
  have hid : p.nextId = id := h.elim (·.nextId) (·.nextId)
  obtain ⟨hnext, hpending⟩ := Participant.abort_of_eq hid
  have hstore : (p.abort id).2.store = p.store ∧ (p.abort id).1 = true := by
    simp [Participant.abort, hid]
  refine ⟨⟨hstore.1.trans (h.elim (·.store) (·.store)), hnext, ?_⟩, hstore.2⟩
  rw [hpending]
  rcases h with h | h <;> rw [h.pending] <;> rfl

theorem abort_triple (hmode : mode ≠ .outside) (job : Job) (id : UInt32) (addr : Addr)
    (rest : List Addr) :
    Triple cdb X.terms X.contract role mode (X.aborting client old job id (addr :: rest))
      (Coordinator.call addr (.ABORT id)) fun reply w => match reply with
        | some (.bool true) => X.aborting client old job id rest w
        | _ => X.unaborted client old job id addr rest w := by
  refine call_knows hmode ((X.aborting client old job id (addr :: rest)).stable hmode)
    (fun reply => ?_) fun w choice reply u hw hT hcall => ?_
  · split <;> exact Contract.Assertion.stable _ hmode
  obtain ⟨cmd, r, store, ⟨hjob, rfl⟩, ⟨hbusy, hveto⟩, hturn⟩ := hw
  have hp := hturn.left addr (by simp)
  obtain ⟨hq, hok⟩ := abort_holds hp
  have hhandle : (w.node addr).participant.handle (.ABORT cmd.id) =
      .ok (.bool true, ((w.node addr).participant.abort cmd.id).2) := by
    simp only [Participant.handle, hok, pure_eq_ok]
  have htouch := World.call_touches hcall
  have hleft : ∀ p : Participant, p.Holds store cmd.id [] ∨ p.Holds store cmd.id [some cmd] →
      p.store = store := fun p hp => hp.elim (·.store) (·.store)
  obtain ⟨halive, hcases⟩ := call_cases hbusy.answered hT hhandle hcall
  rcases hcases with ⟨rfl, hnode, hvetoed⟩ | ⟨rfl, hne, hvetoed, hnode⟩ | ⟨stage, _, hprepares, -⟩
  · have hbusy' := hbusy.call hcall halive hvetoed
    have hturn' := hturn.next htouch (by rw [hnode]; exact hq)
    exact ⟨hbusy'.agrees (hturn'.either.mono fun p hp => hp.elim (hleft p) (·.store)), cmd, r, store,
      ⟨hjob, rfl⟩, ⟨hbusy', by rwa [hvetoed]⟩, hturn'⟩
  · have hbusy' := hbusy.call hcall halive hvetoed
    have hstores : u.Everyone (·.store = store) := by
      refine World.Turn.stores hturn htouch hleft (fun p hp => hp.store) ?_
      rcases hnode with hnode | hnode
      · rw [hnode]
        exact hleft _ hp
      · rw [hnode]
        exact hq.store
    exact ⟨hbusy'.agrees hstores, cmd, r, store, ⟨hjob, rfl, hne⟩, ⟨hbusy', by rwa [hvetoed]⟩, hstores,
      hturn.fail htouch⟩
  · cases hprepares

theorem dropUnaborted_triple (hmode : mode ≠ .outside) (job : Job) (id : UInt32) (addr : Addr)
    (rest : List Addr) :
    Triple cdb X.terms X.contract role mode (X.unaborted client old job id addr rest)
      (Coordinator.eraseParticipant addr) fun _ => X.aborting client old job id rest := by
  refine modify_knows hmode ((X.unaborted client old job id addr rest).stable hmode)
    ((X.aborting client old job id rest).stable hmode) fun w hw => ?_
  obtain ⟨cmd, r, store, ⟨hjob, hid, hne⟩, ⟨hbusy, hveto⟩, hstores, hdrop⟩ := hw
  have hbusy' := hbusy.erase hne
  refine ⟨hbusy'.agrees fun a ha => hstores a (Std.ExtTreeSet.mem_of_mem_erase ha), cmd, r, store,
    ⟨hjob, hid⟩, ⟨hbusy', hveto⟩, hdrop.erase⟩

theorem logAbortDone_triple (hmode : mode ≠ .outside) (job : Job) (id : UInt32) :
    Triple cdb X.terms X.contract role mode
      (fun w => X.aborting client old job id [] w ∧ w.coordinator.participants ≠ ∅)
      (Coordinator.log RECORD_ABORT_DONE id) fun _ => X.aborted client old job id := by
  refine log_knows hmode (((X.aborting client old job id []).stable hmode).and
    (stable_coordinator hmode (·.participants ≠ ∅))) ((X.aborted client old job id).stable hmode)
    fun w hw => ?_
  obtain ⟨⟨cmd, r, store, hjob, ⟨hbusy, hveto⟩, hturn⟩, -⟩ := hw
  have hlog : X.Busy client old cmd r store (w.log RECORD_ABORT_DONE id) := hbusy.log (by decide)
  have hall : (w.log RECORD_ABORT_DONE id).Everyone (·.Holds store (cmd.id + 1) []) := hturn.finish
  exact ⟨hlog.agrees (hall.mono fun p hp => hp.store), cmd, r, store, hjob, ⟨hlog, hveto⟩, hall⟩

theorem sendAbort_triple (hmode : mode ≠ .outside) (client' : Client) (cmd : Command) (id : UInt32) :
    Triple cdb X.terms X.contract role mode (X.aborted client old (some (client', cmd)) id)
      (Coordinator.sendError client' (some id)) fun _ => X.settled client old := by
  refine Coordinator.sendError_triple ((X.aborted client old _ id).stable hmode)
    ((X.settled client old).stable hmode) fun w _ hw => ?_
  obtain ⟨cmd', r, store, ⟨hjob, -⟩, ⟨hbusy, hveto⟩, hall⟩ := hw
  cases hjob
  have hkind : (X.asked client).isUpdate = true := by
    have hupdate := hbusy.update
    rw [hbusy.asked] at hupdate
    cases hasked : X.asked client <;> rw [hasked] at hupdate <;> exact hupdate
  have hidle : X.Idle { w with
      replies := (client, errorString) :: w.replies, refused := (some id).toList ++ w.refused } := by
    refine ⟨⟨r.map, r.updates + 1⟩, store, cmd.id + 1,
      hbusy.answered.reply rfl rfl rfl rfl (Nat.le_succ _) fun veto hagree => ?_, hbusy.view,
      hbusy.counts, hbusy.nextId, hall⟩
    have hyes : veto (r.updates + 1) = true := (hagree (r.updates + 1) (Nat.le_refl _)).mpr hveto
    rw [hyes, hkind, Bool.and_true, if_pos rfl]
    rfl
  exact ⟨trivial, hidle.agrees, give_inside hmode _ _, ⟨errorString, by rw [← hbusy.replies]⟩, hidle⟩

-- How an update of the client is decided.
def deciding (hmode : mode ≠ .outside) (client : Client) (old : List (Client × Bytes)) :
    Deciding X.terms X.contract role mode where
  settled := X.settled client old
  toCommit := X.toCommit client old
  committing := X.committing client old
  uncommitted := X.uncommitted client old
  committed := X.committed client old
  replied _ _ := X.settled client old
  logCommit := logCommit_triple hmode
  commit := commit_triple hmode
  dropUncommitted := dropUncommitted_triple hmode
  logCommitDone := logCommitDone_triple hmode
  commitLost := fun _ _ _ _ _ ⟨_, _, _, _, _, _, hbusy, _⟩ hempty => absurd hempty hbusy.1.members_ne
  sendCommit := sendCommit_triple hmode
  keepCommit := fun _ _ _ _ ⟨_, _, _, _, hjob, _⟩ => nomatch hjob.1
  finishNone := fun _ _ _ h => h
  toAbort := X.toAbort client old
  aborting := X.aborting client old
  unaborted := X.unaborted client old
  aborted := X.aborted client old
  logAbort := logAbort_triple hmode
  abort := abort_triple hmode
  dropUnaborted := dropUnaborted_triple hmode
  logAbortDone := logAbortDone_triple hmode
  abortLost := fun _ _ _ _ ⟨_, _, _, _, hbusy, _⟩ hempty => absurd hempty hbusy.1.members_ne
  sendAbort := sendAbort_triple hmode
  keepAbort := fun _ _ _ ⟨_, _, _, hjob, _⟩ => nomatch hjob.1

end Decide

end CloudLabs.Cdb.Refinement
