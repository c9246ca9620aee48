import CloudLabs.Cdb.Pending.Frames

namespace CloudLabs.Cdb.Pending

open Interaction Participant

-- A member that has prepared the update.
def Prepared (cmd : Command) (p : Participant) : Prop := p.nextId = cmd.id ∧ p.dbRequests = [some cmd]

instance {cmd : Command} : Seen (Prepared cmd) :=
  ⟨fun h hsame => ⟨hsame.nextId.trans h.1, hsame.dbRequests.trans h.2⟩⟩

section Assertions

variable (addrs : List Addr)

def settled : (contract addrs).Assertion := known addrs (Idle addrs)

def toCommit (id : UInt32) : (contract addrs).Assertion := known addrs fun w =>
  ∃ status, Running addrs id status w ∧ w.Everyone (CanCommit id)

def committing (id : UInt32) (rest : List Addr) : (contract addrs).Assertion := known addrs fun w =>
  Running addrs id RECORD_COMMIT w ∧ w.Turn rest (CanCommit id) (·.nextId = id + 1)

def uncommitted (id : UInt32) (addr : Addr) (rest : List Addr) : (contract addrs).Assertion := known addrs fun w =>
  Running addrs id RECORD_COMMIT w ∧ w.Dropping addr rest (CanCommit id) (·.nextId = id + 1)

def toAbort (id : UInt32) : (contract addrs).Assertion := known addrs fun w => ∃ status, Running addrs id status w

def aborting (id : UInt32) (rest : List Addr) : (contract addrs).Assertion := known addrs fun w =>
  Running addrs id RECORD_ABORT w ∧ w.Turn rest (fun _ => True) (·.nextId = id + 1)

def unaborted (id : UInt32) (addr : Addr) (rest : List Addr) : (contract addrs).Assertion := known addrs fun w =>
  Running addrs id RECORD_ABORT w ∧ w.Dropping addr rest (fun _ => True) (·.nextId = id + 1)

end Assertions

variable {addrs : List Addr} {role : Role} {mode : Mode} {w u : World} {id : UInt32} {addr : Addr}

section Commit

theorem logCommit_triple (hmode : mode ≠ .outside) (id : UInt32) :
    Triple cdb orderly (contract addrs) role mode (toCommit addrs id) (Coordinator.log RECORD_COMMIT id)
      fun _ w => committing addrs id w.coordinator.participants.toList w := by
  refine log_knows hmode ((toCommit addrs id).stable hmode)
    (stable_self (fun c => committing addrs id c.participants.toList) hmode) ?_ fun w hw _ => ?_
  · rintro w ⟨status, hrunning, -⟩ -
    exact hrunning.waits
  · obtain ⟨status, hrunning, hcan⟩ := hw
    have hrunning' := hrunning.logDecision (.inl rfl)
    exact ⟨hrunning'.always, hrunning', World.Turn.start hcan⟩

-- A COMMIT is answered with a string, and clears what waits.
theorem handled_of_commit {answer : Reply} {p q : Participant} {c : Coordinator} (hcan : p.CanCommit id)
    (hholds : Holds c (id + 1) p) (hnear : Near id p) (h : p.handle (.COMMIT id) = .ok (answer, q)) :
    (∃ value, answer = .string value) ∧ q.nextId = id + 1 ∧ q.dbRequests = [] := by
  obtain ⟨⟨value, p'⟩, hcommit, hanswer⟩ := ok_of_bind h
  obtain ⟨rfl, rfl⟩ := Prod.mk.inj (Except.ok.inj hanswer)
  exact ⟨⟨value, rfl⟩, commit_clears hcan hholds hnear hcommit⟩

theorem commit_triple (hmode : mode ≠ .outside) (id : UInt32) (addr : Addr) (rest : List Addr) :
    Triple cdb orderly (contract addrs) role mode (committing addrs id (addr :: rest))
      (Coordinator.call addr (.COMMIT id)) fun reply w => match reply with
        | some (.string _) => committing addrs id rest w
        | _ => uncommitted addrs id addr rest w := by
  refine call_knows hmode ((committing addrs id (addr :: rest)).stable hmode) (fun reply => ?_) (fun w hw => ?_)
    fun w choice reply u hw _ hcall => ?_
  · split <;> exact Contract.Assertion.stable _ hmode
  · obtain ⟨hrunning, hturn⟩ := hw
    exact ⟨(hturn.left addr List.mem_cons_self).heeds, fun _ => hrunning.waits⟩
  obtain ⟨hrunning, hturn⟩ := hw
  have hmember := hturn.member addr List.mem_cons_self
  have hhandled : ∀ answer q, (w.node addr).participant.handle (.COMMIT id) = .ok (answer, q) →
      (∃ value, answer = .string value) ∧ q.nextId = id + 1 ∧ q.dbRequests = [] :=
    fun _ _ => handled_of_commit (hturn.left addr List.mem_cons_self) (hrunning.2.1.holds_member hmember)
      (hrunning.2.2.2 addr hmember)
  have hrunning' : Running addrs id RECORD_COMMIT u := hrunning.call hcall fun answer q hq => by
    obtain ⟨-, hnext, hnone⟩ := hhandled answer q hq
    exact ⟨.inr hnext, .of_clear hnone⟩
  have htouch := World.call_touches hcall
  obtain ⟨-, ⟨-, rfl⟩ | ⟨answer, hhandle, rfl | rfl⟩ | ⟨stage, cmd, hprepares, -⟩⟩ := World.call_participant hcall
  · exact ⟨hrunning'.always, hrunning', hturn.fail htouch⟩
  · obtain ⟨⟨value, rfl⟩, hnext, -⟩ := hhandled _ _ hhandle
    exact ⟨hrunning'.always, hrunning', hturn.next htouch hnext⟩
  · exact ⟨hrunning'.always, hrunning', hturn.fail htouch⟩
  · cases hprepares

theorem dropUncommitted_triple (hmode : mode ≠ .outside) (id : UInt32) (addr : Addr) (rest : List Addr) :
    Triple cdb orderly (contract addrs) role mode (uncommitted addrs id addr rest)
      (Coordinator.eraseParticipant addr) fun _ => committing addrs id rest := by
  refine modify_knows hmode ((uncommitted addrs id addr rest).stable hmode)
    ((committing addrs id rest).stable hmode) (fun w hw _ => hw.1.waits) fun w hw => ?_
  obtain ⟨hrunning, hdrop⟩ := hw
  have hrunning' := hrunning.erase addr
  exact ⟨hrunning'.always, hrunning', hdrop.erase⟩

theorem logCommitDone_triple (hmode : mode ≠ .outside) (id : UInt32) :
    Triple cdb orderly (contract addrs) role mode
      (fun w => committing addrs id [] w ∧ w.coordinator.participants ≠ ∅)
      (Coordinator.log RECORD_COMMIT_DONE id) fun _ => settled addrs := by
  refine log_knows hmode (((committing addrs id []).stable hmode).and
    (stable_coordinator hmode (·.participants ≠ ∅))) ((settled addrs).stable hmode)
    (fun w hw _ => hw.1.1.waits) fun w hw _ => ?_
  obtain ⟨⟨hrunning, hturn⟩, -⟩ := hw
  have hidle := hrunning.idle_of_done (.inl rfl) hturn.finish
  exact ⟨hidle.always, hidle⟩

end Commit

section Abort

theorem logAbort_triple (hmode : mode ≠ .outside) (id : UInt32) :
    Triple cdb orderly (contract addrs) role mode (toAbort addrs id) (Coordinator.log RECORD_ABORT id)
      fun _ w => aborting addrs id w.coordinator.participants.toList w := by
  refine log_knows hmode ((toAbort addrs id).stable hmode)
    (stable_self (fun c => aborting addrs id c.participants.toList) hmode) ?_ fun w hw _ => ?_
  · rintro w ⟨status, hrunning⟩ -
    exact hrunning.waits
  · obtain ⟨status, hrunning⟩ := hw
    have hrunning' := hrunning.logDecision (.inr rfl)
    exact ⟨hrunning'.always, hrunning', World.Turn.start fun _ _ => trivial⟩

theorem abort_triple (hmode : mode ≠ .outside) (id : UInt32) (addr : Addr) (rest : List Addr) :
    Triple cdb orderly (contract addrs) role mode (aborting addrs id (addr :: rest))
      (Coordinator.call addr (.ABORT id)) fun reply w => match reply with
        | some (.bool true) => aborting addrs id rest w
        | _ => unaborted addrs id addr rest w := by
  refine call_knows hmode ((aborting addrs id (addr :: rest)).stable hmode) (fun reply => ?_) (fun w hw => ?_)
    fun w choice reply u hw _ hcall => ?_
  · split <;> exact Contract.Assertion.stable _ hmode
  · obtain ⟨hrunning, hturn⟩ := hw
    have hmember := hturn.member addr List.mem_cons_self
    exact ⟨((hrunning.2.1.holds_member hmember).orderly.canAbort id).heeds, fun _ => hrunning.waits⟩
  obtain ⟨hrunning, hturn⟩ := hw
  have hmember := hturn.member addr List.mem_cons_self
  obtain ⟨hnext, hnone⟩ := abort_clears (hrunning.2.1.holds_member hmember) (hrunning.2.2.2 addr hmember)
  have hrunning' : Running addrs id RECORD_ABORT u := hrunning.call hcall fun answer q hq => by
    rw [handle_abort] at hq
    cases hq
    exact ⟨.inr hnext, .of_clear hnone⟩
  have htouch := World.call_touches hcall
  obtain ⟨-, ⟨-, rfl⟩ | ⟨answer, hhandle, rfl | rfl⟩ | ⟨stage, cmd, hprepares, -⟩⟩ := World.call_participant hcall
  · exact ⟨hrunning'.always, hrunning', hturn.fail htouch⟩
  · rw [handle_abort] at hhandle
    obtain ⟨rfl, hq⟩ := Prod.mk.inj (Except.ok.inj hhandle)
    exact ⟨hrunning'.always, hrunning', hturn.next htouch (by rw [← hq]; exact hnext)⟩
  · exact ⟨hrunning'.always, hrunning', hturn.fail htouch⟩
  · cases hprepares

theorem dropUnaborted_triple (hmode : mode ≠ .outside) (id : UInt32) (addr : Addr) (rest : List Addr) :
    Triple cdb orderly (contract addrs) role mode (unaborted addrs id addr rest)
      (Coordinator.eraseParticipant addr) fun _ => aborting addrs id rest := by
  refine modify_knows hmode ((unaborted addrs id addr rest).stable hmode)
    ((aborting addrs id rest).stable hmode) (fun w hw _ => hw.1.waits) fun w hw => ?_
  obtain ⟨hrunning, hdrop⟩ := hw
  have hrunning' := hrunning.erase addr
  exact ⟨hrunning'.always, hrunning', hdrop.erase⟩

theorem logAbortDone_triple (hmode : mode ≠ .outside) (id : UInt32) :
    Triple cdb orderly (contract addrs) role mode
      (fun w => aborting addrs id [] w ∧ w.coordinator.participants ≠ ∅)
      (Coordinator.log RECORD_ABORT_DONE id) fun _ => settled addrs := by
  refine log_knows hmode (((aborting addrs id []).stable hmode).and
    (stable_coordinator hmode (·.participants ≠ ∅))) ((settled addrs).stable hmode)
    (fun w hw _ => hw.1.1.waits) fun w hw _ => ?_
  obtain ⟨⟨hrunning, hturn⟩, -⟩ := hw
  have hidle := hrunning.idle_of_done (.inr rfl) hturn.finish
  exact ⟨hidle.always, hidle⟩

end Abort

-- What is told to a client while nothing is in progress.
theorem idle_issue {effect : Effect} (hcall : ∀ addr request, effect ≠ .call addr request) (hidle : Idle addrs w) :
    (contract addrs).issue mode w effect := by
  cases effect with
  | call addr request => exact absurd rfl (hcall addr request)
  | get => trivial
  | notifyAll => trivial
  | _ => exact fun _ => hidle.waits

def deciding (hmode : mode ≠ .outside) : Deciding orderly (contract addrs) role mode where
  settled := settled addrs
  toCommit _ := toCommit addrs
  committing _ id rest _ := committing addrs id rest
  uncommitted _ id addr rest _ := uncommitted addrs id addr rest
  committed _ _ _ := settled addrs
  replied _ _ := settled addrs
  logCommit _ := logCommit_triple hmode
  commit _ id addr rest _ := commit_triple hmode id addr rest
  dropUncommitted _ id addr rest _ := dropUncommitted_triple hmode id addr rest
  logCommitDone _ id _ := logCommitDone_triple hmode id
  commitLost := fun _ _ _ _ _ ⟨hrunning, _⟩ hempty => hrunning.idle_of_lost hempty
  sendCommit client _ _ ret := sendResult_keeps hmode (settled addrs) client ret fun _ h => idle_issue (by simp) h
  keepCommit _ _ _ _ h := h
  finishNone _ _ _ h := h
  toAbort _ := toAbort addrs
  aborting _ := aborting addrs
  unaborted _ := unaborted addrs
  aborted _ _ := settled addrs
  logAbort _ := logAbort_triple hmode
  abort _ := abort_triple hmode
  dropUnaborted _ := dropUnaborted_triple hmode
  logAbortDone _ := logAbortDone_triple hmode
  abortLost := fun _ _ _ _ ⟨hrunning, _⟩ hempty => hrunning.idle_of_lost hempty
  sendAbort client _ id := sendError_keeps hmode (settled addrs) client (some id) fun _ h => idle_issue (by simp) h
  keepAbort _ _ _ h := h

end CloudLabs.Cdb.Pending
