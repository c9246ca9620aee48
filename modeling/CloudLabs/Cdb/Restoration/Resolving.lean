import CloudLabs.Cdb.Restoration

namespace CloudLabs.Cdb

open Interaction RecordManager Participant Coordinator Replicas
open Program (Yields)

namespace Restoration

-- Nobody is lost, and nothing is applied.
structure Onward (w u : World) : Prop where
  members : ∀ addr ∈ w.coordinator.participants, addr ∈ u.coordinator.participants
  alive : ∀ addr, (w.node addr).alive = true → (u.node addr).alive = true
  applied : u.applied = w.applied

namespace Onward

variable {w u t : World} {addr : Addr} {q : Participant}

theorem refl (w : World) : Onward w w := ⟨fun _ h => h, fun _ h => h, rfl⟩

theorem trans (h : Onward w u) (h' : Onward u t) : Onward w t :=
  ⟨fun addr haddr => h'.members addr (h.members addr haddr), fun addr haddr => h'.alive addr (h.alive addr haddr),
    h'.applied.trans h.applied⟩

theorem log (w : World) (status : RecordStatus) (id : UInt32) : Onward w (w.log status id) :=
  ⟨fun _ h => h, fun _ h => h, rfl⟩

theorem insert (w : World) (addr : Addr) : Onward w { w with coordinator := { w.coordinator with
    participants := w.coordinator.participants.insert addr } } :=
  ⟨fun _ h => Std.ExtTreeSet.mem_insert.mpr (.inr h), fun _ h => h, rfl⟩

theorem of_answers (h : w.Answers u addr q) : Onward w u := by
  refine ⟨fun a ha => by rwa [h.touches.coordinator], fun a ha => ?_, h.applied⟩
  by_cases heq : a = addr
  · rw [heq, h.node]
  · rwa [h.touches.node a heq]

end Onward

-- How an open update is resolved while everybody answers.
structure Resolves (addrs : List Addr) (next : UInt32) (store : Store) (w t : World) : Prop where
  level : Level addrs next store [] t
  decided : ∀ id, ¬ t.coordinator.rManager.Opens id RECORD_UNRESOLVED
  committed : ∀ id, t.coordinator.rManager.Opens id RECORD_COMMIT → w.coordinator.rManager.Opens id RECORD_COMMIT
  participants : t.coordinator.participants = w.coordinator.participants
  isRecovered : t.coordinator.isRecovered = w.coordinator.isRecovered
  nobody : w.coordinator.participants = ∅ → t.node = w.node
  onward : Onward w t

variable {addrs : List Addr} {w u : World} {addr : Addr} {id next : UInt32} {status : RecordStatus} {store : Store}

variable (value : UInt32) (mode : Mode)

section Decide

-- A loop that sends a decision to members who all carry it out.
theorem forEach_yields {α : Type} (request : Request) (judge : Option Reply → α → Verdict α)
    {left : Participant → Prop} {rest : List Addr} (state : α) (hrunning : Running addrs id status store [] w)
    (hturn : w.Turn rest left (·.nextId = id + 1)) (hup : ∀ addr ∈ addrs, (w.node addr).alive = true)
    (hleft : ∀ (n : Node) state, left n.participant → ∃ reply q last,
      n.participant.handle request = .ok (reply, q) ∧ judge (some reply) state = .keep last ∧
        q.store = store ∧ q.nextId = id + 1 ∧ n.applies request = none) :
    ∃ last u, Yields cdb (responsive value) mode (forEachParticipant request judge rest state) w last u ∧
      Running addrs id status store [] u ∧ u.Everyone (·.nextId = id + 1) ∧ u.coordinator = w.coordinator ∧
      (rest = [] → u = w) ∧ Onward w u := by
  induction rest generalizing w state with
  | nil => exact ⟨state, w, .ret state, hrunning, hturn.finish, rfl, fun _ => rfl, .refl w⟩
  | cons addr rest ih =>
      have hmember := hrunning.2.1.members addr (hturn.member addr List.mem_cons_self)
      obtain ⟨reply, q, last, hhandle, hkeep, hstore, hnext, hnone⟩ :=
        hleft (w.node addr) state (hturn.left addr List.mem_cons_self)
      obtain ⟨v, hcall, hanswers⟩ := exists_call (hup addr hmember) hhandle hnone
      have hrunning' : Running addrs id status store [] v := by
        refine hrunning.call hcall fun _ answer p hp => ?_
        obtain ⟨-, rfl⟩ := Prod.mk.inj (Except.ok.inj (hhandle.symm.trans hp))
        exact .of_store hstore hrunning.2.1.short
      have hturn' := hturn.next hanswers.touches (by rw [hanswers.node]; exact hnext)
      have honward := Onward.of_answers hanswers
      obtain ⟨last', u, hyields, hrunning'', hall, hc, -, honward'⟩ := ih last hrunning' hturn'
        fun a ha => honward.alive a (hup a ha)
      refine ⟨last', u, (call_yields hcall).bind ?_, hrunning'', hall, hc.trans hanswers.touches.coordinator,
        nofun, honward.trans honward'⟩
      rw [hkeep]
      exact hyields

theorem logDone_yields (hrunning : Running addrs id status store [] w) (hstatus : status ≠ RECORD_UNRESOLVED)
    (hall : w.Everyone (·.nextId = id + 1)) {done : RecordStatus}
    (hdone : done = RECORD_COMMIT_DONE ∨ done = RECORD_ABORT_DONE) :
    ∃ t, Yields cdb (responsive value) mode (logDone done id) w () t ∧ Resolves addrs (id + 1) store w t := by
  by_cases hempty : w.coordinator.participants = ∅
  · have hlevel := hrunning.level_of_lost hempty
    refine ⟨w, get_yields.bind ?_, hlevel, fun other hother => ?_, fun _ h => h, rfl, rfl, fun _ => rfl, .refl w⟩
    · rw [if_pos (by rw [hempty]; rfl)]
      exact .ret ()
    · exact hstatus (hrunning.2.2.unique hother).2
  · have hlevel := hrunning.level_of_done hdone hall
    have hrecords := hlevel.2.2.1 hempty
    refine ⟨w.log done id, get_yields.bind ?_, hlevel, fun other hother => absurd hrecords hother.ne_empty,
      fun other hother => absurd hrecords hother.ne_empty, rfl, rfl, fun _ => rfl, .log w done id⟩
    rw [if_neg (by simpa using hempty)]
    exact log_yields done id

-- The decision has been logged before.
theorem Resolves.of_log {t : World} (h : Resolves addrs next store u t)
    (hc : u.coordinator = (w.log status id).coordinator)
    (hcommitted : ∀ other, (w.log status id).coordinator.rManager.Opens other RECORD_COMMIT →
      w.coordinator.rManager.Opens other RECORD_COMMIT)
    (hnobody : w.coordinator.participants = ∅ → u.node = w.node) (honward : Onward (w.log status id) u) :
    Resolves addrs next store w t := by
  have hlogged := Onward.log w status id
  refine ⟨h.level, h.decided, fun other hother => hcommitted other ?_, ?_, ?_, fun hempty => ?_,
    (hlogged.trans honward).trans h.onward⟩
  · rw [← hc]
    exact h.committed other hother
  · rw [h.participants, hc]
    rfl
  · rw [h.isRecovered, hc]
    rfl
  · rw [h.nobody (by rw [hc]; exact hempty), hnobody hempty]

theorem toList_of_empty (h : w.coordinator.participants = ∅) : w.coordinator.participants.toList = [] := by
  rw [h]
  rfl

theorem abortDbRequest_yields (hrunning : Running addrs id status store [] w)
    (haborts : w.Everyone (Aborts id store)) (hup : ∀ addr ∈ addrs, (w.node addr).alive = true) :
    ∃ dead t, Yields cdb (responsive value) mode (abortDbRequest none id false) w dead t ∧
      Resolves addrs (id + 1) store w t := by
  have hrunning' := hrunning.logDecision (.inr rfl)
  have hturn : (w.log RECORD_ABORT id).Turn w.coordinator.participants.toList (Aborts id store)
      (·.nextId = id + 1) := World.Turn.start haborts
  obtain ⟨dead, u, hloop, hrunning'', hall, hc, hnobody, honward⟩ :=
    forEach_yields value mode (.ABORT id) judgeAbort false hrunning' hturn hup fun n dead hn =>
        ⟨.bool true, (n.participant.abort id).2, dead, handle_abort _ _, rfl, (abort_store _ _).trans hn.1, hn.2, rfl⟩
  obtain ⟨t, hdone, hresolves⟩ := logDone_yields value mode hrunning'' (by decide) hall (.inr rfl)
  refine ⟨dead, t, (log_yields _ _).bind (get_yields.bind (hloop.bind (hdone.bind (.ret dead)))), ?_⟩
  refine hresolves.of_log hc (fun other hother => ?_) (fun hempty => ?_) honward
  · exact absurd (hrunning'.2.2.unique hother).2 (by decide)
  · rw [hnobody (toList_of_empty hempty)]
    rfl

-- Who is at the next number has seen the COMMIT before.
theorem commitDbRequest_yields (hrunning : Running addrs id RECORD_COMMIT store [] w) (hround : id + 1 ≠ 0)
    (hall : w.Everyone fun p => p.store = store ∧ p.nextId = id + 1)
    (hup : ∀ addr ∈ addrs, (w.node addr).alive = true) :
    ∃ dead t, Yields cdb (responsive value) mode (commitDbRequest none id false) w dead t ∧
      Resolves addrs (id + 1) store w t := by
  have hrunning' := hrunning.logDecision (.inl rfl)
  have hturn : (w.log RECORD_COMMIT id).Turn w.coordinator.participants.toList
      (fun p => p.store = store ∧ p.nextId = id + 1) (·.nextId = id + 1) := World.Turn.start hall
  have hlt : id < id + 1 := by grind
  obtain ⟨result, u, hloop, hrunning'', hall', hc, hnobody, honward⟩ :=
    forEach_yields value mode (.COMMIT id) judgeCommit ([], false) hrunning' hturn hup fun n state hn => by
        have hcommit : n.participant.commit id = .ok ([], n.participant) := by
          rw [commit, hn.2, if_pos hlt, pure_eq_ok]
        refine ⟨.string [], n.participant, _, ?_, rfl, hn.1, hn.2, ?_⟩
        · simp only [Participant.handle, hcommit, ok_bind, pure_eq_ok]
        · have hne : ¬ id + 1 = id := by grind
          simp only [Node.applies, hn.2, hne, false_and, and_false, if_false]
  obtain ⟨t, hdone, hresolves⟩ := logDone_yields value mode hrunning'' (by decide) hall' (.inl rfl)
  refine ⟨result.2, t, (log_yields _ _).bind (get_yields.bind (hloop.bind (hdone.bind ?_))), ?_⟩
  · exact .ret result.2
  refine hresolves.of_log hc (fun other hother => ?_) (fun hempty => ?_) honward
  · rw [← (hrunning'.2.2.unique hother).1]
    exact hrunning.2.2
  · rw [hnobody (toList_of_empty hempty)]
    rfl

end Decide

-- What an earlier request has left open is resolved by those who are members.
theorem handleUnfinishedRecords_yields (hnext : w.coordinator.nextId = next) (hsynced : Synced addrs w next store [])
    (hall : AllCurrent next w) (hup : ∀ addr ∈ addrs, (w.node addr).alive = true)
    (hround : ∀ id, w.coordinator.rManager.Opens id RECORD_COMMIT → id + 1 ≠ 0) :
    ∃ t, Yields cdb (responsive value) mode handleUnfinishedRecords w () t ∧ Resolves addrs next store w t := by
  have hcopy : Yields cdb (responsive value) mode copyRecords w w.coordinator.rManager.records.values w := rfl
  rcases id hsynced.oneOpen with hempty | ⟨id, status, hopens, hid, hstatus⟩
  · refine ⟨w, hcopy.bind ?_, ⟨⟨hnext, hsynced, fun _ => hempty, fun addr haddr => ?_⟩,
      fun other hother => absurd hempty hother.ne_empty, fun _ h => h, rfl, rfl, fun _ => rfl, .refl w⟩⟩
    · rw [hempty]
      exact .ret ()
    · exact (hall addr haddr).resolve_right fun hopen => hopen.ne_empty hempty
  obtain ⟨r, rfl, rfl, hvalues⟩ := hopens.values
  have hrunning : Running addrs r.id r.status store [] w := by
    rw [← hid] at hnext hsynced
    exact ⟨hnext, hsynced, hopens⟩
  rw [hvalues] at hcopy
  suffices hresolve : ∃ t, Yields cdb (responsive value) mode (resolveRecord r) w () t ∧
      Resolves addrs (r.id + 1) store w t by
    obtain ⟨t, hyields, hresolves⟩ := hresolve
    rw [← hid]
    exact ⟨t, hcopy.bind (hyields.bind (.ret ())), hresolves⟩
  unfold resolveRecord
  by_cases hcommit : r.status = RECORD_COMMIT
  · rw [hcommit] at hopens hrunning
    have hlevel : w.Everyone fun p => p.store = store ∧ p.nextId = r.id + 1 := by
      intro addr haddr
      refine ⟨store_of_joined hsynced hall haddr, ?_⟩
      rw [← hid] at hall
      exact (Running.current_iff hopens (by decide) _).mp (hall addr haddr)
    obtain ⟨dead, t, hyields, hresolves⟩ :=
      commitDbRequest_yields value mode hrunning (hround r.id hopens) hlevel hup
    rw [if_neg (by rw [hcommit]; decide), if_pos hcommit]
    exact ⟨t, hyields.bind (.ret ()), hresolves⟩
  · obtain ⟨dead, t, hyields, hresolves⟩ := abortDbRequest_yields value mode hrunning
      (aborts_of_joined hsynced hall hopens) hup
    have hundecided : r.status = RECORD_UNRESOLVED ∨ r.status = RECORD_ABORT := by
      rcases hstatus with h | h | h
      · exact .inl h
      · exact absurd h hcommit
      · exact .inr h
    rw [if_pos hundecided]
    exact ⟨t, hyields.bind (.ret ()), hresolves⟩

end Restoration

end CloudLabs.Cdb
