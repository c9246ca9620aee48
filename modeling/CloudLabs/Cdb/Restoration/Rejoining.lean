import CloudLabs.Cdb.Restoration.Resolving

namespace CloudLabs.Cdb

open Interaction RecordManager Participant Coordinator Replicas
open Program (Yields)

namespace Restoration

-- Nothing is in progress, and everybody answers.
structure Resting (addrs : List Addr) (next : UInt32) (store : Store) (w : World) : Prop where
  level : Level addrs next store [] w
  up : ∀ addr ∈ addrs, (w.node addr).alive = true
  told : w.coordinator.isRecovered = false → ∀ addr ∈ addrs, addr ∉ w.coordinator.participants →
    (w.node addr).participant.store = store
  round : ∀ id, w.coordinator.rManager.Opens id RECORD_COMMIT → id + 1 ≠ 0

-- The participant is taken back when its turn comes.
def Welcome (next : UInt32) (w : World) (addr : Addr) : Prop :=
  w.coordinator.participants ≠ ∅ ∨ w.coordinator.isRecovered = false ∨
    w.coordinator.Current next (w.node addr).participant

variable {addrs : List Addr} {w u : World} {addr : Addr} {next : UInt32} {store : Store}

variable (value : UInt32) (mode : Mode)

section Return

-- A participant that is as far as the log.
structure Returning (addrs : List Addr) (next : UInt32) (store : Store) (addr : Addr) (w u : World) : Prop where
  level : Level addrs next store [] u
  current : u.coordinator.Current next (u.node addr).participant
  isRecovered : u.coordinator.isRecovered = true
  rManager : u.coordinator.rManager = w.coordinator.rManager
  onward : Onward w u

theorem setNextId_yields (hlevel : Level addrs next store [] w)
    (hstore : (w.node addr).participant.store = store) (hup : (w.node addr).alive = true) :
    ∃ u, Yields cdb (responsive value) mode (call addr (.SET_NEXT_ID w.coordinator.nextId)) w (some .void) u ∧
      Level addrs next store [] u ∧ u.coordinator.Current next (u.node addr).participant ∧
      u.coordinator = w.coordinator ∧ Onward w u := by
  rw [hlevel.1]
  have hhandle : (w.node addr).participant.handle (.SET_NEXT_ID next) =
      .ok (.void, { (w.node addr).participant with nextId := next }) := rfl
  obtain ⟨u, hcall, hanswers⟩ := exists_call hup hhandle rfl
  obtain ⟨hlevel', hcurrent⟩ := hlevel.setNextId (fun _ => hstore) hcall
  exact ⟨u, call_yields hcall, hlevel', hcurrent.resolve_left (by simp), hanswers.touches.coordinator,
    .of_answers hanswers⟩

-- A member gives its snapshot, and the participant takes it over.
theorem recoverFromSnapshot_yields (h : Resting addrs next store w) (haddr : addr ∈ addrs)
    (hmembers : w.coordinator.participants ≠ ∅) (hrecovered : w.coordinator.isRecovered = true) :
    ∃ u, Yields cdb (responsive value) mode (recoverFromSnapshot addr w.coordinator.participants.toList) w true u ∧
      Returning addrs next store addr w u := by
  cases hlist : w.coordinator.participants.toList with
  | nil => exact absurd (by simpa using hlist) hmembers
  | cons donor rest =>
      have hmember : donor ∈ w.coordinator.participants := Std.ExtTreeSet.mem_toList.mp (by simp [hlist])
      have hdonor := h.level.2.1.members donor hmember
      have hstore := h.level.store_eq hdonor (.inl (h.level.2.2.2 donor hmember))
      have hsnapshot : w.call donor .GET_SNAPSHOT .done =
          some (some (.vector (w.node donor).participant.getSnapshot), w) :=
        call_of_ask (h.up donor hdonor) rfl rfl
      have hfetched : fetched addrs addr (w.node donor).participant.getSnapshot w :=
        ⟨next, store, ⟨haddr, _, hstore, rfl⟩, h.level, hmembers⟩
      obtain ⟨-, q, hrecover, hq⟩ := (recovers_of_fetched hfetched).1.2.2 donor hmember
      have hhandle : (w.node addr).participant.handle
          (.RECOVER (w.node donor).participant.getSnapshot w.coordinator.delKeys) = .ok (.bool true, q) := by
        simp only [Participant.handle, hrecover, ok_bind, pure_eq_ok]
      obtain ⟨v, hcall, hanswers⟩ := exists_call (h.up addr haddr) hhandle rfl
      have hcopied : (v.node addr).participant.store = store := by
        rw [hanswers.node]
        exact hq.trans hstore
      have hlevel : Level addrs next store [] v := by
        refine h.level.call hcall rfl fun answer p hp => ?_
        obtain ⟨-, rfl⟩ := Prod.mk.inj (Except.ok.inj (hhandle.symm.trans hp))
        exact ⟨fun _ => .of_store (hq.trans hstore) h.level.2.1.short,
          fun hnumber => (recover_nextId hrecover).trans hnumber⟩
      obtain ⟨u, hset, hlevel', hcurrent, hc, honward⟩ :=
        setNextId_yields value mode hlevel hcopied (by rw [hanswers.node])
      have hc' := hc.trans hanswers.touches.coordinator
      rw [hanswers.touches.coordinator] at hset
      refine ⟨u, (call_yields hsnapshot).bind (get_yields.bind ((call_yields hcall).bind (hset.bind (.ret true)))),
        hlevel', hcurrent, by rw [hc']; exact hrecovered, by rw [hc'], (Onward.of_answers hanswers).trans honward⟩

-- Who is behind the log has no part in the update that is open.
theorem not_prepared (hlevel : Level addrs next store [] w)
    (hbehind : ¬ w.coordinator.Current next (w.node addr).participant) :
    ¬ (w.coordinator.rManager.records[(w.node addr).participant.nextId]?.map Record.status) =
      some RECORD_UNRESOLVED :=
  fun hstatus => hbehind (.inr (hlevel.2.1.oneOpen.opens_of_getElem? hstatus))

-- An update that is open is the one before the next.
theorem prepared_of_current (hlevel : Level addrs next store [] w)
    (hcurrent : w.coordinator.Current next (w.node addr).participant)
    (hne : (w.node addr).participant.nextId ≠ next) :
    (w.node addr).participant.nextId + 1 = next ∧
      (w.coordinator.rManager.records[(w.node addr).participant.nextId]?.map Record.status) =
        some RECORD_UNRESOLVED := by
  have hopens := hcurrent.resolve_left hne
  refine ⟨(hlevel.2.1.oneOpen.of_opens hopens).1, ?_⟩
  rw [hopens.getElem?, if_pos rfl]

theorem recoverParticipant_yields (h : Resting addrs next store w) (haddr : addr ∈ addrs)
    (hmember : addr ∉ w.coordinator.participants) (hwelcome : Welcome next w addr) :
    ∃ u, Yields cdb (responsive value) mode (recoverParticipant addr) w (some true) u ∧
      Returning addrs next store addr w u := by
  unfold recoverParticipant
  by_cases hrecovered : w.coordinator.isRecovered = true
  · have hask : w.call addr .NEXT_ID .done = some (some (.uint32 (w.node addr).participant.nextId), w) :=
      call_of_ask (h.up addr haddr) rfl rfl
    have hnumber := h.level.1
    by_cases hcurrent : w.coordinator.Current next (w.node addr).participant
    · refine ⟨w, get_yields.bind ?_, h.level, hcurrent, hrecovered, rfl, .refl w⟩
      rw [if_neg (by simp [hrecovered])]
      refine (call_yields hask).bind ?_
      by_cases hsame : (w.node addr).participant.nextId = next
      · simp only [hsame, hnumber, if_true]
        exact .ret _
      · have hprepared := prepared_of_current h.level hcurrent hsame
        simp only [hnumber, hsame, hprepared, and_self, if_true, if_false]
        exact .ret _
    · have hmembers : w.coordinator.participants ≠ ∅ := by
        rcases hwelcome with hsome | hfresh | hcurrent'
        · exact hsome
        · rw [hrecovered] at hfresh
          cases hfresh
        · exact absurd hcurrent' hcurrent
      obtain ⟨u, hsnapshot, hreturning⟩ := recoverFromSnapshot_yields value mode h haddr hmembers hrecovered
      refine ⟨u, get_yields.bind ?_, hreturning⟩
      rw [if_neg (by simp [hrecovered])]
      refine (call_yields hask).bind ?_
      have hsame : ¬ (w.node addr).participant.nextId = next := fun heq => hcurrent (.inl heq)
      simp only [hnumber, hsame, not_prepared h.level hcurrent, and_false, if_false]
      exact hsnapshot.bind (.ret _)
  · have hfresh : w.coordinator.isRecovered = false := by simpa using hrecovered
    obtain ⟨v, hset, hlevel, hcurrent, hc, honward⟩ :=
      setNextId_yields value mode h.level (h.told hfresh addr haddr hmember) (h.up addr haddr)
    refine ⟨_, get_yields.bind ?_, hlevel.recovered, hcurrent, rfl, by rw [← hc], ?_⟩
    · rw [if_pos (by simp [hfresh])]
      exact hset.bind ((modify_yields _).bind (.ret _))
    · exact honward.trans ⟨fun _ h => h, fun _ h => h, rfl⟩

-- Nobody is there to follow.
theorem recoverParticipant_refuses (h : Resting addrs next store w) (haddr : addr ∈ addrs)
    (hwelcome : ¬ Welcome next w addr) :
    Yields cdb (responsive value) mode (recoverParticipant addr) w (some false) w := by
  obtain ⟨hempty, hrest⟩ := not_or.mp hwelcome
  obtain ⟨hrecovered, hbehind⟩ := not_or.mp hrest
  have hask : w.call addr .NEXT_ID .done = some (some (.uint32 (w.node addr).participant.nextId), w) :=
    call_of_ask (h.up addr haddr) rfl rfl
  have hsame : ¬ (w.node addr).participant.nextId = w.coordinator.nextId := by
    rw [h.level.1]
    exact fun heq => hbehind (.inl heq)
  refine get_yields.bind ?_
  rw [if_neg (by simpa using hrecovered)]
  refine (call_yields hask).bind ?_
  simp only [hsame, not_prepared h.level hbehind, and_false, if_false, toList_of_empty (not_not.mp hempty)]
  exact (Yields.ret false).bind (.ret _)

end Return

section Turns

theorem forgetDelKeys_yields (hsynced : Synced addrs w next store []) (hall : AllCurrent next w) :
    ∃ delKeys, Yields cdb (responsive value) mode forgetDelKeys w ()
        { w with coordinator := { w.coordinator with delKeys } } ∧
      Synced addrs { w with coordinator := { w.coordinator with delKeys } } next store [] := by
  by_cases hback : w.coordinator.participants.size = w.coordinator.participantAddrs.length
  · refine ⟨∅, get_yields.bind ?_, hsynced.forget hall hback⟩
    rw [if_pos hback]
    exact modify_yields _
  · refine ⟨w.coordinator.delKeys, get_yields.bind ?_, hsynced⟩
    rw [if_neg hback]
    exact .ret ()

-- A participant that is as far as the log is taken back, and what an earlier
-- request has left is resolved.
theorem Returning.joins {v : World} (h : Returning addrs next store addr w v) (haddr : addr ∈ addrs)
    (hup : ∀ addr ∈ addrs, (v.node addr).alive = true)
    (hround : ∀ id, v.coordinator.rManager.Opens id RECORD_COMMIT → id + 1 ≠ 0) :
    ∃ u, Yields cdb (responsive value) mode (do
        insertParticipant addr
        forgetDelKeys
        handleUnfinishedRecords
        return true) v true u ∧
      Resting addrs next store u ∧ addr ∈ u.coordinator.participants ∧ Onward w u := by
  let joined : World := { v with coordinator := { v.coordinator with
    participants := v.coordinator.participants.insert addr } }
  have hsynced : Synced addrs joined next store [] := h.level.2.1.insert haddr
  have hall : AllCurrent next joined := h.level.join h.current
  obtain ⟨delKeys, hforget, hsynced'⟩ := forgetDelKeys_yields value mode hsynced hall
  let forgot : World := { joined with coordinator := { joined.coordinator with delKeys } }
  have hnext : forgot.coordinator.nextId = next := h.level.1
  obtain ⟨u, hresolve, hresolves⟩ := handleUnfinishedRecords_yields value mode hnext hsynced' hall hup hround
  have hinsert : Onward v joined := .insert v addr
  have hmember : addr ∈ u.coordinator.participants := by
    apply hresolves.onward.members
    exact Std.ExtTreeSet.mem_insert.mpr (.inl (by simp))
  have honward : Onward v u := hinsert.trans ⟨hresolves.onward.members, hresolves.onward.alive, hresolves.onward.applied⟩
  refine ⟨u, (modify_yields _).bind (hforget.bind (hresolve.bind (.ret true))),
    ⟨hresolves.level, fun a ha => honward.alive a (hup a ha), fun hfresh => ?_,
      fun id hid => hround id (hresolves.committed id hid)⟩, hmember, h.onward.trans honward⟩
  rw [hresolves.isRecovered] at hfresh
  exact absurd (h.isRecovered.symm.trans hfresh) (by decide)

theorem readmitParticipant_yields (h : Resting addrs next store w) (haddr : addr ∈ addrs)
    (hwelcome : Welcome next w addr) :
    ∃ u, Yields cdb (responsive value) mode (readmitParticipant addr) w true u ∧
      Resting addrs next store u ∧ addr ∈ u.coordinator.participants ∧ Onward w u := by
  by_cases hmember : addr ∈ w.coordinator.participants
  · refine ⟨w, get_yields.bind ?_, h, hmember, .refl w⟩
    rw [if_pos (Std.ExtTreeSet.contains_iff_mem.mpr hmember)]
    exact .ret true
  · obtain ⟨v, hrecover, hreturning⟩ := recoverParticipant_yields value mode h haddr hmember hwelcome
    obtain ⟨u, hjoin, hresting, hjoined, honward⟩ := hreturning.joins value mode haddr
      (fun a ha => hreturning.onward.alive a (h.up a ha)) (by rw [hreturning.rManager]; exact h.round)
    refine ⟨u, get_yields.bind ?_, hresting, hjoined, honward⟩
    rw [if_neg (by rwa [Std.ExtTreeSet.contains_iff_mem])]
    exact hrecover.bind hjoin

theorem heartbeatParticipant_yields (h : Resting addrs next store w) (haddr : addr ∈ addrs)
    (hwelcome : Welcome next w addr) :
    ∃ u, Yields cdb (responsive value) .outside (heartbeatParticipant addr) w () u ∧
      Resting addrs next store u ∧ addr ∈ u.coordinator.participants ∧ Onward w u := by
  have hbeat : w.call addr .HEARTBEAT .done = some (some .void, w) := call_of_ask (h.up addr haddr) rfl rfl
  obtain ⟨u, htaken, hresting, hjoined, honward⟩ := readmitParticipant_yields value .inside h haddr hwelcome
  exact ⟨u, (call_yields hbeat).bind (htaken.critical.bind (.ret ())), hresting, hjoined, honward⟩

-- Who is not taken back changes nothing.
theorem heartbeatParticipant_refuses (h : Resting addrs next store w) (haddr : addr ∈ addrs)
    (hwelcome : ¬ Welcome next w addr) :
    Yields cdb (responsive value) .outside (heartbeatParticipant addr) w () w := by
  have hbeat : w.call addr .HEARTBEAT .done = some (some .void, w) := call_of_ask (h.up addr haddr) rfl rfl
  have hmember : addr ∉ w.coordinator.participants := by
    intro hmember
    apply hwelcome
    left
    intro hempty
    rw [hempty] at hmember
    exact Std.ExtTreeSet.not_mem_empty hmember
  have htaken : Yields cdb (responsive value) .inside (readmitParticipant addr) w true w := by
    refine get_yields.bind ?_
    rw [if_neg (by rwa [Std.ExtTreeSet.contains_iff_mem])]
    exact (recoverParticipant_refuses value .inside h haddr hwelcome).bind (.ret true)
  exact (call_yields hbeat).bind (htaken.critical.bind (.ret ()))

end Turns

end Restoration

end CloudLabs.Cdb
