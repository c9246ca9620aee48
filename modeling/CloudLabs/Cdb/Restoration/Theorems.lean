import CloudLabs.Cdb.Ledger.Runs
import CloudLabs.Cdb.Pending.Theorems
import CloudLabs.Cdb.Restoration.Starting

namespace CloudLabs.Cdb

open Interaction RecordManager Participant Coordinator Replicas
open Program (Yields)

namespace Restoration

variable {addrs : List Addr} {w u : World} {next : UInt32} {store : Store} {m : RecordManager}

-- The update that is open has been applied by nobody, unless its COMMIT is logged.
def Unapplied (w : World) : Prop :=
  ∀ id status, w.coordinator.rManager.Opens id status → status ≠ RECORD_COMMIT → ∀ addr, (addr, id) ∉ w.applied

-- Who has carried out the open update holds the store.
theorem carried_store {id : UInt32} (h : Synced addrs w next store [])
    (hopens : w.coordinator.rManager.Opens id RECORD_COMMIT) {source : Addr} (hsource : source ∈ addrs)
    (hcarried : w.Carried id source) : (w.node source).participant.store = store :=
  (h.tracks source hsource).level (.inl (hcarried.2.trans (h.oneOpen.of_opens hopens).1))

theorem committed_of_carried (h : Synced addrs w next store []) (hcarried : w.CommitCarried) (id : UInt32)
    (hid : w.coordinator.rManager.Opens id RECORD_COMMIT) :
    ∃ source ∈ addrs, w.Carried id source ∧ (w.node source).participant.store = store := by
  obtain ⟨source, hsource, hcarries⟩ := hcarried id hid
  rw [h.configured] at hsource
  exact ⟨source, hsource, hcarries, carried_store h hid hsource hcarries⟩

theorem carried_of_restored {t : World} (h : w.Restored t) : w.CommitCarried := by
  intro id hid
  obtain ⟨source, hsource, hcarried, -⟩ := h.committed id hid
  exact ⟨source, hsource, hcarried⟩

section Rest

theorem resting_of_level (hlevel : Level addrs next store [] w) (hup : w.Up) (htold : w.Told)
    (hround : ∀ id, w.coordinator.rManager.Opens id RECORD_COMMIT → id + 1 ≠ 0) :
    Resting addrs next store w := by
  have hconfigured := hlevel.2.1.configured
  refine ⟨hlevel, fun addr haddr => hup addr (by rwa [hconfigured]), fun hfresh addr haddr hmember => ?_, hround⟩
  rcases htold hfresh addr (by rwa [hconfigured]) hmember with hempty | ⟨other, hother, hnumber, hsame⟩
  · exact (hlevel.2.1.tracks addr haddr).fresh hempty
  · rw [hconfigured] at hother
    rw [← hsame]
    exact hlevel.store_eq hother (.inl (hnumber.trans hlevel.1))

theorem seeded_iff (hlevel : Level addrs next store [] w) (hsome : addrs ≠ []) :
    w.Seeded ↔ (∃ addr ∈ addrs, Welcome next w addr) ∧ w.CommitCarried := by
  obtain ⟨first, hfirst⟩ := List.exists_mem_of_ne_nil addrs hsome
  unfold World.Seeded
  rw [hlevel.2.1.configured, hlevel.1]
  refine and_congr_left fun _ => ⟨fun h => ?_, fun ⟨addr, haddr, hwelcome⟩ => ?_⟩
  · rcases h with hmembers | hfresh | ⟨addr, haddr, hcurrent⟩
    · exact ⟨first, hfirst, .inl hmembers⟩
    · exact ⟨first, hfirst, .inr (.inl hfresh)⟩
    · exact ⟨addr, haddr, .inr (.inr hcurrent)⟩
  · exact hwelcome.imp_right (Or.imp_right fun hcurrent => ⟨addr, haddr, hcurrent⟩)

-- At rest, the passes restore the cluster when somebody can be followed, and
-- change nothing otherwise.
theorem restores_iff (hlevel : Level addrs next store [] w) (hsome : addrs ≠ []) (hup : w.Up) (htold : w.Told)
    (hround : ∀ id, w.coordinator.rManager.Opens id RECORD_COMMIT → id + 1 ≠ 0) (hunapplied : Unapplied w) :
    w.Restores ↔ w.Seeded := by
  have hresting := resting_of_level hlevel hup htold hround
  have hconfigured := hlevel.2.1.configured
  unfold World.Restores
  rw [seeded_iff hlevel hsome, hconfigured]
  constructor
  · intro hrestores
    obtain ⟨t, hrestored, hpasses⟩ := hrestores 0 (by decide)
    refine ⟨?_, carried_of_restored hrestored⟩
    by_contra hnobody
    have hrefused : ∀ addr ∈ addrs, ¬ Welcome next w addr := fun addr haddr hwelcome => hnobody ⟨addr, haddr, hwelcome⟩
    obtain ⟨-, rfl⟩ := hpasses.unique (heartbeatParticipants_refuses 0 addrs.length hresting hrefused)
    obtain ⟨addr, haddr⟩ := List.exists_mem_of_ne_nil addrs hsome
    have hmember := hrestored.back addr (by rwa [hconfigured])
    exact hrefused addr haddr (.inl (ne_empty_of_mem hmember))
  · intro ⟨hwelcome, hcarried⟩ value _
    obtain ⟨t, hpasses, hrest, honward, hback⟩ := allBack_yields value hresting hwelcome
    exact ⟨t, hrest.restored hconfigured hsome hback honward.applied
      (committed_of_carried hlevel.2.1 hcarried) hunapplied, hpasses⟩

end Rest

section Start

-- The same when the process starts on its log.
theorem startRestores_iff (h : Begun addrs m store w) (hsome : addrs ≠ []) (hdraw : m.nextId = 0 → m.file = [])
    (hunapplied : Unapplied w) : w.StartRestores ↔ w.StartSeeded := by
  have hconfigured := h.synced.configured
  have hmanager : w.coordinator.rManager = m := by rw [h.coordinator]; rfl
  unfold World.StartRestores World.StartSeeded
  rw [hconfigured, hmanager]
  constructor
  · intro hrestores
    obtain ⟨u, t, hrestored, hrecovery, hpasses⟩ := hrestores 0 (by decide)
    refine ⟨?_, carried_of_restored hrestored⟩
    by_contra hnobody
    obtain ⟨hfile, hbehind⟩ := not_or.mp hnobody
    obtain ⟨u', hrecovery', hresting, -, -, hrefused⟩ := recovery_yields 0 h hdraw (by decide)
    obtain ⟨-, rfl⟩ := hrecovery.unique hrecovery'
    have hnone := hrefused hfile fun addr haddr hlevel => hbehind ⟨addr, haddr, hlevel⟩
    obtain ⟨-, rfl⟩ := hpasses.unique (heartbeatParticipants_refuses 0 addrs.length hresting hnone)
    obtain ⟨addr, haddr⟩ := List.exists_mem_of_ne_nil addrs hsome
    have hmember := hrestored.back addr (by rwa [hconfigured])
    exact hnone addr haddr (.inl (ne_empty_of_mem hmember))
  · intro ⟨hseed, hcarried⟩ value hvalue
    obtain ⟨u, hrecovery, hresting, happlied, hjoined, -⟩ := recovery_yields value h hdraw hvalue
    have hwelcome : ∃ addr ∈ addrs, Welcome (startNumber value m) u addr := by
      rcases hseed with hfile | ⟨addr, haddr, hlevel⟩
      · obtain ⟨addr, haddr⟩ := List.exists_mem_of_ne_nil addrs hsome
        exact ⟨addr, haddr, .inl (ne_empty_of_mem (hjoined addr haddr (.inl hfile)))⟩
      · exact ⟨addr, haddr, .inl (ne_empty_of_mem (hjoined addr haddr (.inr hlevel)))⟩
    obtain ⟨t, hpasses, hrest, honward, hback⟩ := allBack_yields value hresting hwelcome
    exact ⟨u, t, hrest.restored hconfigured hsome hback (honward.applied.trans happlied)
      (committed_of_carried h.synced hcarried) hunapplied, hrecovery, hpasses⟩

-- What a crash leaves and the next start finds.
theorem begun_of_restart (halways : Always addrs w) (hup : w.Up) (hcrash : agreeing.crash w) (hrestart : w.restart = some u) :
    (∃ m store, Begun addrs m store u ∧ u.coordinator.rManager = m) ∧ u.applied = w.applied ∧
      ∀ id status, u.coordinator.rManager.Opens id status → w.coordinator.rManager.Opens id status := by
  have hstarted := started_of_restart halways hcrash hrestart
  obtain ⟨next, store, deleted, hsynced⟩ := halways
  obtain ⟨last, hlast, -⟩ := hsynced.recoverable
  simp only [World.restart, hlast.load] at hrestart
  cases hrestart
  refine ⟨?_, rfl, fun id status hopens => hopens⟩
  obtain ⟨-, hrecoverable, next', store', hsynced'⟩ := hstarted
  refine ⟨_, store', ⟨?_, hrecoverable, ?_, fun addr haddr => ?_⟩, rfl⟩
  · rw [hsynced.configured]
    rfl
  · by_cases hfile : w.coordinator.rManager.file = []
    · exact hsynced'.renumber hfile _
    · obtain ⟨last', hlast', hnext⟩ := hsynced'.recoverable
      rw [hrecoverable.unique hlast', hnext hfile]
      exact hsynced'
  · apply hup addr
    rw [hsynced.configured]
    exact haddr

end Start

-- A record that is no COMMIT has been logged of an update that nobody has applied.
theorem unapplied_of_sound {last : UInt32} (h : w.Sound last) (hissued : w.issued < 2 ^ 32) : Unapplied w := by
  intro id status hopens hstatus addr happlied
  obtain ⟨hledger, -⟩ := h.ledger hissued
  exact hstatus ((hledger.opened id status hopens).1 (hledger.applied _ happlied))

theorem drawsOnce_of_agreeing (pool : System) (move : SystemMove) (h : agreeing.permits pool move) :
    drawsOnce.permits pool move := by
  cases move with
  | advance thread choice =>
      intro effect hnext
      have hagree := h effect hnext
      cases effect with
      | rand => exact hagree
      | _ => trivial
  | _ => trivial

section Runs

-- The first participant has committed a SET, and the second has not.
def halfCommitted : List SystemMove := Pending.asked ++ System.advance 1 (List.replicate 12 .done)

-- Both have prepared a SET, and nothing is decided.
def undecided : List SystemMove := Pending.asked ++ System.advance 1 (List.replicate 8 .done)

-- The members in the end, when everybody answers.
def lastMembers (w : World) : Option (List Addr) :=
  (recovery.outcome cdb (responsive 0) .alone w).bind fun started =>
    ((heartbeatParticipants 2).outcome cdb (responsive 0) .outside started.2.2).map fun ended =>
      ended.2.2.coordinator.participants.toList

theorem lastMembers_of_yields {u t : World} (hrecovery : Yields cdb (responsive 0) .alone recovery w () u)
    (hpasses : Yields cdb (responsive 0) .outside (heartbeatParticipants 2) u () t) :
    lastMembers w = some t.coordinator.participants.toList := by
  unfold lastMembers
  rw [hrecovery]
  show ((heartbeatParticipants 2).outcome cdb (responsive 0) .outside u).map _ = _
  rw [hpasses]
  rfl

theorem mem_iff_of_toList {store store' : Store} (h : store.toList = store'.toList) (key : Bytes) :
    key ∈ store ↔ key ∈ store' := by
  rw [← Std.ExtTreeMap.mem_keys, ← Std.ExtTreeMap.mem_keys, ← Std.ExtTreeMap.map_fst_toList_eq_keys,
    ← Std.ExtTreeMap.map_fst_toList_eq_keys, h]

end Runs

end Restoration

-- From here on everybody answers. At rest, and when the process has crashed, the
-- passes restore the cluster if and only if there is somebody to follow.
theorem restores_of_reachable (addrs : List Addr) (content cmdContent : Bytes) (m : RecordManager)
    (node : Addr → Node) (store : Store) (pool : System)
    (hload : RecordManager.load content cmdContent = .ok m) (hopen : m.OneOpen m.nextId)
    (hsame : ∀ addr ∈ addrs, (node addr).participant.store = store) (hshort : ShortEntries store)
    (hreach : cdb.Reachable Replicas.agreeing (System.boot (World.initial addrs m node)) pool)
    (hsome : addrs ≠ []) (hissued : pool.shared.issued < 2 ^ 32) (hup : pool.shared.Up) :
    (pool.unlocked → pool.shared.Told →
      (∀ id, pool.shared.coordinator.rManager.Opens id RECORD_COMMIT → id + 1 ≠ 0) →
      (pool.shared.Restores ↔ pool.shared.Seeded)) ∧
    ∀ w, Replicas.agreeing.crash pool.shared → pool.shared.restart = some w →
      (w.coordinator.rManager.nextId = 0 → w.coordinator.rManager.file = []) →
      (w.StartRestores ↔ w.StartSeeded) := by
  have hkept := Replicas.kept hload hopen hsame hshort hreach
  obtain ⟨⟨last, hsound⟩, -⟩ :=
    Ledger.kept hload hopen (hreach.mono cdb Restoration.drawsOnce_of_agreeing)
  have hunapplied := Restoration.unapplied_of_sound hsound hissued
  refine ⟨fun hfree htold hround => ?_, fun w hcrash hrestart hdraw => ?_⟩
  · obtain ⟨next, store', hlevel⟩ := hkept.idle hfree
    exact Restoration.restores_iff hlevel hsome hup htold hround hunapplied
  · obtain ⟨⟨m', store', hbegun, hmanager⟩, happlied, hopens⟩ :=
      Restoration.begun_of_restart hkept.1 hup hcrash hrestart
    rw [hmanager] at hdraw
    refine Restoration.startRestores_iff hbegun hsome hdraw fun id status hid hstatus addr => ?_
    rw [happlied]
    exact hunapplied id status (hopens id status hid) hstatus addr

set_option maxRecDepth 10000 in
-- A participant that missed a DEL comes back. And a SET that only one participant
-- has committed when the coordinator dies is brought to the other.
theorem restores_of_reachable_runs :
    (∃ w : World, w.coordinator.participants.toList = [[0]] ∧ w.Restores) ∧
      ∃ w : World, w.coordinator.rManager.records.values.map Record.status = [RECORD_COMMIT] ∧ w.StartRestores := by
  constructor
  · have hrun : (Transition.run (Transition.guard Replicas.allowed cdb.step) Pending.restarted
        Replicas.missed).any (fun pool => decide pool.unlocked &&
          pool.shared.coordinator.participants.toList = [[0]] && pool.shared.coordinator.isRecovered &&
          pool.shared.coordinator.participantAddrs = [[0], [1]] && pool.shared.issued < 2 ^ 32 &&
          (pool.shared.node [0]).alive && (pool.shared.node [1]).alive &&
          pool.shared.coordinator.rManager.records.values.length = 0) = true := by
      decide
    obtain ⟨pool, hpool, hend⟩ := (Option.any_eq_true _ _).mp hrun
    simp only [Bool.and_eq_true, decide_eq_true_eq] at hend
    obtain ⟨⟨⟨⟨⟨⟨⟨hfree, hmembers⟩, hrecovered⟩, haddrs⟩, hissued⟩, hfirst⟩, hsecond⟩, hrecords⟩ := hend
    have hclosed : ∀ id status, ¬ pool.shared.coordinator.rManager.Opens id status := by
      intro id status hopens
      obtain ⟨r, -, -, hvalues⟩ := hopens.values
      rw [hvalues] at hrecords
      cases hrecords
    refine ⟨pool.shared, hmembers, ?_⟩
    refine ((restores_of_reachable [[0], [1]] Replicas.resolved.file [] Replicas.resolved (fun _ => Replicas.upToDate)
      Replicas.stored pool rfl (.inl rfl) (fun _ _ => rfl) Replicas.short_stored
      (Service.Reachable.of_guard cdb Replicas.agreeing_permits hpool) (by decide) hissued fun addr haddr => ?_).1
        hfree (fun hfresh => ?_) fun id hopens => absurd hopens (hclosed id _)).mpr
      ⟨.inl fun hempty => ?_, fun id hopens => absurd hopens (hclosed id _)⟩
    · rw [haddrs, List.mem_cons, List.mem_singleton] at haddr
      rcases haddr with rfl | rfl
      · exact hfirst
      · exact hsecond
    · rw [hrecovered] at hfresh
      cases hfresh
    · rw [hempty] at hmembers
      cases hmembers
  · have hrun : (Transition.run (Transition.guard Replicas.allowed cdb.step) Pending.restarted
        Restoration.halfCommitted).any (fun pool =>
          (pool.shared.node [0]).participant.store.toList = (pool.shared.node [1]).participant.store.toList &&
          pool.shared.coordinator.participantAddrs = [[0], [1]] && pool.shared.issued < 2 ^ 32 &&
          (pool.shared.node [0]).alive && (pool.shared.node [1]).alive &&
          pool.shared.restart.any fun w => w.coordinator.participantAddrs = [[0], [1]] &&
            w.coordinator.rManager.nextId = 6 && (w.node [0]).participant.nextId = 6 && w.applied = [([0], 5)] &&
            w.coordinator.rManager.records.values.map (fun r => (r.id, r.status)) = [(5, RECORD_COMMIT)]) = true := by
      decide
    obtain ⟨pool, hpool, hend⟩ := (Option.any_eq_true _ _).mp hrun
    simp only [Bool.and_eq_true, decide_eq_true_eq, Option.any_eq_true] at hend
    obtain ⟨⟨⟨⟨⟨hstores, haddrs⟩, hissued⟩, hfirst⟩, hsecond⟩, w, hrestart, hw⟩ := hend
    obtain ⟨⟨⟨⟨haddrs', hnext⟩, hlevel⟩, happlied⟩, hrecords⟩ := hw
    have hboth : ∀ addr ∈ pool.shared.coordinator.participantAddrs, addr = [0] ∨ addr = [1] := by
      intro addr haddr
      rw [haddrs, List.mem_cons, List.mem_singleton] at haddr
      exact haddr
    refine ⟨w, ?_, ?_⟩
    · have hstatus := congrArg (List.map Prod.snd) hrecords
      rwa [List.map_map] at hstatus
    refine ((restores_of_reachable [[0], [1]] Replicas.resolved.file [] Replicas.resolved (fun _ => Replicas.upToDate)
      Replicas.stored pool rfl (.inl rfl) (fun _ _ => rfl) Replicas.short_stored
      (Service.Reachable.of_guard cdb Replicas.agreeing_permits hpool) (by decide) hissued fun addr haddr => ?_).2
        w (fun addr haddr newest hnewest _ key hkey => ?_) hrestart fun hzero => ?_).mpr
      ⟨.inr ⟨[0], by simp [haddrs'], hlevel.trans hnext.symm⟩, fun id hopens => ?_⟩
    · rcases hboth addr haddr with rfl | rfl
      · exact hfirst
      · exact hsecond
    · -- The stores are the same.
      have hsame := Restoration.mem_iff_of_toList hstores key
      rcases hboth addr haddr with rfl | rfl <;> rcases hboth newest hnewest with rfl | rfl
      · exact hkey
      · exact hsame.mp hkey
      · exact hsame.mpr hkey
      · exact hkey
    · rw [hnext] at hzero
      cases hzero
    · obtain ⟨r, rfl, -, hvalues⟩ := hopens.values
      rw [hvalues] at hrecords
      obtain ⟨hid, -⟩ := Prod.mk.inj (List.cons.inj hrecords).1
      rw [hid]
      exact ⟨[0], by simp [haddrs'], by simp [happlied], hlevel⟩

set_option maxRecDepth 10000 in
-- The coordinator dies before it has decided an update that all have prepared.
-- When it starts again it aborts the update, and takes nobody back.
theorem undecided_not_restores : ∃ w : World,
    cdb.Reachable .any Pending.restarted ⟨w, .booting false Coordinator.recovery⟩ ∧ w.Up ∧
      w.coordinator.rManager.records.values.map Record.status = [RECORD_UNRESOLVED] ∧ ¬ w.StartRestores := by
  obtain ⟨pool, hreach, hpool⟩ := cdb.exists_of_run Pending.restarted Restoration.undecided
    (fun pool => pool.shared.restart.any fun w => w.coordinator.participantAddrs = [[0], [1]] &&
      (w.node [0]).alive && (w.node [1]).alive &&
      w.coordinator.rManager.records.values.map Record.status = [RECORD_UNRESOLVED] &&
      Restoration.lastMembers w = some [])
    true (by decide) fun pool next move _ _ => Terms.any_permits pool move
  simp only [Option.any_eq_true, Bool.and_eq_true, decide_eq_true_eq] at hpool
  obtain ⟨w, hrestart, ⟨⟨⟨haddrs, hfirst⟩, hsecond⟩, hstatus⟩, hlast⟩ := hpool
  have hcrash : cdb.step pool .crash = some ⟨w, .booting false Coordinator.recovery⟩ := by
    have hmap : (cdb.restart pool.shared).map (fun shared => (⟨shared, .booting false cdb.recovery⟩ : System)) =
        some ⟨w, .booting false Coordinator.recovery⟩ := by
      show (pool.shared.restart).map _ = _
      rw [hrestart]
      rfl
    obtain ⟨shared, phase⟩ := pool
    cases phase with
    | booting locked program => exact hmap
    | serving holder threads => exact hmap
  refine ⟨w, hreach.step .crash trivial hcrash, fun addr haddr => ?_, hstatus, fun hrestores => ?_⟩
  · rw [haddrs, List.mem_cons, List.mem_singleton] at haddr
    rcases haddr with rfl | rfl
    · exact hfirst
    · exact hsecond
  · obtain ⟨u, t, hrestored, hrecovery, hpasses⟩ := hrestores 0 (by decide)
    rw [haddrs] at hpasses
    have hmembers := (Restoration.lastMembers_of_yields hrecovery hpasses).symm.trans hlast
    have hback := hrestored.back [0] (by simp [haddrs])
    rw [← Std.ExtTreeSet.mem_toList, Option.some.inj hmembers] at hback
    cases hback

end CloudLabs.Cdb
