import CloudLabs.Cdb.Coordinator.Footprint
import CloudLabs.Cdb.Ledger.Theorems

namespace CloudLabs.Cdb

open Interaction RecordManager World

namespace Ledger

-- What the coordinator starts on.
def Started (w : World) : Prop :=
  w.coordinator.participants = ∅ ∧ w.coordinator.rManager.Recoverable w.coordinator.rManager.nextId

instance : Local Started := ⟨fun h hsame => by simpa only [Started, hsame.coordinator] using h⟩

instance : Local fun w => w.coordinator.rManager.file = [] :=
  ⟨fun h hsame => by simpa only [hsame.coordinator] using h⟩

variable {role : Role} {mode : Mode}

theorem initNextId_ready (hmode : mode ≠ .outside) :
    Triple cdb drawsOnce ledger role mode Started Coordinator.initNextId fun _ => Ready := by
  refine Triple.seq (fun _ => Ready) (modify_keeps hmode (by exact fun _ => rfl) fun w hw _ => hw.2) fun _ => ?_
  refine Triple.bind (get_keeps hmode) fun c => ?_
  split
  · -- A random number is drawn on an empty log only, which gives no number.
    refine Triple.seq (fun _ w => w.coordinator.rManager.file = [])
      (Coordinator.rand_triple (stable hmode) (fun _ => stable hmode) fun w _ _ =>
        ⟨nofun, fun _ _ hT => ⟨give hmode w w, hT⟩⟩) fun next => ?_
    exact modify_keeps hmode (by exact fun _ => rfl) fun w hw hne => absurd hw hne
  · exact Triple.ret (stable hmode) fun _ _ hw => hw.1

theorem eraseParticipant_ready (hmode : mode ≠ .outside) (addr : Addr) :
    Triple cdb drawsOnce ledger role mode Ready (Coordinator.eraseParticipant addr) fun _ => Ready :=
  modify_keeps hmode (fun _ => rfl) fun _ hw => hw

theorem initParticipant_ready (hmode : mode ≠ .outside) (addr : Addr) :
    Triple cdb drawsOnce ledger role mode Ready (Coordinator.initParticipant addr) fun _ => Ready := by
  have hret : Triple cdb drawsOnce ledger role mode Ready (.ret () : Code Unit) fun _ => Ready :=
    Triple.ret (stable hmode) fun _ _ hw => hw
  refine Triple.bind (insertParticipant_keeps hmode addr) fun _ => ?_
  refine Triple.bind (ask_keeps hmode (by rfl)) fun reply => ?_
  match reply with
  | some (.uint32 pNextId) =>
      refine Triple.seq (fun _ => Ready) ((get_keeps hmode).post fun _ _ _ hw => hw.1) fun c => ?_
      split
      · refine Triple.bind (ask_keeps hmode (by rfl)) fun set => ?_
        cases set with
        | none => exact eraseParticipant_ready hmode addr
        | some _ => exact hret
      split
      · exact hret
      split
      · exact hret
      · exact eraseParticipant_ready hmode addr
  | none | some (.bool _) | some (.vector _) | some (.string _) | some .void =>
      exact eraseParticipant_ready hmode addr

theorem initParticipantList_ready (hmode : mode ≠ .outside) (addrs : List Addr) :
    Triple cdb drawsOnce ledger role mode Ready (Coordinator.initParticipantList addrs)
      fun _ => Ready := by
  induction addrs with
  | nil => exact Triple.ret (stable hmode) fun _ _ hw => hw
  | cons addr rest ih => exact Triple.bind (initParticipant_ready hmode addr) fun _ => ih

theorem recovery_settles :
    Triple cdb drawsOnce ledger role .alone Started Coordinator.recovery fun _ => Settled := by
  have halone := Mode.alone_ne_outside
  refine Triple.bind (initNextId_ready halone) fun _ => Triple.bind ?_ fun _ =>
    handleUnfinishedRecords_settles halone
  refine Triple.critical_alone (Triple.bind (get_keeps halone) fun c => ?_) fun _ => stable halone
  exact (initParticipantList_ready halone _).pre fun _ _ hw => hw.1

theorem honours : Honours cdb drawsOnce ledger where
  main passes s ha _ := (heartbeatParticipants_keeps passes).ends ha trivial
  handler request s ha := (handler_keeps request).ends ha trivial
  environment s choice t := by
    rintro ⟨last, hs⟩ - henv
    cases choice with
    | deliver index =>
        obtain ⟨⟨addr, request⟩, hmessage, rfl⟩ := Option.map_eq_some_iff.mp henv
        refine ⟨⟨last, ?_⟩, ⟨rfl, rfl, rfl, rfl⟩, trivial⟩
        refine hs.frame ⟨_, _, rfl⟩ rfl (fun _ => .inl) (fun _ => .inl)
          (fun m hm => .inl (List.mem_of_mem_eraseIdx hm)) fun entry he => ?_
        refine (mem_execute_applied he).imp_right fun heq hbound => ?_
        -- The message was backed when it was sent.
        have hbacked := (hs.ledger hbound).1.inFlight _ (List.mem_of_getElem? hmessage)
        rw [heq] at hbacked
        exact hbacked
    | restart addr =>
        cases henv
        exact ⟨⟨last, hs.frame ⟨_, _, rfl⟩ rfl (fun _ => .inl) (fun _ => .inl) (fun _ => .inl) fun _ => .inl⟩,
          ⟨rfl, rfl, rfl, rfl⟩, trivial⟩
    | _ => cases henv
  effect := False.elim
  restart s t := by
    rintro ⟨last, hs⟩ - hrestart
    simp only [cdb, World.restart, hs.recoverable.load] at hrestart
    cases hrestart
    have hsound : World.Sound { s with
        coordinator := .start s.coordinator.participantAddrs
          { s.coordinator.rManager with nextId := last, cmds := ∅ } } last :=
      hs.frame ⟨_, _, rfl⟩ rfl (fun _ => .inl) (fun _ => .inl) (fun _ => .inl) fun _ => .inl
    exact ⟨⟨last, hsound⟩, recovery_settles.boots Coordinator.recovery_balanced not_false ⟨last, hsound⟩
      ⟨rfl, hsound.recoverable⟩ fun _ _ h => h⟩

theorem sound_initial {addrs : List Addr} {content cmdContent : Bytes} {m : RecordManager}
    {node : Addr → Node} (hload : RecordManager.load content cmdContent = .ok m)
    (hopen : m.OneOpen m.nextId) : (World.initial addrs m node).Sound m.nextId := by
  refine ⟨(recoverable_of_load hload).1, hopen, fun _ => rfl, fun _ => ⟨⟨?_, ?_, nofun, nofun, nofun, nofun⟩,
    m.nextId, fun _ => ?_, nofun⟩⟩
  · rintro id ⟨⟨r, hr, -⟩, -⟩
    cases hr
  · rintro id status -
    constructor <;> rintro ⟨r, hr, -⟩ <;> cases hr
  · exact (UInt32.add_zero _).symm

theorem kept {addrs : List Addr} {content cmdContent : Bytes} {m : RecordManager} {node : Addr → Node}
    {pool : System} (hload : RecordManager.load content cmdContent = .ok m) (hopen : m.OneOpen m.nextId)
    (hreach : cdb.Reachable drawsOnce (System.boot (World.initial addrs m node)) pool) :
    Kept cdb drawsOnce ledger pool :=
  have hsound : (World.initial addrs m node).Sound m.nextId := sound_initial hload hopen
  hreach.kept honours ⟨⟨_, hsound⟩, recovery_settles.boots Coordinator.recovery_balanced not_false ⟨_, hsound⟩
    ⟨rfl, hsound.recoverable⟩ fun _ _ h => h⟩

end Ledger

-- All other steps are always allowed.
theorem drawsOnce_permits {pool next : System} {move : SystemMove} (hmove : System.risks move = false)
    (hstep : cdb.step pool move = some next) : drawsOnce.permits pool move := by
  cases move with
  | advance thread choice =>
      rintro effect hnext
      obtain ⟨answer, hexec⟩ := cdb.exec_of_step hnext hstep
      cases effect with
      | rand =>
          cases choice with
          | draw value => cases hmove
          | _ => cases hexec
      | _ => trivial
  | early passes request => cases hmove
  | _ => trivial

-- The log of a coordinator whose last update was committed, and a participant
-- that has committed it.
def Ledger.committed : RecordManager where
  file := fileOf [⟨RECORD_COMMIT_DONE, 4, 5⟩]
  cmdFile := []
  nextId := 5
  records := ∅
  cmds := ∅

def Ledger.upToDate : Node where
  participant := { store := ∅, nextId := 5, dbRequests := [], rManager := Ledger.committed }
  alive := true

-- An update whose only participant dies before it has prepared.
def Ledger.left : List SystemMove :=
  System.advance 0 (List.replicate 9 .done) ++ [.serve 1, .arrive (0, .set ⟨0, bytes "k", bytes "v"⟩)] ++
    System.advance 1 (List.replicate 6 .done ++ [.lost] ++ List.replicate 4 .done)

set_option maxRecDepth 10000 in
theorem Ledger.left_reachable : ∃ pool : System,
    cdb.Reachable drawsOnce (System.boot (World.initial [[0]] committed fun _ => upToDate)) pool ∧
      pool.unlocked ∧ pool.shared.issued = 1 ∧ pool.shared.refused = [5] ∧
      pool.shared.coordinator.rManager.records.toList = [(5, ⟨RECORD_UNRESOLVED, 5, 6⟩)] := by
  have hrisks : ∀ move ∈ left, System.risks move = false := by decide
  obtain ⟨pool, hreach, hpool⟩ := cdb.exists_of_run (T := drawsOnce)
    (System.boot (World.initial [[0]] committed fun _ => upToDate)) left
    (fun pool => (decide pool.unlocked, pool.shared.issued, pool.shared.refused,
      pool.shared.coordinator.rManager.records.toList))
    (true, 1, [5], [(5, ⟨RECORD_UNRESOLVED, 5, 6⟩)]) (by decide)
    fun pool next move hmove hstep => drawsOnce_permits (hrisks move hmove) hstep
  simp only [Prod.mk.injEq, decide_eq_true_eq] at hpool
  exact ⟨pool, hreach, hpool⟩

-- At most one update is open whenever the mutex is free, and none while anybody
-- is a member; the log ends with the number that is next.
theorem oneOpen_of_reachable (addrs : List Addr) (content cmdContent : Bytes) (m : RecordManager)
    (node : Addr → Node) (pool : System) (hload : RecordManager.load content cmdContent = .ok m)
    (hopen : m.OneOpen m.nextId)
    (hreach : cdb.Reachable drawsOnce (System.boot (World.initial addrs m node)) pool) :
    (∀ thread, pool.next? thread ≠ some .assertFalse) ∧
      (pool.unlocked →
        (pool.shared.coordinator.participants ≠ ∅ → pool.shared.coordinator.rManager.records = ∅) ∧
        pool.shared.coordinator.rManager.OneOpen pool.shared.coordinator.nextId ∧
        ∀ rs r, pool.shared.coordinator.rManager.file = fileOf (rs ++ [r]) →
          r.nextId = pool.shared.coordinator.nextId) := by
  have hkept := Ledger.kept hload hopen hreach
  refine ⟨fun thread hnext => hkept.issue hnext rfl, fun hfree => ?_⟩
  obtain ⟨⟨last, hs⟩, -⟩ := hkept
  obtain ⟨hready, hclosed⟩ := (Ledger.kept hload hopen hreach).idle hfree
  refine ⟨hclosed, ?_, fun rs r hfile => ?_⟩
  · rcases hs.oneOpen with hempty | ⟨id, status, hopens, hnext, hstatus⟩
    · exact .inl hempty
    · have hlast := (hready (hs.file_ne_nil hopens)).unique hs.recoverable
      exact .inr ⟨id, status, hopens, hnext.trans hlast.symm, hstatus⟩
  · have hne : pool.shared.coordinator.rManager.file ≠ [] := by
      rw [hfile]
      simp [Record.toBinary, Record.encodeUint8]
    exact (hready hne).last hfile

theorem oneOpen_of_reachable_left : ∃ pool : System, pool.unlocked ∧
    pool.shared.coordinator.rManager.records.toList = [(5, ⟨RECORD_UNRESOLVED, 5, 6⟩)] ∧
    pool.shared.coordinator.rManager.OneOpen pool.shared.coordinator.nextId := by
  obtain ⟨pool, hreach, hfree, -, -, hrecords⟩ := Ledger.left_reachable
  exact ⟨pool, hfree, hrecords, ((oneOpen_of_reachable [[0]] Ledger.committed.file [] Ledger.committed
    (fun _ => Ledger.upToDate) pool rfl (.inl rfl) hreach).2 hfree).2.1⟩

-- The log of a coordinator that stopped before the last number of all was
-- resolved.
def Ledger.wrapped : RecordManager where
  file := fileOf [⟨RECORD_UNRESOLVED, 4294967295, 0⟩]
  cmdFile := []
  nextId := 0
  records := (∅ : IdMap Record).insert 4294967295 ⟨RECORD_UNRESOLVED, 4294967295, 0⟩
  cmds := ∅

set_option maxRecDepth 10000 in
-- A zero as the next number is taken for an empty log.
theorem wrapped_not_oneOpen :
    RecordManager.load Ledger.wrapped.file [] = .ok Ledger.wrapped ∧
      Ledger.wrapped.OneOpen Ledger.wrapped.nextId ∧ ∃ pool : System,
        cdb.Reachable .any (System.boot (World.initial [[0]] Ledger.wrapped fun _ => Ledger.upToDate)) pool ∧
        pool.unlocked ∧ ¬ pool.shared.coordinator.rManager.OneOpen pool.shared.coordinator.nextId := by
  refine ⟨rfl, .inr ⟨4294967295, RECORD_UNRESOLVED, ⟨_, rfl, rfl, rfl⟩, rfl, .inl rfl⟩, ?_⟩
  obtain ⟨pool, hreach, hpool⟩ := cdb.exists_of_run
    (System.boot (World.initial [[0]] Ledger.wrapped fun _ => Ledger.upToDate))
    (System.advance 0 ([.done, .done, .draw 5, .done, .done, .done, .done, .lost] ++ List.replicate 6 .done) ++
      [.serve 0])
    (fun pool => (decide pool.unlocked, pool.shared.coordinator.nextId,
      pool.shared.coordinator.rManager.records.toList))
    (true, 5, [(4294967295, ⟨RECORD_ABORT, 4294967295, 5⟩)]) (by decide)
    fun pool next move _ _ => Terms.any_permits pool move
  simp only [Prod.mk.injEq, decide_eq_true_eq] at hpool
  obtain ⟨hfree, hnext, hrecords⟩ := hpool
  refine ⟨pool, hreach, hfree, fun hopen => ?_⟩
  rcases hopen with hempty | ⟨id, status, ⟨r, -, -, hinsert⟩, hid, -⟩
  · rw [hempty] at hrecords
    cases hrecords
  · have hsame : r = ⟨RECORD_ABORT, 4294967295, 5⟩ ∧ id = 4294967295 := by
      rw [hinsert] at hrecords
      have hlist : ((∅ : IdMap Record).insert id r).toList = [(id, r)] := rfl
      rw [hlist] at hrecords
      simpa [and_comm] using hrecords
    rw [hnext, hsame.2] at hid
    exact absurd hid (by decide)

-- No update is both committed and aborted, nothing is applied that has not been
-- logged as committed, and nothing that a client was told has failed.
theorem atomic_of_reachable (addrs : List Addr) (content cmdContent : Bytes) (m : RecordManager)
    (node : Addr → Node) (pool : System) (hload : RecordManager.load content cmdContent = .ok m)
    (hopen : m.OneOpen m.nextId)
    (hreach : cdb.Reachable drawsOnce (System.boot (World.initial addrs m node)) pool)
    (hissued : pool.shared.issued < 2 ^ 32) :
    (∀ id, ¬ ((∃ addr, (addr, .COMMIT id) ∈ pool.shared.sent) ∧
      ∃ addr, (addr, .ABORT id) ∈ pool.shared.sent)) ∧
    (∀ addr id, (addr, id) ∈ pool.shared.applied → pool.shared.Decided RECORD_COMMIT id) ∧
    ∀ addr, ∀ id ∈ pool.shared.refused, (addr, id) ∉ pool.shared.applied := by
  obtain ⟨⟨last, hs⟩, -⟩ := Ledger.kept hload hopen hreach
  obtain ⟨hledger, -⟩ := hs.ledger hissued
  refine ⟨?_, fun addr id happlied => hledger.applied _ happlied, fun addr id hrefused happlied => ?_⟩
  · rintro id ⟨⟨addr, hcommit⟩, addr', habort⟩
    exact hledger.exclusive id ⟨hledger.sent _ hcommit, hledger.sent _ habort⟩
  · have hcommitted := hledger.applied _ happlied
    rcases hledger.refused id hrefused with habort | hunresolved
    · exact hledger.exclusive id ⟨hcommitted, habort⟩
    · exact absurd ((hledger.opened id _ hunresolved).1 hcommitted) (by decide)

theorem atomic_of_reachable_left : ∃ pool : System, pool.shared.refused = [5] ∧
    ∀ addr, (addr, 5) ∉ pool.shared.applied := by
  obtain ⟨pool, hreach, -, hissued, hrefused, -⟩ := Ledger.left_reachable
  obtain ⟨-, -, hnever⟩ := atomic_of_reachable [[0]] Ledger.committed.file [] Ledger.committed
    (fun _ => Ledger.upToDate) pool rfl (.inl rfl) hreach (by omega)
  exact ⟨pool, hrefused, fun addr => hnever addr 5 (by simp [hrefused])⟩

end CloudLabs.Cdb
