import CloudLabs.Cdb.Coordinator.Footprint
import CloudLabs.Cdb.Replicas.Recovery
import CloudLabs.Interaction.Contract.Theorems

namespace CloudLabs.Cdb

open Interaction RecordManager Participant

namespace Replicas

variable {addrs : List Addr}

theorem honours (addrs : List Addr) : Honours cdb agreeing (contract addrs) where
  main passes w ha _ := by
    let J : Rejoining agreeing (contract addrs) .leader .inside := rejoining (by decide)
    exact (J.heartbeatParticipants_triple (fun _ h => h) (fun _ h => h) passes).ends ha trivial
  handler request w ha := by
    let V : World → Serving agreeing (contract addrs) .worker .inside := fun _ => serving (by decide)
    exact (Serving.handle_triple V (fun _ h => h) (fun _ _ h => h) request.1 request.2 fun _ => trivial).ends
      ha trivial
  environment _ _ _ _ hT _ := hT.elim
  effect := False.elim
  restart w u ha hT hrestart := by
    have hstarted := started_of_restart ha hT hrestart
    obtain ⟨-, -, next, store, hsynced⟩ := id hstarted
    exact ⟨hsynced.always, booting.recovery_triple.boots Coordinator.recovery_balanced not_false hsynced.always
      hstarted fun _ _ h => h⟩

theorem kept {content cmdContent : Bytes} {m : RecordManager} {node : Addr → Node} {store : Store} {pool : System}
    (hload : RecordManager.load content cmdContent = .ok m) (hopen : m.OneOpen m.nextId)
    (hsame : ∀ addr ∈ addrs, (node addr).participant.store = store) (hshort : ShortEntries store)
    (hreach : cdb.Reachable agreeing (System.boot (World.initial addrs m node)) pool) :
    Kept cdb agreeing (contract addrs) pool := by
  have hrecoverable := (recoverable_of_load hload).1
  have hsynced : Synced addrs (World.initial addrs m node) m.nextId store [] :=
    ⟨rfl, fun a ha => absurd ha Std.ExtTreeSet.not_mem_empty, ⟨m.nextId, hrecoverable, fun _ => rfl⟩, hopen,
      hshort, fun a ha => .of_store (hsame a ha) hshort⟩
  have hstarted : Started addrs (World.initial addrs m node) := ⟨rfl, hrecoverable, m.nextId, store, hsynced⟩
  exact hreach.kept (honours addrs) ⟨hsynced.always, booting.recovery_triple.boots Coordinator.recovery_balanced
    not_false hsynced.always hstarted fun _ _ h => h⟩

section Runs

-- A coordinator whose log is empty, and a participant that has nothing.
def unused : RecordManager := ⟨[], [], 0, ∅, ∅⟩

def blank : Node := ⟨⟨∅, 0, [], unused⟩, true⟩

-- A coordinator whose last update was committed, and a participant that has
-- committed it.
def resolved : RecordManager := ⟨fileOf [⟨RECORD_COMMIT_DONE, 4, 5⟩], [], 5, ∅, ∅⟩

def stored : Store := (∅ : Store).insert (bytes "k") (bytes "v")

def upToDate : Node := ⟨⟨stored, 5, [], unused⟩, true⟩

theorem short_stored : ShortEntries stored := by
  intro key value hfound
  rw [stored, Std.ExtTreeMap.getElem?_insert] at hfound
  split at hfound
  · rename_i heq
    cases hfound
    rw [← Std.LawfulEqCmp.eq_of_compare heq]
    exact ⟨by unfold Short; decide, by unfold Short; decide⟩
  · simp at hfound

-- The calls and records that a run may contain.
def allows (w : World) (effect : Effect) (choice : Choice) : Bool :=
  match effect, choice with
  | .call addr (.PREPARE_SET cmd), .done | .call addr (.PREPARE_SET cmd), .lost =>
      cmd.key.length < 32768 && cmd.value.length < 32768 && (w.node addr).participant.dbRequests.isEmpty
  | .call addr (.PREPARE_DEL _), .done | .call addr (.PREPARE_DEL _), .lost =>
      (w.node addr).participant.dbRequests.isEmpty
  | .call _ (.SET_NEXT_ID _), .done => w.coordinator.rManager.file.isEmpty
  | .call _ _, .done => true
  | .call _ _, _ => false
  | .log status id, _ => status ≠ RECORD_UNRESOLVED ||
      w.coordinator.participantAddrs.all fun addr => (w.node addr).participant.nextId ≠ id + 1
  | .rand, _ => w.coordinator.rManager.file.isEmpty
  | _, _ => true

def allowed (pool : System) (move : SystemMove) : Bool :=
  match move with
  | .advance thread choice => (pool.next? thread).all fun effect => allows pool.shared effect choice
  | .arrive _ | .serve _ => true
  | _ => false

theorem only_of_isEmpty {p : Participant} (h : p.dbRequests.isEmpty) (cmd : Command) : p.Only cmd := by
  intro other hother
  rw [List.isEmpty_iff.mp h] at hother
  cases hother

theorem agreeing_of_allows {mode : Mode} {w : World} {effect : Effect} {choice : Choice}
    (h : allows w effect choice) : agreeing.effect mode w effect choice := by
  cases effect with
  | call addr request =>
      refine ⟨?_, fun cmd hprepares => ?_, ?_⟩
      · cases choice with
        | delayed => cases request <;> cases h
        | _ => trivial
      · cases request with
        | PREPARE_SET set =>
            cases hprepares
            cases choice with
            | done | lost =>
                simp only [allows, Bool.and_eq_true, decide_eq_true_eq] at h
                exact ⟨h.1, only_of_isEmpty h.2 _⟩
            | _ => cases h
        | PREPARE_DEL del =>
            cases hprepares
            cases choice with
            | done | lost => exact ⟨trivial, only_of_isEmpty h _⟩
            | _ => cases h
        | _ => cases hprepares
      · cases request with
        | SET_NEXT_ID val =>
            cases choice with
            | done => exact fun _ => .inl (List.isEmpty_iff.mp h)
            | _ => cases h
        | _ => trivial
  | log status id =>
      intro hstatus addr haddr
      simp only [allows, hstatus, ne_eq, not_true_eq_false, decide_false, Bool.false_or, List.all_eq_true,
        decide_eq_true_eq] at h
      exact h addr haddr
  | rand => exact List.isEmpty_iff.mp h
  | _ => trivial

theorem agreeing_permits (pool : System) (move : SystemMove) (h : allowed pool move = true) :
    agreeing.permits pool move := by
  cases move with
  | advance thread choice =>
      intro effect hnext
      simp only [allowed, hnext, Option.all_some] at h
      exact agreeing_of_allows h
  | arrive request => trivial
  | serve passes => trivial
  | _ => cases h

-- The RECOVER that a thread is about to send.
def recovering (pool : System) (thread : Nat) : Option (Addr × Bytes × List Bytes) :=
  match pool.next? thread with
  | some (.call addr (.RECOVER data delKeys)) => some (addr, data, delKeys.toList)
  | _ => none

theorem recovering_eq_some {pool : System} {thread : Nat} {addr : Addr} {data : Bytes} {keys : List Bytes}
    (h : recovering pool thread = some (addr, data, keys)) :
    ∃ delKeys, pool.next? thread = some (.call addr (.RECOVER data delKeys)) ∧ delKeys.toList = keys := by
  unfold recovering at h
  split at h
  · rename_i delKeys hnext
    cases h
    exact ⟨delKeys, hnext, rfl⟩
  · cases h

-- The process boots on an empty log, with both participants at hand.
def booted : List SystemMove :=
  System.advance 0 ([.done, .done, .draw 5] ++ List.replicate 13 .done) ++ [.serve 1]

-- A DEL from which the second participant is missing.
def missed : List SystemMove :=
  System.advance 0 (List.replicate 12 .done) ++ [.serve 1, .arrive (0, .del ⟨0, [bytes "k"]⟩)] ++
    System.advance 1 (List.replicate 7 .done ++ [.lost] ++ List.replicate 12 .done)

end Runs

end Replicas

-- Whenever the mutex is free, the members hold the same keys and values.
theorem agree_of_reachable (addrs : List Addr) (content cmdContent : Bytes) (m : RecordManager)
    (node : Addr → Node) (store : Store) (pool : System)
    (hload : RecordManager.load content cmdContent = .ok m) (hopen : m.OneOpen m.nextId)
    (hsame : ∀ addr ∈ addrs, (node addr).participant.store = store) (hshort : ShortEntries store)
    (hreach : cdb.Reachable Replicas.agreeing (System.boot (World.initial addrs m node)) pool)
    (hfree : pool.unlocked) : pool.shared.Agree :=
  Replicas.Idle.agree ((Replicas.kept hload hopen hsame hshort hreach).idle hfree)

set_option maxRecDepth 10000 in
theorem agree_of_reachable_set : ∃ pool : System, pool.shared.coordinator.participants.toList = [[0], [1]] ∧
    (pool.shared.node [1]).participant.store.toList = [(bytes "k", bytes "v")] ∧ pool.shared.Agree := by
  have hrun : (Transition.run (Transition.guard Replicas.allowed cdb.step)
      (System.boot (World.initial [[0], [1]] Replicas.unused fun _ => Replicas.blank))
      (Replicas.booted ++ [.arrive (0, .set ⟨0, bytes "k", bytes "v"⟩)] ++
        System.advance 1 (List.replicate 17 .done))).any (fun pool =>
          decide pool.unlocked && pool.shared.coordinator.participants.toList = [[0], [1]] &&
            (pool.shared.node [1]).participant.store.toList = [(bytes "k", bytes "v")]) = true := by
    decide
  obtain ⟨pool, hpool, hend⟩ := (Option.any_eq_true _ _).mp hrun
  simp only [Bool.and_eq_true, decide_eq_true_eq] at hend
  refine ⟨pool, hend.1.2, hend.2, ?_⟩
  apply agree_of_reachable [[0], [1]] [] [] Replicas.unused (fun _ => Replicas.blank) ∅ pool
  · rfl
  · exact .inl rfl
  · exact fun _ _ => rfl
  · exact fun key value hfound => by simp at hfound
  · exact Service.Reachable.of_guard cdb Replicas.agreeing_permits hpool
  · exact hend.1.1

set_option maxRecDepth 10000 in
-- A participant that has missed an update is told the number without a snapshot.
theorem told_not_agree : ∃ pool : System,
    cdb.Reachable .any (System.boot (World.initial [[0], [1]] Replicas.unused fun _ => Replicas.blank)) pool ∧
      pool.unlocked ∧ ¬ pool.shared.Agree := by
  obtain ⟨pool, hreach, hpool⟩ := cdb.exists_of_run
    (System.boot (World.initial [[0], [1]] Replicas.unused fun _ => Replicas.blank))
    (Replicas.booted ++ [.arrive (0, .set ⟨0, bytes "k", bytes "v"⟩)] ++
      System.advance 1 (List.replicate 7 .done ++ [.lost] ++ List.replicate 10 .done) ++
      System.advance 0 (List.replicate 16 .done))
    (fun pool => decide pool.unlocked && pool.shared.coordinator.participants.toList = [[0], [1]] &&
      (pool.shared.node [0]).participant.store.toList = [(bytes "k", bytes "v")] &&
      (pool.shared.node [1]).participant.store.toList = [])
    true (by decide) fun pool next move _ _ => Terms.any_permits pool move
  simp only [Bool.and_eq_true, decide_eq_true_eq] at hpool
  obtain ⟨⟨⟨hfree, hmembers⟩, hfirst⟩, hsecond⟩ := hpool
  refine ⟨pool, hreach, hfree, fun hagree => ?_⟩
  have hmember : ∀ addr ∈ [[0], [1]], addr ∈ pool.shared.coordinator.participants := by
    intro addr haddr
    rw [← hmembers] at haddr
    exact Std.ExtTreeSet.mem_toList.mp haddr
  have hsame := hagree [0] (hmember [0] (by simp)) [1] (hmember [1] (by simp))
  rw [hsame, hsecond] at hfirst
  cases hfirst

-- A participant that is sent a snapshot has what the members have when it has
-- taken it over.
theorem recovers_of_reachable (addrs : List Addr) (content cmdContent : Bytes) (m : RecordManager)
    (node : Addr → Node) (store : Store) (pool : System)
    (hload : RecordManager.load content cmdContent = .ok m) (hopen : m.OneOpen m.nextId)
    (hsame : ∀ addr ∈ addrs, (node addr).participant.store = store) (hshort : ShortEntries store)
    (hreach : cdb.Reachable Replicas.agreeing (System.boot (World.initial addrs m node)) pool)
    (thread : Nat) (addr : Addr) (data : Bytes) (delKeys : KeySet)
    (hnext : pool.next? thread = some (.call addr (.RECOVER data delKeys))) :
    pool.shared.Recovers addr data delKeys :=
  (Replicas.kept hload hopen hsame hshort hreach).issue hnext

set_option maxRecDepth 10000 in
-- The participant that missed a DEL is brought up to date.
theorem recovers_of_reachable_del : ∃ (pool : System) (delKeys : KeySet), delKeys.toList = [bytes "k"] ∧
    pool.shared.Recovers [1] [] delKeys := by
  have hrun : (Transition.run (Transition.guard Replicas.allowed cdb.step)
      (System.boot (World.initial [[0], [1]] Replicas.resolved fun _ => Replicas.upToDate))
      (Replicas.missed ++ System.advance 0 (List.replicate 12 .done))).any (fun pool =>
        Replicas.recovering pool 0 = some ([1], [], [bytes "k"])) = true := by
    decide
  obtain ⟨pool, hpool, hend⟩ := (Option.any_eq_true _ _).mp hrun
  obtain ⟨delKeys, hnext, hkeys⟩ := Replicas.recovering_eq_some (of_decide_eq_true hend)
  refine ⟨pool, delKeys, hkeys, ?_⟩
  exact recovers_of_reachable [[0], [1]] Replicas.resolved.file [] Replicas.resolved (fun _ => Replicas.upToDate)
    Replicas.stored pool rfl (.inl rfl) (fun _ _ => rfl) Replicas.short_stored
    (Service.Reachable.of_guard cdb Replicas.agreeing_permits hpool) 0 [1] [] delKeys hnext

set_option maxRecDepth 10000 in
-- A coordinator that is started again does not know what was deleted.
theorem restarted_not_recovers : ∃ (pool : System) (delKeys : KeySet),
    cdb.Reachable .any (System.boot (World.initial [[0], [1]] Replicas.resolved fun _ => Replicas.upToDate)) pool ∧
      pool.next? 0 = some (.call [1] (.RECOVER [] delKeys)) ∧ ¬ pool.shared.Recovers [1] [] delKeys := by
  obtain ⟨pool, hreach, hpool⟩ := cdb.exists_of_run
    (System.boot (World.initial [[0], [1]] Replicas.resolved fun _ => Replicas.upToDate))
    (Replicas.missed ++ [.crash] ++ System.advance 0 (List.replicate 13 .done) ++ [.serve 1] ++
      System.advance 0 (List.replicate 12 .done))
    (fun pool => decide (Replicas.recovering pool 0 = some ([1], [], [])) &&
      pool.shared.coordinator.participants.toList = [[0]] &&
      !(pool.shared.node [0]).participant.store.contains (bytes "k") &&
      (pool.shared.node [1]).participant.store.contains (bytes "k"))
    true (by decide) fun pool next move _ _ => Terms.any_permits pool move
  simp only [Bool.and_eq_true, decide_eq_true_eq, Bool.not_eq_true'] at hpool
  obtain ⟨⟨⟨hrecovering, hmembers⟩, hfirst⟩, hsecond⟩ := hpool
  obtain ⟨delKeys, hnext, hkeys⟩ := Replicas.recovering_eq_some hrecovering
  refine ⟨pool, delKeys, hreach, hnext, fun hrecovers => ?_⟩
  have hmember : [0] ∈ pool.shared.coordinator.participants := by
    rw [← Std.ExtTreeSet.mem_toList, hmembers]
    exact List.mem_singleton_self _
  have hgone : bytes "k" ∉ (pool.shared.node [0]).participant.store := by
    rw [← Std.ExtTreeMap.contains_iff_mem, hfirst]
    exact Bool.false_ne_true
  have hcovered := (hrecovers.2.2 [0] hmember).1 (bytes "k") (Std.ExtTreeMap.contains_iff_mem.mp hsecond) hgone
  rw [← Std.ExtTreeSet.mem_toList, hkeys] at hcovered
  cases hcovered

end CloudLabs.Cdb
