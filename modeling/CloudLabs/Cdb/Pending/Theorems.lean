import CloudLabs.Cdb.Pending.Recovery
import CloudLabs.Cdb.Replicas.Theorems

namespace CloudLabs.Cdb

open Interaction RecordManager Participant

namespace Pending

variable {addrs : List Addr}

-- A participant that starts again is as it was, to the others.
theorem quiet_of_environment {w u : World} {choice : Choice} (hT : orderly.environment w choice)
    (h : w.environment choice = some u) : Quiet w u := by
  cases choice with
  | restart addr =>
      obtain rfl := (Option.some.inj h).symm
      have hother : ∀ n : Node, n.participant.nextId = (w.node addr).participant.nextId ∧
          n.participant.dbRequests = (w.node addr).participant.dbRequests → Quiet w (w.setNode addr n) := by
        intro n hn
        refine ⟨rfl, fun other => ?_, fun other => ?_⟩
        all_goals
          by_cases heq : other = addr
          · subst heq
            simp only [World.setNode, Function.update_self]
            first
            | exact hn.1
            | exact hn.2
          · simp only [World.setNode, Function.update_of_ne heq]
      apply hother
      cases hrestart : (w.node addr).participant.restart with
      | ok q => exact restart_keeps hT hrestart
      | error fault => exact ⟨rfl, rfl⟩
  | _ => exact hT.elim

theorem honours (addrs : List Addr) : Honours cdb orderly (contract addrs) where
  main passes w ha _ := by
    let J : Rejoining orderly (contract addrs) .leader .inside := rejoining (by decide)
    exact (J.heartbeatParticipants_triple (fun _ h => h) (fun _ h => h) passes).ends ha trivial
  handler request w ha := by
    let V : World → Serving orderly (contract addrs) .worker .inside := fun _ => serving (by decide)
    exact (Serving.handle_triple V (fun _ h => h) (fun _ _ h => h) request.1 request.2 fun _ => trivial).ends
      ha trivial
  environment w choice u ha hT henvironment := by
    have hq := quiet_of_environment hT henvironment
    exact ⟨Withstands.keep (r := Quiet) (P := Always addrs) ha hq, hq, trivial⟩
  effect := False.elim
  restart w u ha _ hrestart := by
    have hstarted := started_of_restart ha hrestart
    exact ⟨hstarted.2.2, booting.recovery_triple.boots Coordinator.recovery_balanced not_false hstarted.2.2 hstarted fun _ _ h => h⟩

theorem kept {content cmdContent : Bytes} {m : RecordManager} {node : Addr → Node} {pool : System}
    (hload : RecordManager.load content cmdContent = .ok m) (hopen : m.OneOpen m.nextId)
    (hnone : ∀ addr ∈ addrs, (node addr).participant.dbRequests = [])
    (hreach : cdb.Reachable orderly (System.boot (World.initial addrs m node)) pool) :
    Kept cdb orderly (contract addrs) pool := by
  have hrecoverable := (recoverable_of_load hload).1
  have hsound : Sound addrs (World.initial addrs m node) m.nextId :=
    ⟨rfl, fun a ha => absurd ha Std.ExtTreeSet.not_mem_empty, ⟨m.nextId, hrecoverable, fun _ => rfl⟩, hopen,
      fun a ha => .of_clear (hnone a ha)⟩
  have hstarted : started addrs (World.initial addrs m node) := ⟨rfl, hrecoverable, hsound.always⟩
  exact hreach.kept (honours addrs)
    ⟨hsound.always, booting.recovery_triple.boots Coordinator.recovery_balanced not_false hsound.always hstarted fun _ _ h => h⟩

-- Whoever holds the mutex.
theorem waits_of_kept {pool : System} (hkept : Kept cdb orderly (contract addrs) pool) {holder : Nat}
    {threads : List (Code Unit)} (hphase : pool.phase = .serving (some holder) threads) : pool.shared.Waits := by
  refine hkept.held hphase (fun effect hissue => ?_) fun hidle => Idle.waits hidle
  cases effect with
  | get => exact .inr ⟨.done, pool.shared.coordinator, trivial, rfl⟩
  | notifyAll => exact .inr ⟨.done, (), trivial, rfl⟩
  | call addr request => exact .inl (hissue.2 rfl)
  | _ => exact .inl (hissue rfl)

section Runs

-- The calls and records that a run may contain.
def allows (w : World) (effect : Effect) (choice : Choice) : Bool :=
  match effect, choice with
  | .call _ _, .delayed => false
  | .call addr (.SET_NEXT_ID _), _ => (w.node addr).participant.dbRequests.isEmpty
  | .log _ id, _ => w.coordinator.participantAddrs.all fun addr => (w.node addr).participant.nextId ≠ id + 1
  | .rand, _ => w.coordinator.rManager.file.isEmpty
  | _, _ => true

def allowed (pool : System) (move : SystemMove) : Bool :=
  match move with
  | .advance thread choice => (pool.next? thread).all fun effect => allows pool.shared effect choice
  | .environment _ | .early _ _ => false
  | _ => true

theorem orderly_of_allows {mode : Mode} {w : World} {effect : Effect} {choice : Choice}
    (h : allows w effect choice) : orderly.effect mode w effect choice := by
  cases effect with
  | call addr request =>
      refine ⟨?_, ?_⟩
      · cases choice with
        | delayed => cases h
        | _ => trivial
      · cases request with
        | SET_NEXT_ID val =>
            cases choice with
            | delayed => cases h
            | lost => trivial
            | _ => exact List.isEmpty_iff.mp h
        | _ => trivial
  | log status id =>
      intro _ addr haddr hnext
      have hfar : (w.node addr).participant.nextId ≠ id + 1 := by
        simp only [allows, List.all_eq_true, decide_eq_true_eq] at h
        exact h addr haddr
      exact absurd hnext hfar
  | rand => exact List.isEmpty_iff.mp h
  | _ => trivial

theorem orderly_permits (pool : System) (move : SystemMove) (h : allowed pool move = true) :
    orderly.permits pool move := by
  cases move with
  | advance thread choice =>
      intro effect hnext
      simp only [allowed, hnext, Option.all_some] at h
      exact orderly_of_allows h
  | environment choice => cases h
  | early passes request => cases h
  | _ => trivial

-- The log and the participants of an earlier run.
def restarted : System := System.boot (World.initial [[0], [1]] Replicas.resolved fun _ => Replicas.upToDate)

-- The process boots, and a client asks for a SET.
def asked : List SystemMove :=
  System.advance 0 (List.replicate 12 .done) ++ [.serve 1, .arrive (0, .set ⟨0, bytes "k", bytes "v"⟩)]

-- The COMMIT that a thread is about to send.
def decided (pool : System) (thread : Nat) : Option (Addr × UInt32) :=
  match pool.next? thread with
  | some (.call addr (.COMMIT id)) => some (addr, id)
  | _ => none

theorem decided_eq_some {pool : System} {thread : Nat} {addr : Addr} {id : UInt32}
    (h : decided pool thread = some (addr, id)) : pool.next? thread = some (.call addr (.COMMIT id)) := by
  unfold decided at h
  split at h
  · rename_i hnext
    cases h
    exact hnext
  · cases h

-- What a COMMIT throws.
def commitFault (p : Participant) (id : UInt32) : Option Fault :=
  match p.commit id with
  | .error fault => some fault
  | .ok _ => none

theorem commitFault_eq_some {p : Participant} {id : UInt32} {fault : Fault} (h : commitFault p id = some fault) :
    p.commit id = .error fault := by
  unfold commitFault at h
  split at h
  · rename_i hcommit
    cases h
    exact hcommit
  · cases h

end Runs

end Pending

-- While the mutex is free, nothing waits at a member. While it is held, only the
-- command of the present update does. Each decision acts on the command of its
-- update.
theorem clear_of_reachable (addrs : List Addr) (content cmdContent : Bytes) (m : RecordManager)
    (node : Addr → Node) (pool : System) (hload : RecordManager.load content cmdContent = .ok m)
    (hopen : m.OneOpen m.nextId) (hnone : ∀ addr ∈ addrs, (node addr).participant.dbRequests = [])
    (hreach : cdb.Reachable Pending.orderly (System.boot (World.initial addrs m node)) pool) :
    (pool.unlocked → pool.shared.Clear) ∧
      (∀ holder threads, pool.phase = .serving (some holder) threads → pool.shared.Waits) ∧
      ∀ thread addr request, pool.next? thread = some (.call addr request) →
        (pool.shared.node addr).participant.Heeds request := by
  have hkept := Pending.kept hload hopen hnone hreach
  exact ⟨fun hfree => Pending.Idle.clear (hkept.idle hfree), fun _ _ => Pending.waits_of_kept hkept,
    fun _ _ _ hnext => (hkept.issue hnext).1⟩

set_option maxRecDepth 10000 in
-- A SET is about to be committed at the first participant.
theorem clear_of_reachable_set : ∃ pool : System, pool.next? 1 = some (.call [0] (.COMMIT 5)) ∧
    (pool.shared.node [0]).participant.Heeds (.COMMIT 5) := by
  have hrun : (Transition.run (Transition.guard Pending.allowed cdb.step) Pending.restarted
      (Pending.asked ++ System.advance 1 (List.replicate 11 .done))).any (fun pool =>
        Pending.decided pool 1 = some ([0], 5)) = true := by
    decide
  obtain ⟨pool, hpool, hend⟩ := (Option.any_eq_true _ _).mp hrun
  have hnext := Pending.decided_eq_some (of_decide_eq_true hend)
  refine ⟨pool, hnext, ?_⟩
  exact (clear_of_reachable [[0], [1]] Replicas.resolved.file [] Replicas.resolved (fun _ => Replicas.upToDate) pool
    rfl (.inl rfl) (fun _ _ => rfl) (Service.Reachable.of_guard cdb Pending.orderly_permits hpool)).2.2 1 [0] _ hnext

set_option maxRecDepth 10000 in
-- The reply to a PREPARE is lost, and its command stays where the participant is
-- told the next number. The next COMMIT finds it first.
theorem stale_not_heeds : ∃ pool : System, cdb.Reachable .any Pending.restarted pool ∧
    pool.next? 2 = some (.call [1] (.COMMIT 6)) ∧ ¬ (pool.shared.node [1]).participant.Heeds (.COMMIT 6) := by
  obtain ⟨pool, hreach, hpool⟩ := cdb.exists_of_run Pending.restarted
    (Pending.asked ++ System.advance 1 (List.replicate 7 .done ++ [.replyLost] ++ List.replicate 10 .done) ++
      System.advance 0 (List.replicate 19 .done) ++ [.arrive (0, .set ⟨0, bytes "k", bytes "v"⟩)] ++
      System.advance 2 (List.replicate 12 .done))
    (fun pool => decide (Pending.decided pool 2 = some ([1], 6)) && decide (Pending.commitFault
      (pool.shared.node [1]).participant 6 = some (.serverError "the coordinator has sent multiple PREPARE!")))
    true (by decide) fun pool next move _ _ => Terms.any_permits pool move
  simp only [Bool.and_eq_true, decide_eq_true_eq] at hpool
  obtain ⟨hdecided, hfault⟩ := hpool
  refine ⟨pool, hreach, Pending.decided_eq_some hdecided, fun hheeds => ?_⟩
  exact (hheeds.2 _ (Pending.commitFault_eq_some hfault)).2.2 rfl

end CloudLabs.Cdb
