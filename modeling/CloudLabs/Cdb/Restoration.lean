import CloudLabs.Cdb.Replicas.Recovery
import CloudLabs.Interaction.Sequential

namespace CloudLabs.Cdb

open Interaction RecordManager Coordinator
open Program (Yields)

-- From here on every call is executed and answered. The value is what rand()
-- gives, if it is asked.
def responsive (value : UInt32) (_ : World) (effect : Effect) : Choice :=
  match effect with
  | .rand => .draw value
  | _ => .done

namespace World

def Up (w : World) : Prop := ∀ addr ∈ w.coordinator.participantAddrs, (w.node addr).alive = true

-- The participant has applied the update, and none after it.
def Carried (w : World) (id : UInt32) (addr : Addr) : Prop :=
  (addr, id) ∈ w.applied ∧ (w.node addr).participant.nextId = id + 1

-- All are back, and what the log had left open is resolved everywhere.
structure Restored (w t : World) : Prop where
  back : ∀ addr ∈ w.coordinator.participantAddrs, addr ∈ t.coordinator.participants
  level : ∀ addr ∈ w.coordinator.participantAddrs, (t.node addr).participant.nextId = t.coordinator.nextId
  closed : t.coordinator.rManager.records = ∅
  committed : ∀ id, w.coordinator.rManager.Opens id RECORD_COMMIT →
    ∃ source ∈ w.coordinator.participantAddrs, w.Carried id source ∧
      ∀ addr ∈ w.coordinator.participantAddrs, (t.node addr).participant.store = (w.node source).participant.store
  aborted : ∀ id status, w.coordinator.rManager.Opens id status → status ≠ RECORD_COMMIT →
    ∀ addr ∈ w.coordinator.participantAddrs, (addr, id) ∉ t.applied

-- As many passes as there are participants restore the cluster.
def Restores (w : World) : Prop :=
  ∀ value ≤ RAND_MAX, ∃ t, w.Restored t ∧ Yields cdb (responsive value) .outside
    (heartbeatParticipants w.coordinator.participantAddrs.length) w () t

-- The same after the process has started.
def StartRestores (w : World) : Prop :=
  ∀ value ≤ RAND_MAX, ∃ u t, w.Restored t ∧ Yields cdb (responsive value) .alone recovery w () u ∧
    Yields cdb (responsive value) .outside (heartbeatParticipants w.coordinator.participantAddrs.length) u () t

-- Who is told the number without a snapshot has what those have that bear it.
def Told (w : World) : Prop :=
  w.coordinator.isRecovered = false → ∀ addr ∈ w.coordinator.participantAddrs,
    addr ∉ w.coordinator.participants → w.coordinator.rManager.file = [] ∨
      ∃ other ∈ w.coordinator.participantAddrs, (w.node other).participant.nextId = w.coordinator.nextId ∧
        (w.node other).participant.store = (w.node addr).participant.store

-- Somebody applied the update whose COMMIT is logged.
def CommitCarried (w : World) : Prop :=
  ∀ id, w.coordinator.rManager.Opens id RECORD_COMMIT →
    ∃ addr ∈ w.coordinator.participantAddrs, w.Carried id addr

-- There is somebody whom the others can follow.
def Seeded (w : World) : Prop :=
  (w.coordinator.participants ≠ ∅ ∨ w.coordinator.isRecovered = false ∨
    ∃ addr ∈ w.coordinator.participantAddrs, w.coordinator.Current w.coordinator.nextId (w.node addr).participant) ∧
  w.CommitCarried

-- The same when the process starts: an undecided update will be aborted, and who
-- has only prepared it is not taken back.
def StartSeeded (w : World) : Prop :=
  (w.coordinator.rManager.file = [] ∨ ∃ addr ∈ w.coordinator.participantAddrs,
    (w.node addr).participant.nextId = w.coordinator.rManager.nextId) ∧
  w.CommitCarried

-- What a call leaves that the participant answers.
structure Answers (w u : World) (addr : Addr) (q : Participant) : Prop where
  touches : w.Touches u addr
  node : u.node addr = ⟨q, true⟩
  applied : u.applied = w.applied

end World

namespace Restoration

variable {w u : World} {addr : Addr} {request : Request} {reply : Reply} {q : Participant} {value : UInt32}
  {mode : Mode}

section Calls

theorem exists_call (halive : (w.node addr).alive = true)
    (hhandle : (w.node addr).participant.handle request = .ok (reply, q))
    (hnone : (w.node addr).applies request = none) :
    ∃ u, w.call addr request .done = some (some reply, u) ∧ w.Answers u addr q := by
  obtain ⟨hcall, hnode⟩ := World.call_done halive hhandle
  refine ⟨_, hcall, World.call_touches hcall, hnode, ?_⟩
  show (((w.send addr request).node addr).applies request).toList.map (addr, ·) ++ (w.send addr request).applied = _
  rw [World.send_node, hnone]
  unfold World.send
  split <;> rfl

-- A participant that is only asked stays as it is, and so does all else.
theorem call_of_ask (halive : (w.node addr).alive = true) (hdecision : request.isDecision = false)
    (hhandle : (w.node addr).participant.handle request = .ok (reply, (w.node addr).participant)) :
    w.call addr request .done = some (some reply, w) := by
  have hsend : w.send addr request = w := by simp [World.send, hdecision]
  have hserve : (w.node addr).serve request = (some reply, w.node addr) := Node.serve_of_alive halive hhandle
  have hnone : (w.node addr).applies request = none := by
    cases request with
    | COMMIT id => cases hdecision
    | _ => rfl
  show some ((w.send addr request).execute addr request) = _
  simp only [World.execute, hsend, hserve, hnone, World.setNode, Function.update_eq_self, Option.toList_none,
    List.map_nil, List.nil_append]

theorem call_yields {answer : Option Reply} (h : w.call addr request .done = some (answer, u)) :
    Yields cdb (responsive value) mode (Coordinator.call addr request) w answer u := Yields.op h

theorem get_yields : Yields cdb (responsive value) mode Coordinator.get w w.coordinator w := rfl

theorem modify_yields (change : Coordinator → Coordinator) :
    Yields cdb (responsive value) mode (Coordinator.modify change) w ()
      { w with coordinator := change w.coordinator } := rfl

theorem log_yields (status : RecordStatus) (id : UInt32) :
    Yields cdb (responsive value) mode (Coordinator.log status id) w () (w.log status id) := rfl

end Calls

end Restoration

end CloudLabs.Cdb
