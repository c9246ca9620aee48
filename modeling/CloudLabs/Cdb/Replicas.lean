import CloudLabs.Cdb.Coordinator.Outline.Keeping
import CloudLabs.Cdb.Participant.Snapshot

namespace CloudLabs.Cdb

open Interaction RecordManager Participant

-- What the command puts into a store can be sent in a snapshot.
def Command.Fits : Command → Prop
  | .set cmd => Short cmd.key ∧ Short cmd.value
  | _ => True

def Command.deleted : Command → List Bytes
  | .del cmd => cmd.keys
  | _ => []

-- No other command waits under the id of this one.
def Participant.Only (p : Participant) (cmd : Command) : Prop :=
  ∀ other, some other ∈ p.dbRequests → other.id = cmd.id → other = cmd

namespace Coordinator

-- The participant is as far as the log: its next_id_ is the one that comes next,
-- or that of an update which is not decided.
def Current (c : Coordinator) (next : UInt32) (p : Participant) : Prop :=
  p.nextId = next ∨ c.rManager.Opens p.nextId RECORD_UNRESOLVED

-- The same, with the number that the log ends with.
def Newest (c : Coordinator) (p : Participant) : Prop :=
  c.rManager.Recoverable p.nextId ∨ c.rManager.Opens p.nextId RECORD_UNRESOLVED

-- What is known of a participant while those that are as far as the log hold
-- `store`: a key that it holds beyond it is known to be deleted. `deleted` are
-- the keys of an update that is being committed.
structure Tracks (c : Coordinator) (next : UInt32) (store : Store) (deleted : List Bytes) (p : Participant) :
    Prop where
  level : c.Current next p → p.store = store
  covered : ∀ key ∈ p.store, key ∉ store → key ∈ c.delKeys ∨ key ∈ deleted
  short : ShortEntries p.store
  fresh : c.rManager.file = [] → p.store = store

end Coordinator

namespace World

-- The members hold the same keys and values.
def Agree (w : World) : Prop :=
  ∀ addr ∈ w.coordinator.participants, ∀ other ∈ w.coordinator.participants,
    (w.node addr).participant.store = (w.node other).participant.store

-- The participant gets what the members have, when it is sent this.
def Recovers (w : World) (addr : Addr) (data : Bytes) (delKeys : KeySet) : Prop :=
  w.coordinator.participants ≠ ∅ ∧ delKeys = w.coordinator.delKeys ∧
    ∀ member ∈ w.coordinator.participants,
      (∀ key ∈ (w.node addr).participant.store, key ∉ (w.node member).participant.store → key ∈ delKeys) ∧
      ∃ q, (w.node addr).participant.recover data delKeys = .ok (true, q) ∧
        q.store = (w.node member).participant.store

end World

namespace Replicas

-- A call is executed or fails at once. What is prepared can be sent in a
-- snapshot, and no other command waits under its number. A participant is told
-- the number without a snapshot only if it has what those have that bear it. An
-- update gets a number that no participant has reached, and a number is drawn at
-- random only when nothing has been logged. The coordinator dies only while the
-- newest participants have all keys that the others have. Nobody is served before
-- recovery() has returned.
def agreeing : Terms Effect World Choice where
  effect _ w effect choice := match effect with
    | .call addr request =>
        (match choice with | .delayed => False | _ => True) ∧
        (∀ cmd, request.prepares = some cmd → cmd.Fits ∧ (w.node addr).participant.Only cmd) ∧
        match request with
        | .SET_NEXT_ID val => w.coordinator.isRecovered = false → w.coordinator.rManager.file = [] ∨
            ∃ other ∈ w.coordinator.participantAddrs, (w.node other).participant.nextId = val ∧
              (w.node other).participant.store = (w.node addr).participant.store
        | _ => True
    | .log status id => status = RECORD_UNRESOLVED →
        ∀ addr ∈ w.coordinator.participantAddrs, (w.node addr).participant.nextId ≠ id + 1
    | .rand => w.coordinator.rManager.file = []
    | _ => True
  environment _ _ := False
  crash w := ∀ addr ∈ w.coordinator.participantAddrs, ∀ newest ∈ w.coordinator.participantAddrs,
    w.coordinator.Newest (w.node newest).participant →
      ∀ key ∈ (w.node addr).participant.store, key ∈ (w.node newest).participant.store
  early := False

-- The log is the one that the coordinator can be started from, and each
-- configured participant is tracked.
structure Synced (addrs : List Addr) (w : World) (next : UInt32) (store : Store) (deleted : List Bytes) :
    Prop where
  configured : w.coordinator.participantAddrs = addrs
  members : ∀ addr ∈ w.coordinator.participants, addr ∈ addrs
  recoverable : ∃ last, w.coordinator.rManager.Recoverable last ∧
    (w.coordinator.rManager.file ≠ [] → last = next)
  oneOpen : w.coordinator.rManager.OneOpen next
  short : ShortEntries store
  tracks : ∀ addr ∈ addrs, w.coordinator.Tracks next store deleted (w.node addr).participant

def Always (addrs : List Addr) (w : World) : Prop :=
  ∃ next store deleted, Synced addrs w next store deleted

-- No update is open.
def Empty (w : World) : Prop := w.coordinator.rManager.records = ∅

-- An update is open only while nobody is a member.
def Closed (w : World) : Prop :=
  w.coordinator.participants ≠ ∅ → Empty w

-- The members are as far as the coordinator and hold the store.
def Level (addrs : List Addr) (next : UInt32) (store : Store) (deleted : List Bytes) (w : World) : Prop :=
  w.coordinator.nextId = next ∧ Synced addrs w next store deleted ∧ Closed w ∧ w.Everyone (·.nextId = next)

-- Nothing is in progress, but `deleted` may still have to be remembered.
def Idle (addrs : List Addr) (deleted : List Bytes) (w : World) : Prop :=
  ∃ next store, Level addrs next store deleted w

-- An update is in progress.
def Running (addrs : List Addr) (id : UInt32) (status : RecordStatus) (store : Store) (deleted : List Bytes)
    (w : World) : Prop :=
  w.coordinator.nextId = id + 1 ∧ Synced addrs w (id + 1) store deleted ∧ w.coordinator.rManager.Opens id status

-- All that others change is how the processes are doing.
structure Quiet (w u : World) : Prop where
  coordinator : u.coordinator = w.coordinator
  participant : ∀ addr, (u.node addr).participant = (w.node addr).participant

-- What is known of the coordinator and the participants.
abbrev Visible (P : World → Prop) : Prop := Withstands Quiet P

section Visible

variable {addrs : List Addr} {next id : UInt32} {status : RecordStatus} {store : Store} {deleted : List Bytes}

instance : World.Remote Quiet := ⟨fun hq => hq.coordinator⟩

instance {P : Participant → Prop} : World.Lasts Quiet P := ⟨fun hq addr _ h => by rwa [hq.participant]⟩

instance {addr : Addr} : Visible fun w => (w.node addr).participant.nextId = next :=
  ⟨fun h hq => by rwa [hq.participant]⟩

instance {addr : Addr} : Visible fun w => (w.node addr).participant.store = store :=
  ⟨fun h hq => by rwa [hq.participant]⟩

instance {addr : Addr} : Visible fun w => w.coordinator.Current next (w.node addr).participant :=
  ⟨fun h hq => by rwa [hq.coordinator, hq.participant]⟩

instance : Visible fun w => Synced addrs w next store deleted :=
  ⟨fun h hq => by
    refine ⟨?_, ?_, ?_, ?_, h.short, fun addr haddr => ?_⟩
    · rw [hq.coordinator]
      exact h.configured
    · rw [hq.coordinator]
      exact h.members
    · rw [hq.coordinator]
      exact h.recoverable
    · rw [hq.coordinator]
      exact h.oneOpen
    · rw [hq.coordinator, hq.participant]
      exact h.tracks addr haddr⟩

instance : Visible Empty := ⟨fun h hq => by rwa [Empty, hq.coordinator]⟩

instance : Visible Closed := ⟨fun h hq => by rwa [Closed, Empty, hq.coordinator]⟩

instance : Visible (Always addrs) := by
  unfold Always
  infer_instance

instance : Visible (Level addrs next store deleted) := by
  unfold Level
  infer_instance

instance : Visible (Idle addrs deleted) := by
  unfold Idle
  infer_instance

instance : Visible (Running addrs id status store deleted) := by
  unfold Running
  infer_instance

end Visible

-- Nobody but the holder of the mutex changes the coordinator or a participant,
-- and RECOVER is sent only where it brings the participant up to date.
def contract (addrs : List Addr) : Contract Effect World where
  always := Always addrs
  idle := Idle addrs []
  quiet := Quiet
  follow _ _ := True
  issue _ w effect := match effect with
    | .call addr (.RECOVER data delKeys) => w.Recovers addr data delKeys
    | _ => True
  quiet_refl _ := ⟨rfl, fun _ => rfl⟩
  quiet_trans h h' := ⟨h'.coordinator.trans h.coordinator, fun addr => (h'.participant addr).trans (h.participant addr)⟩
  follow_refl _ := trivial
  follow_trans _ _ := trivial
  idle_quiet hidle hq _ := Withstands.keep hidle hq

instance (addrs : List Addr) : Calm (contract addrs) where
  coordinator hq := hq.coordinator
  follow _ _ := trivial
  get _ _ := trivial
  notifyAll _ _ := trivial
  quiet_of hc hp := ⟨hc, hp⟩
  always_of ha hq := Withstands.keep (r := Quiet) (P := Always addrs) ha hq

def known (addrs : List Addr) (P : World → Prop) [hP : Visible P] : (contract addrs).Assertion :=
  ⟨P, fun h hq _ => hP.keep h hq⟩

end Replicas

end CloudLabs.Cdb
