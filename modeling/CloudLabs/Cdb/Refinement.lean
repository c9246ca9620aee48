import CloudLabs.Cdb.Coordinator.Outline
import CloudLabs.Cdb.Reference
import CloudLabs.Cdb.System.Turn

namespace CloudLabs.Cdb

open Interaction

-- What a participant has between two updates, or with one pending.
structure Participant.Holds (p : Participant) (store : Store) (nextId : UInt32)
    (requests : List (Option Command)) : Prop where
  store : p.store = store
  nextId : p.nextId = nextId
  pending : p.dbRequests = requests

-- Where a run starts of which one participant survives: the members agree, and
-- the history is empty. `asked` is what the clients will ask.
structure Refinement where
  start : World
  store : Store
  survivor : Addr
  asked : Client → Command
  member : survivor ∈ start.coordinator.participants
  alive : (start.node survivor).alive
  same : ∀ addr ∈ start.coordinator.participants,
    (start.node addr).participant.Holds store start.coordinator.nextId []
  unlogged : start.logged = []
  unvetoed : start.vetoed = []
  unserved : start.replies = []

namespace Refinement

variable (X : Refinement)

def service : Service Effect Effect.Answer World Choice Client :=
  { cdb with handler := fun client => Coordinator.handle (client, X.asked client) }

def pool (passes : Nat) : System :=
  ⟨X.start, .serving none [Coordinator.heartbeatParticipants passes]⟩

-- The survivor never fails a call, and one that has been dropped fails them all.
-- What was given up is executed when its participant has been dropped. The run begins
-- where recovery() has returned.
def terms : Terms Effect World Choice where
  effect _ w effect choice := match effect with
    | .call addr _ => (addr = X.survivor → choice = .done ∨ ∃ stage, choice = .refuse stage) ∧
        (addr ∉ w.coordinator.participants → choice ≠ .done)
    | _ => True
  environment w choice := match choice with
    | .deliver index => ∀ message, w.inFlight[index]? = some message →
        message.1 ∉ w.coordinator.participants
    | .restart addr => addr ∉ w.coordinator.participants
    | _ => True
  crash _ := False
  early := False

-- One of the ways in which the effects may turn out while the survivor is a member.
def Allows (pick : World → Effect → Choice) : Prop :=
  ∀ w effect, X.survivor ∈ w.coordinator.participants →
    (match effect with | .rand | .assertFalse => False | _ => True) →
      X.terms.effect .inside w effect (pick w effect) ∧ ∃ answer, cdb.exec w effect (pick w effect) = some answer

-- What the clients have been answered is what the reference answers, and leaves
-- it as `r`.
def Answered (w : World) (r : Reference) : Prop :=
  (∀ veto : Nat → Bool, (∀ k ≤ r.updates, veto k = true ↔ k ∈ w.vetoed) →
    Reference.run veto ⟨X.store.view, 0⟩ (w.replies.map fun reply => X.asked reply.1) =
      (w.replies.map Prod.snd, r)) ∧
    X.survivor ∈ w.coordinator.participants ∧ (w.node X.survivor).alive

-- A member is as far as the reference, or one request ahead of it.
def Follows (r : Reference) (p : Participant) : Prop :=
  p.store.view = r.map ∨ ∃ client, p.store.view = (r.serve (X.asked client)).2.map

def Agrees (w : World) : Prop :=
  ∃ r, X.Answered w r ∧ w.Everyone (X.Follows r)

-- As many updates have been logged, and only they have been refused.
def Counts (w : World) (updates : Nat) : Prop :=
  w.issued = updates ∧ ∀ k ∈ w.vetoed, k ≤ updates

def Idle (w : World) : Prop :=
  ∃ r store nextId, X.Answered w r ∧ store.view = r.map ∧ Counts w r.updates ∧
    w.coordinator.nextId = nextId ∧ w.Everyone (·.Holds store nextId [])

-- What happens while somebody else holds the mutex.
structure Quiet (w u : World) : Prop where
  coordinator : u.coordinator = w.coordinator
  logged : u.logged = w.logged
  vetoed : u.vetoed = w.vetoed
  replies : u.replies = w.replies
  node : ∀ addr ∈ w.coordinator.participants, u.node addr = w.node addr

-- What is known of the members and of the history.
abbrev Steady (P : World → Prop) : Prop := Withstands Quiet P

section Steady

instance : World.Remote Quiet := ⟨fun hq => hq.coordinator⟩

instance {P : Participant → Prop} : World.Lasts Quiet P := ⟨fun hq addr haddr h => by rwa [hq.node addr haddr]⟩

instance {r : Reference} : Steady fun w => X.Answered w r :=
  ⟨fun ⟨hrun, hmember, halive⟩ hq => by
    refine ⟨?_, ?_, ?_⟩
    · simpa only [hq.vetoed, hq.replies] using hrun
    · rwa [hq.coordinator]
    · rwa [hq.node _ hmember]⟩

instance {updates : Nat} : Steady fun w => Counts w updates :=
  ⟨fun h hq => by simpa only [Counts, hq.vetoed, World.issued, hq.logged] using h⟩

instance {number : Nat} : Steady fun w => number ∈ w.vetoed := ⟨fun h hq => by rwa [hq.vetoed]⟩

instance {number : Nat} : Steady fun w => number ∉ w.vetoed := ⟨fun h hq => by rwa [hq.vetoed]⟩

instance : Steady X.Agrees := by
  unfold Agrees
  infer_instance

instance : Steady X.Idle := by
  unfold Idle
  infer_instance

end Steady

end Refinement

end CloudLabs.Cdb
