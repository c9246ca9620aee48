import CloudLabs.Cdb.Coordinator.Outline.Keeping

namespace CloudLabs.Cdb

open Interaction RecordManager

namespace Participant

-- Nothing waits, or one command under the number that the participant has.
def Orderly (p : Participant) : Prop :=
  p.dbRequests = [] ∨ ∃ cmd : Command, p.dbRequests = [some cmd] ∧ cmd.id = p.nextId

-- Nothing waits, and the log that the participant reads has its number.
def OnDisk (p : Participant) (m : RecordManager) : Prop :=
  m.nextId = p.nextId ∧ m.records = ∅ ∧ p.dbRequests = []

-- A COMMIT of this update finds its command.
def CanCommit (id : UInt32) (p : Participant) : Prop :=
  p.nextId = id → ∃ cmd : Command, p.dbRequests = [some cmd] ∧ cmd.id = id

-- An ABORT of this update finds its command, if it finds any.
def CanAbort (id : UInt32) (p : Participant) : Prop :=
  p.nextId = id → p.dbRequests = [] ∨ ∃ cmd : Command, p.dbRequests = [some cmd] ∧ cmd.id = id

-- A decision acts on the command of its update.
def Heeds (p : Participant) : Request → Prop
  | .COMMIT id => p.CanCommit id ∧ ∀ fault, p.commit id = .error fault → fault ≠ .endDereference ∧
      fault ≠ .nullDereference ∧ fault ≠ .serverError "the coordinator has sent multiple PREPARE!"
  | .ABORT id => p.CanAbort id ∧ ∀ cmd ∈ p.dbRequests, cmd ∉ (p.abort id).2.dbRequests → cmd.map Command.id = some id
  | _ => True

end Participant

namespace World

-- Nothing waits at a member.
def Clear (w : World) : Prop :=
  ∀ addr ∈ w.coordinator.participants, (w.node addr).participant.dbRequests = []

-- All that waits at a member is the command of the update that was given the last
-- number.
def Waits (w : World) : Prop :=
  ∀ addr ∈ w.coordinator.participants, (w.node addr).participant.dbRequests = [] ∨
    ∃ cmd : Command, (w.node addr).participant.dbRequests = [some cmd] ∧
      cmd.id = (w.node addr).participant.nextId ∧ cmd.id + 1 = w.coordinator.nextId

end World

namespace Pending

-- A call is executed or fails at once. SET_NEXT_ID reaches a participant only if
-- nothing waits there, and an update gets a number at which nothing waits to be
-- reached. A number is drawn at random only when nothing has been logged. A
-- participant starts again only while nothing waits there, and with its number.
-- Nobody is served before recovery() has returned.
def orderly : Terms Effect World Choice where
  effect _ w effect choice := match effect with
    | .call addr request =>
        (match choice with | .delayed => False | _ => True) ∧
        match request with
        | .SET_NEXT_ID _ =>
            (match choice with | .lost => True | _ => (w.node addr).participant.dbRequests = [])
        | _ => True
    | .log status id => status = RECORD_UNRESOLVED → ∀ addr ∈ w.coordinator.participantAddrs,
        (w.node addr).participant.nextId = id + 1 → (w.node addr).participant.dbRequests = []
    | .rand => w.coordinator.rManager.file = []
    | _ => True
  environment w choice := match choice with
    | .restart addr => ∀ m, RecordManager.load (w.node addr).participant.rManager.file
        (w.node addr).participant.rManager.cmdFile = .ok m → (w.node addr).participant.OnDisk m
    | _ => False
  crash _ := True
  early := False

-- What is known of a participant while the log ends with the number `next`.
structure Holds (c : Coordinator) (next : UInt32) (p : Participant) : Prop where
  orderly : p.Orderly
  level : p.nextId = next → p.dbRequests = []
  fresh : c.rManager.file = [] → p.dbRequests = []

-- The log is the one that the coordinator can be started from, and this is known
-- of each configured participant.
structure Sound (addrs : List Addr) (w : World) (next : UInt32) : Prop where
  configured : w.coordinator.participantAddrs = addrs
  members : ∀ addr ∈ w.coordinator.participants, addr ∈ addrs
  recoverable : ∃ last, w.coordinator.rManager.Recoverable last ∧
    (w.coordinator.rManager.file ≠ [] → last = next)
  oneOpen : w.coordinator.rManager.OneOpen next
  holds : ∀ addr ∈ addrs, Holds w.coordinator next (w.node addr).participant

def Always (addrs : List Addr) (w : World) : Prop := ∃ next, Sound addrs w next

-- No update is open.
def Empty (w : World) : Prop := w.coordinator.rManager.records = ∅

-- The members are as far as the coordinator, and an update is open only while
-- there are none.
def Idle (addrs : List Addr) (w : World) : Prop :=
  ∃ next, w.coordinator.nextId = next ∧ Sound addrs w next ∧ (w.coordinator.participants ≠ ∅ → Empty w) ∧
    w.Everyone (·.nextId = next)

-- The participant has not resolved the update, or is at the next one.
def Near (id : UInt32) (p : Participant) : Prop := p.nextId = id ∨ p.nextId = id + 1

-- An update is in progress.
def Running (addrs : List Addr) (id : UInt32) (status : RecordStatus) (w : World) : Prop :=
  w.coordinator.nextId = id + 1 ∧ Sound addrs w (id + 1) ∧ w.coordinator.rManager.Opens id status ∧
    w.Everyone (Near id)

-- Others change neither the coordinator nor what waits at a participant.
structure Quiet (w u : World) : Prop where
  coordinator : u.coordinator = w.coordinator
  nextId : ∀ addr, (u.node addr).participant.nextId = (w.node addr).participant.nextId
  dbRequests : ∀ addr, (u.node addr).participant.dbRequests = (w.node addr).participant.dbRequests

structure Alike (p q : Participant) : Prop where
  nextId : q.nextId = p.nextId
  dbRequests : q.dbRequests = p.dbRequests

-- What is known of the number and the commands of a participant.
abbrev Seen (P : Participant → Prop) : Prop := Withstands Alike P

-- What is known of the coordinator and of what waits.
abbrev Visible (P : World → Prop) : Prop := Withstands Quiet P

theorem Quiet.alike {w u : World} (hq : Quiet w u) (addr : Addr) :
    Alike (w.node addr).participant (u.node addr).participant :=
  ⟨hq.nextId addr, hq.dbRequests addr⟩

section Seen

variable {id : UInt32} {c : Coordinator}

instance : Seen (·.nextId = id) := ⟨fun h hsame => hsame.nextId.trans h⟩

instance : Seen (Near id) :=
  ⟨fun h hsame => by
    unfold Near
    rwa [hsame.nextId]⟩

instance : Seen (Participant.CanCommit id) :=
  ⟨fun h hsame => by
    unfold Participant.CanCommit
    rwa [hsame.nextId, hsame.dbRequests]⟩

instance : Seen Participant.Orderly :=
  ⟨fun h hsame => by
    unfold Participant.Orderly
    rwa [hsame.nextId, hsame.dbRequests]⟩

instance : Seen (Holds c id) :=
  ⟨fun h hsame => ⟨Withstands.keep h.orderly hsame, by rw [hsame.nextId, hsame.dbRequests]; exact h.level,
    by rw [hsame.dbRequests]; exact h.fresh⟩⟩

end Seen

section Visible

variable {addrs : List Addr} {next id : UInt32} {status : RecordStatus} {addr : Addr} {rest : List Addr}

instance : World.Remote Quiet := ⟨fun hq => hq.coordinator⟩

instance {P : Participant → Prop} [hP : Seen P] : World.Lasts Quiet P := ⟨fun hq addr _ h => hP.keep h (hq.alike addr)⟩

instance : Visible fun w => w.coordinator.participants = ∅ := ⟨fun h hq => by rwa [hq.coordinator]⟩

instance : Visible fun w => (w.node addr).participant.nextId = next := ⟨fun h hq => (hq.nextId addr).trans h⟩

instance : Visible Empty := ⟨fun h hq => by rwa [Empty, hq.coordinator]⟩

instance : Visible fun w => w.coordinator.participants ≠ ∅ → Empty w :=
  ⟨fun h hq => by rwa [Empty, hq.coordinator]⟩

instance : Visible fun w => Sound addrs w next :=
  ⟨fun h hq => by
    refine ⟨?_, ?_, ?_, ?_, fun a ha => ?_⟩
    · rw [hq.coordinator]
      exact h.configured
    · rw [hq.coordinator]
      exact h.members
    · rw [hq.coordinator]
      exact h.recoverable
    · rw [hq.coordinator]
      exact h.oneOpen
    · rw [hq.coordinator]
      exact Withstands.keep (h.holds a ha) (hq.alike a)⟩

instance : Visible (Always addrs) := by
  unfold Always
  infer_instance

instance : Visible (Idle addrs) := by
  unfold Idle
  infer_instance

instance : Visible (Running addrs id status) := by
  unfold Running
  infer_instance

end Visible

-- Nobody but the holder of the mutex changes what waits. While it is held, only
-- the command of the present update waits at a member, and each decision acts on
-- the command of its update.
def contract (addrs : List Addr) : Contract Effect World where
  always := Always addrs
  idle := Idle addrs
  quiet := Quiet
  follow _ _ := True
  issue mode w effect := match effect with
    | .get | .notifyAll => True
    | .call addr request => (w.node addr).participant.Heeds request ∧ (mode = .inside → w.Waits)
    | _ => mode = .inside → w.Waits
  quiet_refl _ := ⟨rfl, fun _ => rfl, fun _ => rfl⟩
  quiet_trans h h' := ⟨h'.coordinator.trans h.coordinator, fun addr => (h'.nextId addr).trans (h.nextId addr),
    fun addr => (h'.dbRequests addr).trans (h.dbRequests addr)⟩
  follow_refl _ := trivial
  follow_trans _ _ := trivial
  idle_quiet hidle hq _ := Withstands.keep hidle hq

instance (addrs : List Addr) : Calm (contract addrs) where
  coordinator hq := hq.coordinator
  follow _ _ := trivial
  get _ _ := trivial
  notifyAll _ _ := trivial
  quiet_of hc hp := ⟨hc, fun addr => congrArg Participant.nextId (hp addr),
    fun addr => congrArg Participant.dbRequests (hp addr)⟩
  always_of ha hq := Withstands.keep (r := Quiet) (P := Always addrs) ha hq

def known (addrs : List Addr) (P : World → Prop) [hP : Visible P] : (contract addrs).Assertion :=
  ⟨P, fun h hq _ => hP.keep h hq⟩

end Pending

end CloudLabs.Cdb
