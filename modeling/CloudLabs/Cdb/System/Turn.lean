import CloudLabs.Cdb.System.Lemmas
import CloudLabs.Interaction.Contract

namespace CloudLabs.Cdb.World

open Interaction

-- What holds of every member.
def Everyone (w : World) (P : Participant → Prop) : Prop :=
  ∀ addr ∈ w.coordinator.participants, P (w.node addr).participant

-- A loop over participants_: those on the list are still to be called, the
-- other members have been.
structure Turn (w : World) (rest : List Addr) (left done : Participant → Prop) : Prop where
  nodup : rest.Nodup
  member : ∀ addr ∈ rest, addr ∈ w.coordinator.participants
  left : ∀ addr ∈ rest, left (w.node addr).participant
  done : ∀ addr ∈ w.coordinator.participants, addr ∉ rest → done (w.node addr).participant

-- The same when a call has failed and its participant is about to be dropped.
structure Dropping (w : World) (dead : Addr) (rest : List Addr) (left done : Participant → Prop) :
    Prop where
  nodup : rest.Nodup
  fresh : dead ∉ rest
  member : ∀ addr ∈ rest, addr ∈ w.coordinator.participants
  left : ∀ addr ∈ rest, left (w.node addr).participant
  done : ∀ addr ∈ w.coordinator.participants, addr ≠ dead → addr ∉ rest → done (w.node addr).participant

-- What calling one participant leaves alone.
structure Touches (w u : World) (addr : Addr) : Prop where
  coordinator : u.coordinator = w.coordinator
  node : ∀ other, other ≠ addr → u.node other = w.node other

variable {w u : World} {addr : Addr} {rest : List Addr} {left done : Participant → Prop}

theorem call_touches {request : Request} {choice : Choice} {reply : Option Reply}
    (h : w.call addr request choice = some (reply, u)) : w.Touches u addr :=
  ⟨(call_frame h).1, (call_participant h).1⟩

theorem Everyone.mono (h : w.Everyone left) (himp : ∀ p, left p → done p) : w.Everyone done :=
  fun addr haddr => himp _ (h addr haddr)

theorem Turn.start (h : w.Everyone left) :
    w.Turn w.coordinator.participants.toList left done where
  nodup := Std.ExtTreeSet.distinct_toList.imp fun hne heq => hne (by simp [heq])
  member := fun addr haddr => Std.ExtTreeSet.mem_toList.mp haddr
  left := fun addr haddr => h addr (Std.ExtTreeSet.mem_toList.mp haddr)
  done := fun addr haddr hnot => absurd (Std.ExtTreeSet.mem_toList.mpr haddr) hnot

-- The member whose turn it is has been called.
theorem Turn.next (h : w.Turn (addr :: rest) left done) (hu : w.Touches u addr)
    (hdone : done (u.node addr).participant) : u.Turn rest left done := by
  obtain ⟨hfresh, hnodup⟩ := List.nodup_cons.mp h.nodup
  have hother : ∀ a ∈ rest, a ≠ addr := fun a ha heq => hfresh (heq ▸ ha)
  refine ⟨hnodup, fun a ha => ?_, fun a ha => ?_, fun a ha hn => ?_⟩
  · rw [hu.coordinator]
    exact h.member a (by simp [ha])
  · rw [hu.node a (hother a ha)]
    exact h.left a (by simp [ha])
  · rw [hu.coordinator] at ha
    by_cases heq : a = addr
    · rwa [heq]
    · rw [hu.node a heq]
      exact h.done a ha (by simp [heq, hn])

theorem Turn.fail (h : w.Turn (addr :: rest) left done) (hu : w.Touches u addr) :
    u.Dropping addr rest left done := by
  obtain ⟨hfresh, hnodup⟩ := List.nodup_cons.mp h.nodup
  have hother : ∀ a ∈ rest, a ≠ addr := fun a ha heq => hfresh (heq ▸ ha)
  refine ⟨hnodup, hfresh, fun a ha => ?_, fun a ha => ?_, fun a ha hne hn => ?_⟩
  · rw [hu.coordinator]
    exact h.member a (by simp [ha])
  · rw [hu.node a (hother a ha)]
    exact h.left a (by simp [ha])
  · rw [hu.coordinator] at ha
    rw [hu.node a hne]
    exact h.done a ha (by simp [hne, hn])

theorem Dropping.erase (h : w.Dropping addr rest left done) :
    ({ w with coordinator := { w.coordinator with
        participants := w.coordinator.participants.erase addr } } : World).Turn rest left done := by
  refine ⟨h.nodup, fun a ha => ?_, h.left, fun a ha hn => ?_⟩
  · refine Std.ExtTreeSet.mem_erase.mpr ⟨fun heq => ?_, h.member a ha⟩
    exact h.fresh (Std.LawfulEqCmp.eq_of_compare heq ▸ ha)
  · obtain ⟨hne, hmember⟩ := Std.ExtTreeSet.mem_erase.mp ha
    exact h.done a hmember (fun heq => hne (by simp [heq])) hn

-- The loop is over.
theorem Turn.finish (h : w.Turn [] left done) : w.Everyone done :=
  fun addr haddr => h.done addr haddr (by simp)

-- Wherever the loop has got to.
theorem Turn.either (h : w.Turn rest left done) : w.Everyone fun p => left p ∨ done p := by
  intro addr haddr
  by_cases hrest : addr ∈ rest
  · exact .inl (h.left addr hrest)
  · exact .inr (h.done addr haddr hrest)

-- A change that leaves the coordinator alone.
class Remote (r : World → World → Prop) : Prop where
  coordinator : ∀ {w u}, r w u → u.coordinator = w.coordinator

-- What is known of a member still holds after such a change.
class Lasts (r : World → World → Prop) (P : Participant → Prop) : Prop where
  member : ∀ {w u}, r w u → ∀ addr ∈ w.coordinator.participants, P (w.node addr).participant →
    P (u.node addr).participant

section Withstands

variable {r : World → World → Prop} [hr : Remote r]

instance {next : UInt32} : Withstands r fun w => w.coordinator.nextId = next :=
  ⟨fun h hq => by rwa [hr.coordinator hq]⟩

instance {P : Participant → Prop} [hP : Lasts r P] : Withstands r fun w => w.Everyone P :=
  ⟨fun h hq a ha => by
    rw [hr.coordinator hq] at ha
    exact hP.member hq a ha (h a ha)⟩

instance [hleft : Lasts r left] [hdone : Lasts r done] : Withstands r fun w => w.Turn rest left done :=
  ⟨fun h hq => by
    refine ⟨h.nodup, fun a ha => ?_, fun a ha => ?_, fun a ha hn => ?_⟩
    · rw [hr.coordinator hq]
      exact h.member a ha
    · exact hleft.member hq a (h.member a ha) (h.left a ha)
    · rw [hr.coordinator hq] at ha
      exact hdone.member hq a ha (h.done a ha hn)⟩

instance [hleft : Lasts r left] [hdone : Lasts r done] : Withstands r fun w => w.Dropping addr rest left done :=
  ⟨fun h hq => by
    refine ⟨h.nodup, h.fresh, fun a ha => ?_, fun a ha => ?_, fun a ha hne hn => ?_⟩
    · rw [hr.coordinator hq]
      exact h.member a ha
    · exact hleft.member hq a (h.member a ha) (h.left a ha)
    · rw [hr.coordinator hq] at ha
      exact hdone.member hq a ha (h.done a ha hne hn)⟩

end Withstands

end CloudLabs.Cdb.World
