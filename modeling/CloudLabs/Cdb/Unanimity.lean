import CloudLabs.Cdb.Coordinator.Footprint
import CloudLabs.Cdb.Ledger.Runs
import CloudLabs.Interaction.Known

namespace CloudLabs.Cdb

open Interaction Coordinator

-- How many updates the records begin.
def begun (rs : List Record) : Nat := rs.countP fun r => r.status = RECORD_UNRESOLVED

namespace World

-- No update is committed that a participant has refused to prepare. The updates are
-- told apart by how many have been logged.
structure Unanimity (w : World) : Prop where
  committed : ∀ newer r older, w.logged = newer ++ r :: older → r.status = RECORD_COMMIT → begun older ∉ w.vetoed
  past : ∀ k ∈ w.vetoed, k ≤ w.issued
  opened : ∀ (id : UInt32) r, w.coordinator.rManager.records[id]? = some r → r.status = RECORD_COMMIT → w.issued ∉ w.vetoed

-- Nobody has refused the last update.
def Accepted (w : World) : Prop := w.issued ∉ w.vetoed

-- The last update is not committed yet.
structure Undecided (w : World) : Prop where
  committed : ∀ newer r older, w.logged = newer ++ r :: older → r.status = RECORD_COMMIT → begun older < w.issued
  opened : ∀ (id : UInt32) r, w.coordinator.rManager.records[id]? = some r → r.status ≠ RECORD_COMMIT

variable {w u : World} {status : RecordStatus} {id : UInt32}

theorem issued_eq (w : World) : w.issued = begun w.logged := rfl

theorem Unanimity.frame (h : w.Unanimity) (hlogged : u.logged = w.logged) (hvetoed : u.vetoed = w.vetoed)
    (hrecords : u.coordinator.rManager.records = w.coordinator.rManager.records) : u.Unanimity := by
  obtain ⟨hcommitted, hpast, hopened⟩ := h
  have hissued : u.issued = w.issued := by rw [issued_eq, issued_eq, hlogged]
  refine ⟨?_, ?_, ?_⟩
  · rw [hlogged, hvetoed]
    exact hcommitted
  · rw [hvetoed, hissued]
    exact hpast
  · rw [hrecords, hvetoed, hissued]
    exact hopened

-- What the records hold after one more has been logged.
theorem records_log {other : UInt32} {r : Record} (h : (w.log status id).coordinator.rManager.records[other]? = some r) :
    w.coordinator.rManager.records[other]? = some r ∨ r.status = status := by
  simp only [World.log, RecordManager.log_records] at h
  split at h
  · rw [Std.ExtTreeMap.getElem?_erase] at h
    split at h
    · cases h
    · exact .inl h
  · rw [Std.ExtTreeMap.getElem?_insert] at h
    split at h
    · cases h
      exact .inr rfl
    · exact .inl h

-- A commit in the log is the record that has just been written, or an older one.
theorem logged_log {newer older : List Record} {r : Record} (h : (w.log status id).logged = newer ++ r :: older) :
    r.status = status ∧ older = w.logged ∨ ∃ rest, w.logged = rest ++ r :: older := by
  cases newer with
  | nil =>
      cases h
      exact .inl ⟨rfl, rfl⟩
  | cons first rest => exact .inr ⟨rest, (List.cons.inj h).2⟩

theorem Unanimity.log (h : w.Unanimity) (hstatus : status ≠ RECORD_UNRESOLVED)
    (hcommit : status = RECORD_COMMIT → w.Accepted) : (w.log status id).Unanimity := by
  have hissued : (w.log status id).issued = w.issued := issued_log hstatus
  refine ⟨fun newer r older hlogged hr => ?_, ?_, fun other r hopen hr => ?_⟩
  · rcases logged_log hlogged with ⟨hnew, rfl⟩ | ⟨rest, hold⟩
    · exact hcommit (hnew.symm.trans hr)
    · exact h.committed rest r older hold hr
  · rw [hissued]
    exact h.past
  · rw [hissued]
    rcases records_log hopen with hold | hnew
    · exact h.opened other r hold hr
    · exact hcommit (hnew.symm.trans hr)

-- A new update, which is the only one that is open.
theorem Unanimity.begin {last : UInt32} (h : w.Unanimity) (hsound : (w.log RECORD_UNRESOLVED id).Sound last) :
    (w.log RECORD_UNRESOLVED id).Unanimity ∧ (w.log RECORD_UNRESOLVED id).Accepted ∧
      (w.log RECORD_UNRESOLVED id).Undecided := by
  have hissued : (w.log RECORD_UNRESOLVED id).issued = w.issued + 1 := issued_log_unresolved
  have haccepted : (w.log RECORD_UNRESOLVED id).Accepted := by
    intro hmem
    have hle := h.past _ hmem
    omega
  have hnew : (w.log RECORD_UNRESOLVED id).coordinator.rManager.records[id]?.map Record.status =
      some RECORD_UNRESOLVED := by
    have hopen : (⟨RECORD_UNRESOLVED, id, w.coordinator.nextId⟩ : Record).done = false :=
      Record.done_unresolved id w.coordinator.nextId
    simp [World.log, hopen]
  have hopens := hsound.oneOpen.opens_of_getElem? hnew
  have hundecided : ∀ (other : UInt32) r, (w.log RECORD_UNRESOLVED id).coordinator.rManager.records[other]? = some r →
      r.status ≠ RECORD_COMMIT := by
    intro other r hopen hr
    have hother := hsound.oneOpen.opens_of_getElem? (show Option.map Record.status _ = some RECORD_COMMIT by
      rw [hopen, Option.map_some, hr])
    exact absurd (hopens.unique hother).2 (by decide)
  refine ⟨⟨fun newer r older hlogged hr => ?_, fun k hk => ?_, fun other r hopen hr => absurd hr (hundecided other r hopen)⟩,
    haccepted, ⟨fun newer r older hlogged hr => ?_, hundecided⟩⟩
  · rcases logged_log hlogged with ⟨hstatus, -⟩ | ⟨rest, hold⟩
    · exact absurd (hr.symm.trans hstatus) (by decide)
    · exact h.committed rest r older hold hr
  · have hle := h.past k hk
    omega
  · rcases logged_log hlogged with ⟨hstatus, -⟩ | ⟨rest, hold⟩
    · exact absurd (hr.symm.trans hstatus) (by decide)
    · have hcount : begun older ≤ w.issued := by
        rw [issued_eq, hold, begun, begun, List.countP_append, List.countP_cons]
        omega
      omega

-- The last update is refused before it is committed.
theorem Unanimity.veto (h : w.Unanimity) (hundecided : w.Undecided) (hlogged : u.logged = w.logged)
    (hrecords : u.coordinator.rManager.records = w.coordinator.rManager.records)
    (hvetoed : u.vetoed = w.issued :: w.vetoed) : u.Unanimity := by
  have hissued : u.issued = w.issued := by rw [issued_eq, issued_eq, hlogged]
  refine ⟨fun newer r older hsplit hr => ?_, fun k hk => ?_, fun other r hopen hr => ?_⟩
  · rw [hlogged] at hsplit
    rw [hvetoed, List.mem_cons, not_or]
    have hlt := hundecided.committed newer r older hsplit hr
    exact ⟨by omega, h.committed newer r older hsplit hr⟩
  · rw [hvetoed] at hk
    rw [hissued]
    rcases List.mem_cons.mp hk with rfl | hold
    · exact Nat.le_refl _
    · exact h.past k hold
  · rw [hrecords] at hopen
    exact absurd hr (hundecided.opened other r hopen)

end World

open World

-- Neither an update nor a commit is logged, and nobody is asked to prepare one.
def Effect.Harmless : Effect → Prop
  | .log status _ => status ≠ RECORD_UNRESOLVED ∧ status ≠ RECORD_COMMIT
  | .call _ request => request.prepares = none
  | .modify change => ∀ c, (change c).rManager = c.rManager
  | _ => True

def unanimity : Contract Effect World where
  always := World.Unanimity
  idle _ := True
  quiet s t := t.logged = s.logged ∧ t.vetoed = s.vetoed ∧
    t.coordinator.rManager = s.coordinator.rManager
  follow _ _ := True
  issue _ _ _ := True
  quiet_refl _ := ⟨rfl, rfl, rfl⟩
  quiet_trans := fun ⟨h1, h2, h3⟩ ⟨k1, k2, k3⟩ => ⟨k1.trans h1, k2.trans h2, k3.trans h3⟩
  follow_refl _ := trivial
  follow_trans _ _ := trivial
  idle_quiet _ _ _ := trivial

-- In all runs of the coordinator the log is sound.
def voting : Terms Effect World Choice := drawsOnce.knowing cdb fun w => ∃ last, w.Sound last

structure World.SameVotes (w u : World) : Prop where
  issued : u.issued = w.issued
  vetoed : u.vetoed = w.vetoed

-- Only the number of the last update and the refusals matter.
abbrev Counted (P : World → Prop) : Prop := Withstands World.SameVotes P

instance : Counted Accepted := ⟨fun h hsame => by rwa [Accepted, hsame.issued, hsame.vetoed]⟩

end CloudLabs.Cdb
