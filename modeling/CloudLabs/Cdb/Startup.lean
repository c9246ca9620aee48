import CloudLabs.Cdb.Coordinator.Footprint
import CloudLabs.Cdb.Ledger
import CloudLabs.Interaction.Contract.Theorems

namespace CloudLabs.Cdb

open Interaction RecordManager

-- The update that an effect logs or decides.
def Effect.resolves : Effect → Option UInt32
  | .log _ id | .call _ (.COMMIT id) | .call _ (.ABORT id) => some id
  | _ => none

-- What has been decided of the update is what a record of that status says.
def World.Conforms (w : World) (status : RecordStatus) (id : UInt32) : Prop :=
  (w.Decided RECORD_COMMIT id → status = RECORD_COMMIT) ∧ (w.Decided RECORD_ABORT id → status ≠ RECORD_COMMIT)

namespace Startup

variable (m : RecordManager)

-- The process has been started on the log `m`, and a run ends where it does; the
-- clients are served from the start. No update gets an id that a record of the log,
-- or one of this run, bears. What recovery() copies without the mutex has not been
-- logged by this run.
def undisturbed : Terms Effect World Choice where
  effect mode w effect _ := match effect with
    | .log status id => status = RECORD_UNRESOLVED → id ∉ m.records ∧ ∀ r ∈ w.logged, r.id ≠ id
    | .copyRecords => mode ≠ .inside → ∀ (id : UInt32) (r : Record), w.coordinator.rManager.records[id]? = some r →
        r ∉ w.logged
    | _ => True
  environment _ _ := True
  crash _ := False
  early := True

-- The update may be resolved as a record of that status says.
def Agrees (w : World) (status : RecordStatus) (id : UInt32) : Prop :=
  w.Conforms status id ∧ ∀ r : Record, m.records[id]? = some r → (r.status = RECORD_COMMIT ↔ status = RECORD_COMMIT)

structure Fair (w : World) : Prop where
  exclusive : ∀ id, ¬ (w.Decided RECORD_COMMIT id ∧ w.Decided RECORD_ABORT id)
  left : ∀ (id : UInt32) (r : Record), m.records[id]? = some r → w.Conforms r.status id
  opened : ∀ (id : UInt32) (r : Record), w.coordinator.rManager.records[id]? = some r →
    r.id = id ∧ Agrees m w r.status id
  origin : ∀ (id : UInt32) (r : Record), w.coordinator.rManager.records[id]? = some r →
    m.records[id]? = some r ∨ r ∈ w.logged
  sent : ∀ message ∈ w.sent, w.Backed message.2
  fresh : ∀ r ∈ w.logged, r.status = RECORD_UNRESOLVED → r.id ∉ m.records

-- Without the mutex, only the updates that the log has left are resolved.
def contract : Contract Effect World where
  always := Fair m
  idle _ := True
  quiet w u := w.logged ⊆ u.logged ∧ ∀ r ∈ u.logged, r ∈ w.logged ∨ r.id ∈ m.records
  follow w u := w.logged ⊆ u.logged
  issue mode _ effect := mode ≠ .inside → ∀ id, effect.resolves = some id → id ∈ m.records
  quiet_refl _ := ⟨List.Subset.refl _, fun _ => .inl⟩
  quiet_trans := fun ⟨hwu, hu⟩ ⟨huv, hv⟩ =>
    ⟨List.Subset.trans hwu huv, fun r hr => (hv r hr).elim (hu r) .inr⟩
  follow_refl _ := List.Subset.refl _
  follow_trans := List.Subset.trans
  idle_quiet := fun _ _ _ => trivial

variable {m} {w u : World} {status : RecordStatus} {id : UInt32}

section Frames

theorem decided_of_logged (hlogged : u.logged = w.logged) : u.Decided = w.Decided := by
  funext status id
  simp only [World.Decided, hlogged]

theorem Decided.grow (h : w.Decided status id) (hgrow : w.logged ⊆ u.logged) : u.Decided status id := by
  obtain ⟨r, hr, hstatus, hid⟩ := h
  exact ⟨r, hgrow hr, hstatus, hid⟩

theorem Backed.grow {request : Request} (h : w.Backed request) (hgrow : w.logged ⊆ u.logged) : u.Backed request := by
  cases request with
  | COMMIT id => exact Decided.grow h hgrow
  | ABORT id => exact Decided.grow h hgrow
  | _ => trivial

-- Nothing is logged, and what is sent rests on what has been logged.
theorem Fair.frame (h : Fair m w) (hmanager : u.coordinator.rManager = w.coordinator.rManager)
    (hlogged : u.logged = w.logged) (hsent : ∀ message ∈ u.sent, message ∈ w.sent ∨ w.Backed message.2) :
    Fair m u := by
  have hdecided := decided_of_logged hlogged
  have hbacked : u.Backed = w.Backed := by
    funext request
    simp only [World.Backed, hdecided]
  obtain ⟨hexclusive, hleft, hopened, horigin, hbefore, hfresh⟩ := h
  refine ⟨?_, ?_, ?_, ?_, ?_, ?_⟩
  · rwa [hdecided]
  · simpa only [World.Conforms, hdecided] using hleft
  · simpa only [Agrees, World.Conforms, hdecided, hmanager] using hopened
  · rwa [hmanager, hlogged]
  · intro message hm
    rw [hbacked]
    exact (hsent message hm).elim (hbefore message) (fun h => h)
  · rwa [hlogged]

-- What the log has left is resolved as the log says.
theorem Agrees.of_left (h : Fair m w) {r : Record} (hleft : m.records[id]? = some r)
    (hstatus : r.status = RECORD_COMMIT ↔ status = RECORD_COMMIT) : Agrees m w status id := by
  have hconforms := h.left id r hleft
  refine ⟨⟨fun hc => hstatus.mp (hconforms.1 hc), fun ha hc => hconforms.2 ha (hstatus.mpr hc)⟩, fun s hs => ?_⟩
  cases hleft.symm.trans hs
  exact hstatus

theorem Agrees.of_eq (h : Agrees m w status id) {status' : RecordStatus}
    (hstatus : status = RECORD_COMMIT ↔ status' = RECORD_COMMIT) : Agrees m w status' id := by
  obtain ⟨⟨hcommit, habort⟩, hleft⟩ := h
  exact ⟨⟨fun hc => hstatus.mp (hcommit hc), fun ha hc => habort ha (hstatus.mpr hc)⟩,
    fun r hr => (hleft r hr).trans hstatus⟩

-- Others may have resolved what the log has left.
theorem Agrees.quiet (h : Agrees m w status id) (hq : (contract m).quiet w u) (hu : Fair m u) :
    Agrees m u status id := by
  by_cases hleft : id ∈ m.records
  · obtain ⟨r, hr⟩ := Option.isSome_iff_exists.mp (Std.ExtTreeMap.mem_iff_isSome_getElem?.mp hleft)
    exact .of_left hu hr (h.2 r hr)
  · have hback : ∀ decision, u.Decided decision id → w.Decided decision id := by
      rintro decision ⟨r, hr, hdecision, hid⟩
      rcases hq.2 r hr with hold | hother
      · exact ⟨r, hold, hdecision, hid⟩
      · rw [hid] at hother
        exact absurd hother hleft
    exact ⟨⟨fun hc => h.1.1 (hback _ hc), fun ha => h.1.2 (hback _ ha)⟩, h.2⟩

end Frames

section Log

-- Logging leaves alone what concerns other updates.
theorem Conforms.log {status' : RecordStatus} {id' : UInt32} (h : w.Conforms status' id')
    (hcommit : id = id' → status = RECORD_COMMIT → status' = RECORD_COMMIT)
    (habort : id = id' → status = RECORD_ABORT → status' ≠ RECORD_COMMIT) :
    (w.log status id).Conforms status' id' := by
  constructor
  · intro hc
    rcases World.log_decided.mp hc with ⟨hstatus, hid⟩ | hc
    · exact hcommit hid hstatus
    · exact h.1 hc
  · intro ha
    rcases World.log_decided.mp ha with ⟨hstatus, hid⟩ | ha
    · exact habort hid hstatus
    · exact h.2 ha

theorem Agrees.log {status' : RecordStatus} {id' : UInt32} (h : Agrees m w status' id')
    (hcommit : id = id' → status = RECORD_COMMIT → status' = RECORD_COMMIT)
    (habort : id = id' → status = RECORD_ABORT → status' ≠ RECORD_COMMIT) :
    Agrees m (w.log status id) status' id' :=
  ⟨Conforms.log h.1 hcommit habort, h.2⟩

-- What is open afterwards: the new record, or what was open of another update.
theorem opened_log {other : UInt32} {r : Record}
    (h : (w.log status id).coordinator.rManager.records[other]? = some r) :
    (id = other ∧ r = ⟨status, id, w.coordinator.nextId⟩ ∧ r.done = false) ∨
      (id ≠ other ∧ w.coordinator.rManager.records[other]? = some r) := by
  have hlook : (w.log status id).coordinator.rManager.records =
      if (⟨status, id, w.coordinator.nextId⟩ : Record).done then w.coordinator.rManager.records.erase id
      else w.coordinator.rManager.records.insert id ⟨status, id, w.coordinator.nextId⟩ := log_records _ _
  rw [hlook] at h
  split at h
  · rw [Std.ExtTreeMap.getElem?_erase] at h
    split at h
    · cases h
    · rename_i hne
      exact .inr ⟨fun heq => hne (by simp [heq]), h⟩
  · rename_i hopen
    rw [Std.ExtTreeMap.getElem?_insert] at h
    split at h
    · rename_i heq
      cases h
      exact .inl ⟨Std.LawfulEqCmp.eq_of_compare heq, rfl, Bool.eq_false_of_not_eq_true hopen⟩
    · rename_i hne
      exact .inr ⟨fun heq => hne (by simp [heq]), h⟩

-- A record that decides is one that agrees with all that was known of its update.
theorem Fair.log (h : Fair m w)
    (hstatus : status ≠ RECORD_COMMIT_DONE → status ≠ RECORD_ABORT_DONE → Agrees m w status id)
    (hfresh : status = RECORD_UNRESOLVED → id ∉ m.records) : Fair m (w.log status id) := by
  have hcommit : status = RECORD_COMMIT → Agrees m w RECORD_COMMIT id := by
    rintro rfl
    exact hstatus (by decide) (by decide)
  have habort : status = RECORD_ABORT → Agrees m w RECORD_ABORT id := by
    rintro rfl
    exact hstatus (by decide) (by decide)
  refine ⟨?_, ?_, ?_, ?_, fun message hm => (h.sent message hm).log, ?_⟩
  · rintro other ⟨hc, ha⟩
    rcases World.log_decided.mp hc with ⟨hnew, rfl⟩ | hc
    · rcases World.log_decided.mp ha with ⟨hnew', -⟩ | ha
      · exact absurd (hnew.symm.trans hnew') (by decide)
      · exact (hcommit hnew).1.2 ha rfl
    · rcases World.log_decided.mp ha with ⟨hnew, rfl⟩ | ha
      · exact absurd ((habort hnew).1.1 hc) (by decide)
      · exact h.exclusive other ⟨hc, ha⟩
  · intro other r hr
    refine Conforms.log (h.left other r hr) ?_ ?_
    · rintro rfl hnew
      exact ((hcommit hnew).2 r hr).mpr rfl
    · rintro rfl hnew hc
      exact absurd (((habort hnew).2 r hr).mp hc) (by decide)
  · intro other r hr
    rcases opened_log hr with ⟨rfl, rfl, hopen⟩ | ⟨hne, hr⟩
    · have hagrees : Agrees m w status id := by
        apply hstatus
        · rintro rfl
          cases hopen
        · rintro rfl
          cases hopen
      refine ⟨rfl, hagrees.log (fun _ hnew => hnew) fun _ hnew hc => ?_⟩
      exact absurd (hnew.symm.trans hc) (by decide)
    · obtain ⟨hid, hagrees⟩ := h.opened other r hr
      exact ⟨hid, hagrees.log (fun heq => absurd heq hne) fun heq => absurd heq hne⟩
  · intro other r hr
    rcases opened_log hr with ⟨-, rfl, -⟩ | ⟨-, hr⟩
    · exact .inr List.mem_cons_self
    · exact (h.origin other r hr).imp_right (List.mem_cons_of_mem _)
  · intro r hr hunresolved
    rcases List.mem_cons.mp hr with rfl | hr
    · exact hfresh hunresolved
    · exact h.fresh r hr hunresolved

end Log

end Startup

end CloudLabs.Cdb
