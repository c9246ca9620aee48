import CloudLabs.Cdb.Record.Open
import CloudLabs.Cdb.System.Lemmas

namespace CloudLabs.Cdb

open RecordManager

namespace World

-- A record of that status has been logged for the update.
def Decided (w : World) (status : RecordStatus) (id : UInt32) : Prop :=
  ∃ r ∈ w.logged, r.status = status ∧ r.id = id

-- What a decision that is sent rests on.
def Backed (w : World) : Request → Prop
  | .COMMIT id => w.Decided RECORD_COMMIT id
  | .ABORT id => w.Decided RECORD_ABORT id
  | _ => True

-- The decisions agree with each other, wherever they are found.
structure Ledger (w : World) : Prop where
  exclusive : ∀ id, ¬ (w.Decided RECORD_COMMIT id ∧ w.Decided RECORD_ABORT id)
  opened : ∀ id status, w.coordinator.rManager.Opens id status →
    (w.Decided RECORD_COMMIT id → status = RECORD_COMMIT) ∧
      (w.Decided RECORD_ABORT id → status = RECORD_ABORT)
  sent : ∀ message ∈ w.sent, w.Backed message.2
  inFlight : ∀ message ∈ w.inFlight, w.Backed message.2
  applied : ∀ entry ∈ w.applied, w.Decided RECORD_COMMIT entry.2
  refused : ∀ id ∈ w.refused,
    w.Decided RECORD_ABORT id ∨ w.coordinator.rManager.Opens id RECORD_UNRESOLVED

-- The updates that have been logged are numbered from `base` on. The one that
-- was open when the coordinator was started comes right before.
def Numbered (w : World) (base : UInt32) : Prop :=
  ∀ r ∈ w.logged, ∃ k ≤ w.issued, r.id + 1 = base + UInt32.ofNat k

-- The coordinator's log and the history, at any time. As long as no id comes
-- back there are no conflicting decisions.
structure Sound (w : World) (last : UInt32) : Prop where
  recoverable : w.coordinator.rManager.Recoverable last
  oneOpen : w.coordinator.rManager.OneOpen last
  logged : w.coordinator.rManager.file = [] → w.logged = []
  ledger : w.issued < 2 ^ 32 → w.Ledger ∧
    ∃ base, (w.coordinator.rManager.file ≠ [] → last = base + UInt32.ofNat w.issued) ∧ w.Numbered base

section Log

variable {w : World} {status status' : RecordStatus} {id id' : UInt32}

theorem log_decided : (w.log status id).Decided status' id' ↔
    status = status' ∧ id = id' ∨ w.Decided status' id' := by
  simp only [Decided, World.log, List.mem_cons, exists_eq_or_imp]

theorem Decided.log (h : w.Decided status' id') : (w.log status id).Decided status' id' :=
  log_decided.mpr (.inr h)

theorem Backed.log {request : Request} (h : w.Backed request) : (w.log status id).Backed request := by
  cases request with
  | COMMIT id => exact Decided.log h
  | ABORT id => exact Decided.log h
  | _ => trivial

theorem Numbered.log {base : UInt32} (h : w.Numbered base)
    (hid : id + 1 = base + UInt32.ofNat (w.log status id).issued) : (w.log status id).Numbered base := by
  intro r hr
  rcases List.mem_cons.mp hr with rfl | hr
  · exact ⟨_, Nat.le_refl _, hid⟩
  · obtain ⟨k, hk, hnext⟩ := h r hr
    exact ⟨k, Nat.le_trans hk issued_le_log, hnext⟩

end Log

namespace Sound

variable {w : World} {last id : UInt32} {status : RecordStatus}

theorem file_ne_nil (h : w.Sound last) (hopen : w.coordinator.rManager.Opens id status) :
    w.coordinator.rManager.file ≠ [] :=
  fun hempty => hopen.ne_empty (h.recoverable.of_empty hempty).2

theorem last_eq (h : w.Sound last) (hopen : w.coordinator.rManager.Opens id status) : last = id + 1 :=
  (h.oneOpen.of_opens hopen).1.symm

-- A new update gets an id that no record has borne.
theorem fresh (h : w.Sound last) (hid : w.coordinator.rManager.file ≠ [] → last = id)
    (hbound : w.issued + 1 < 2 ^ 32) : ∀ r ∈ w.logged, r.id ≠ id := by
  intro r hr hrid
  have hfile : w.coordinator.rManager.file ≠ [] := fun hempty => by
    rw [h.logged hempty] at hr
    cases hr
  obtain ⟨-, base, hlast, hnum⟩ := h.ledger (by omega)
  obtain ⟨k, hk, hnext⟩ := hnum r hr
  rw [hrid, ← hid hfile, hlast hfile, UInt32.add_assoc] at hnext
  have hnat := congrArg UInt32.toNat ((UInt32.add_right_inj base).mp hnext)
  have hsize : UInt32.size = 2 ^ 32 := rfl
  have hone : UInt32.toNat 1 = 1 := rfl
  rw [UInt32.toNat_add, UInt32.toNat_ofNat_of_lt' (by omega), UInt32.toNat_ofNat_of_lt' (by omega),
    hone] at hnat
  omega

-- A handler logs the id that it has just drawn.
theorem logUnresolved (h : w.Sound last) (hrecords : w.coordinator.rManager.records = ∅)
    (hnext : w.coordinator.nextId = id + 1)
    (hid : w.coordinator.rManager.file ≠ [] → last = id) :
    (w.log RECORD_UNRESOLVED id).Sound (id + 1) ∧
      (w.log RECORD_UNRESOLVED id).coordinator.rManager.Opens id RECORD_UNRESOLVED ∧
      ((w.log RECORD_UNRESOLVED id).issued < 2 ^ 32 → id ∉ w.refused) := by
  have hopens : (w.log RECORD_UNRESOLVED id).coordinator.rManager.Opens id RECORD_UNRESOLVED :=
    log_opens hrecords (Record.done_unresolved id w.coordinator.nextId)
  have hsame : ∀ decision, decision ≠ RECORD_UNRESOLVED → ∀ other,
      ((w.log RECORD_UNRESOLVED id).Decided decision other ↔ w.Decided decision other) :=
    fun decision hne other => by simp [log_decided, Ne.symm hne]
  have hcommit := hsame RECORD_COMMIT (by decide)
  have habort := hsame RECORD_ABORT (by decide)
  have hclosed : ∀ other ∈ w.refused, w.issued < 2 ^ 32 → w.Decided RECORD_ABORT other := by
    intro other hother hbound
    refine ((h.ledger hbound).1.refused other hother).resolve_right fun hopen => ?_
    exact hopen.ne_empty hrecords
  refine ⟨⟨hnext ▸ h.recoverable.log _, .inr ⟨id, _, hopens, rfl, .inl rfl⟩,
    fun hempty => absurd hempty (log_file_ne_nil _ _), fun hbound => ?_⟩, hopens, fun hbound => ?_⟩
  · rw [issued_log_unresolved] at hbound
    have hfresh := h.fresh hid hbound
    obtain ⟨hledger, base, hlast, hnum⟩ := h.ledger (by omega)
    refine ⟨⟨fun other => ?_, fun other status hopen => ?_, fun message hm => (hledger.sent message hm).log,
      fun message hm => (hledger.inFlight message hm).log, fun entry he => (hledger.applied entry he).log,
      fun other hother => .inl (hclosed other hother (by omega)).log⟩, ?_⟩
    · rw [hcommit, habort]
      exact hledger.exclusive other
    · -- Only the new update is open, and nothing has been decided about it.
      obtain ⟨rfl, rfl⟩ := hopens.unique hopen
      rw [hcommit, habort]
      constructor
      · rintro ⟨r, hr, -, hrid⟩
        exact absurd hrid (hfresh r hr)
      · rintro ⟨r, hr, -, hrid⟩
        exact absurd hrid (hfresh r hr)
    · by_cases hfile : w.coordinator.rManager.file = []
      · -- The first record of the log: the numbers begin with this id.
        have hnone := h.logged hfile
        have hone : (w.log RECORD_UNRESOLVED id).issued = 1 := by
          rw [issued_log_unresolved]
          simp [issued, hnone]
        have hstart : w.Numbered id := by
          intro r hr
          rw [hnone] at hr
          cases hr
        exact ⟨id, fun _ => by rw [hone]; rfl, hstart.log (by rw [hone]; rfl)⟩
      · have hstep : id + 1 = base + UInt32.ofNat (w.log RECORD_UNRESOLVED id).issued := by
          rw [issued_log_unresolved, UInt32.ofNat_add, ← UInt32.add_assoc, ← hlast hfile, hid hfile]
          rfl
        exact ⟨base, fun _ => hstep, hnum.log hstep⟩
  · rw [issued_log_unresolved] at hbound
    intro hrefused
    obtain ⟨r, hr, -, hrid⟩ := hclosed id hrefused (by omega)
    exact h.fresh hid hbound r hr hrid

-- The number of the open update, when it is logged once more.
theorem numbered_again (h : w.Sound last) (hopen : w.coordinator.rManager.Opens id status)
    {again : RecordStatus} (hagain : again ≠ RECORD_UNRESOLVED) (hbound : w.issued < 2 ^ 32) :
    ∃ base, ((w.log again id).coordinator.rManager.file ≠ [] →
      id + 1 = base + UInt32.ofNat (w.log again id).issued) ∧ (w.log again id).Numbered base := by
  obtain ⟨-, base, hlast, hnum⟩ := h.ledger hbound
  have hstep : id + 1 = base + UInt32.ofNat (w.log again id).issued := by
    rw [issued_log hagain, ← hlast (h.file_ne_nil hopen), h.last_eq hopen]
  exact ⟨base, fun _ => hstep, hnum.log hstep⟩

-- The open update is decided, or the decision is logged again.
theorem logDecision (h : w.Sound last) (hopen : w.coordinator.rManager.Opens id status)
    (hnext : w.coordinator.nextId = id + 1) {decision : RecordStatus}
    (hdecision : decision = RECORD_COMMIT ∨ decision = RECORD_ABORT)
    (hstatus : status = RECORD_UNRESOLVED ∨ status = decision)
    (hrefused : w.issued < 2 ^ 32 → status = RECORD_UNRESOLVED → decision = RECORD_COMMIT →
      id ∉ w.refused) :
    (w.log decision id).Sound (id + 1) ∧ (w.log decision id).coordinator.rManager.Opens id decision := by
  have hdone : (⟨decision, id, w.coordinator.nextId⟩ : Record).done = false := by
    rcases hdecision with rfl | rfl <;> rfl
  have hopens : (w.log decision id).coordinator.rManager.Opens id decision := hopen.log rfl hdone
  have hne : decision ≠ RECORD_UNRESOLVED := by
    rcases hdecision with rfl | rfl <;> decide
  refine ⟨⟨hnext ▸ h.recoverable.log _, .inr ⟨id, _, hopens, rfl, .inr hdecision⟩,
    fun hempty => absurd hempty (log_file_ne_nil _ _), fun hbound => ?_⟩, hopens⟩
  rw [issued_log hne] at hbound
  obtain ⟨hledger, -⟩ := h.ledger hbound
  -- The other decision has not been taken.
  have hconflict : ∀ other, other = RECORD_COMMIT ∨ other = RECORD_ABORT → other ≠ decision →
      ¬ w.Decided other id := by
    intro other hother hne' hdecided
    have hother' : other ≠ RECORD_UNRESOLVED := by
      rcases hother with rfl | rfl <;> decide
    have hopened : status = other := by
      rcases hother with rfl | rfl
      · exact (hledger.opened id status hopen).1 hdecided
      · exact (hledger.opened id status hopen).2 hdecided
    subst hopened
    exact hstatus.elim hother' hne'
  refine ⟨⟨fun other => ?_, fun other status' hopen' => ?_, fun message hm => (hledger.sent message hm).log,
    fun message hm => (hledger.inFlight message hm).log, fun entry he => (hledger.applied entry he).log,
    fun other hother => ?_⟩, h.numbered_again hopen hne hbound⟩
  · have hold := hledger.exclusive other
    rw [log_decided, log_decided]
    rintro ⟨hc | hc, ha | ha⟩
    · exact absurd (hc.1.symm.trans ha.1) (by decide)
    · obtain ⟨rfl, rfl⟩ := hc
      exact hconflict RECORD_ABORT (.inr rfl) (by decide) ha
    · obtain ⟨rfl, rfl⟩ := ha
      exact hconflict RECORD_COMMIT (.inl rfl) (by decide) hc
    · exact hold ⟨hc, ha⟩
  · obtain ⟨rfl, rfl⟩ := hopens.unique hopen'
    rw [log_decided, log_decided]
    refine ⟨fun hc => hc.elim And.left fun hc => ?_, fun ha => ha.elim And.left fun ha => ?_⟩
    · exact Classical.byContradiction fun hne => hconflict RECORD_COMMIT (.inl rfl) (Ne.symm hne) hc
    · exact Classical.byContradiction fun hne => hconflict RECORD_ABORT (.inr rfl) (Ne.symm hne) ha
  · rcases hledger.refused other hother with ha | hunresolved
    · exact .inl ha.log
    · obtain ⟨rfl, rfl⟩ := hopen.unique hunresolved
      rcases hdecision with rfl | rfl
      · exact absurd hother (hrefused hbound rfl rfl)
      · exact .inl (log_decided.mpr (.inl ⟨rfl, rfl⟩))

theorem logDone (h : w.Sound last) (hopen : w.coordinator.rManager.Opens id status)
    (hnext : w.coordinator.nextId = id + 1) (hstatus : status ≠ RECORD_UNRESOLVED)
    {done : RecordStatus} (hdone : done = RECORD_COMMIT_DONE ∨ done = RECORD_ABORT_DONE) :
    (w.log done id).Sound (id + 1) ∧ (w.log done id).coordinator.rManager.records = ∅ := by
  have hne : done ≠ RECORD_UNRESOLVED := by
    rcases hdone with rfl | rfl <;> decide
  have hrecords : (w.log done id).coordinator.rManager.records = ∅ :=
    hopen.log_done rfl (by rcases hdone with rfl | rfl <;> rfl)
  have hsame : ∀ decision, decision = RECORD_COMMIT ∨ decision = RECORD_ABORT → ∀ other,
      ((w.log done id).Decided decision other ↔ w.Decided decision other) := by
    intro decision hdecision other
    have hne' : done ≠ decision := by
      rcases hdone with rfl | rfl <;> rcases hdecision with rfl | rfl <;> decide
    simp [log_decided, hne']
  refine ⟨⟨hnext ▸ h.recoverable.log _, .inl hrecords,
    fun hempty => absurd hempty (log_file_ne_nil _ _), fun hbound => ?_⟩, hrecords⟩
  rw [issued_log hne] at hbound
  obtain ⟨hledger, -⟩ := h.ledger hbound
  refine ⟨⟨fun other => ?_, fun other status' hopen' => absurd hrecords hopen'.ne_empty,
    fun message hm => (hledger.sent message hm).log, fun message hm => (hledger.inFlight message hm).log,
    fun entry he => (hledger.applied entry he).log, fun other hother => ?_⟩,
    h.numbered_again hopen hne hbound⟩
  · rw [hsame RECORD_COMMIT (.inl rfl), hsame RECORD_ABORT (.inr rfl)]
    exact hledger.exclusive other
  · rcases hledger.refused other hother with habort | hunresolved
    · exact .inl habort.log
    · exact absurd (hopen.unique hunresolved).2 hstatus

end Sound

end World

end CloudLabs.Cdb
