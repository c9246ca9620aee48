import CloudLabs.Cdb.Record.Open
import CloudLabs.Cdb.System.Lemmas
import CloudLabs.Interaction.Sequential

namespace CloudLabs.Cdb

open Interaction Coordinator RecordManager
open Program (Yields)

-- A coordinator that starts again on its log goes on with the number that was
-- logged, and draws none.
def World.KeepsNumber (w : World) (last : UInt32) : Prop :=
  ∃ u, w.restart = some u ∧ (∃ pick t, Yields cdb pick .alone initNextId u () t) ∧
    ∀ pick t, Yields cdb pick .alone initNextId u () t →
      t.coordinator.nextId = last ∧ t.coordinator.isRecovered = true

-- The COMMIT of the last update is sent to the participant once more.
def Participant.SeesAgain (p : Participant) : Prop := p.commit (p.nextId - 1) = .ok ([], p)

namespace World

variable {w u t : World} {pick : World → Effect → Choice}

theorem exec_modify {change : Coordinator → Coordinator} {choice : Choice} {answer : Unit × World}
    (h : w.exec (.modify change) choice = some answer) :
    answer.2 = { w with coordinator := change w.coordinator } := by
  cases choice with
  | done => cases h; rfl
  | _ => cases h

theorem exec_get {choice : Choice} {answer : Coordinator × World} (h : w.exec .get choice = some answer) :
    answer = (w.coordinator, w) := by
  cases choice with
  | done => cases h; rfl
  | _ => cases h

-- A zero is taken for an empty log.
theorem initNextId_number (h : Yields cdb pick .alone initNextId u () t) :
    if u.coordinator.rManager.nextId = 0 then t.coordinator.isRecovered = false
    else t.coordinator = { u.coordinator with nextId := u.coordinator.rManager.nextId } := by
  obtain ⟨loaded, hload, h⟩ := Option.bind_eq_some_iff.mp h
  obtain ⟨read, hread, h⟩ := Option.bind_eq_some_iff.mp h
  have hloaded := exec_modify hload
  obtain rfl := exec_get hread
  simp only [hloaded] at h
  change Program.outcome cdb pick (if u.coordinator.rManager.nextId = 0 then _ else _) .alone _ = _ at h
  split
  · rename_i hzero
    rw [if_pos hzero] at h
    obtain ⟨drawn, -, h⟩ := Option.bind_eq_some_iff.mp h
    obtain ⟨last, hmodify, h⟩ := Option.bind_eq_some_iff.mp h
    have hlast := exec_modify hmodify
    cases h
    rw [hlast]
  · rename_i hnumber
    rw [if_neg hnumber] at h
    cases h
    rfl

def drawOne : World → Effect → Choice
  | _, .rand => .draw 1
  | _, _ => .done

-- There is a run, whatever the log says.
theorem initNextId_yields (u : World) : ∃ pick t, Yields cdb pick .alone initNextId u () t := by
  let loaded : World := { u with coordinator := { u.coordinator with nextId := u.coordinator.rManager.nextId } }
  let drawn : World := { loaded with coordinator := { loaded.coordinator with nextId := 1, isRecovered := false } }
  have hload : Yields cdb drawOne .alone (modify fun c => { c with nextId := c.rManager.nextId }) u () loaded := rfl
  have hget : Yields cdb drawOne .alone Coordinator.get loaded loaded.coordinator loaded := rfl
  by_cases hzero : loaded.coordinator.nextId = 0
  · have hrand : Yields cdb drawOne .alone rand loaded 1 loaded := rfl
    have hdraw : Yields cdb drawOne .alone (modify fun c => { c with nextId := 1, isRecovered := false }) loaded ()
        drawn := rfl
    refine ⟨drawOne, drawn, hload.bind (hget.bind ?_)⟩
    rw [if_pos hzero]
    exact hrand.bind hdraw
  · refine ⟨drawOne, loaded, hload.bind (hget.bind ?_)⟩
    rw [if_neg hzero]
    exact .ret ()

theorem keepsNumber_iff {rs : List Record} {r : Record}
    (hfile : w.coordinator.rManager.file = fileOf (rs ++ [r])) : w.KeepsNumber r.nextId ↔ r.nextId ≠ 0 := by
  obtain ⟨v, hrestart, hnumber, hrecovered⟩ : ∃ v, w.restart = some v ∧
      v.coordinator.rManager.nextId = r.nextId ∧ v.coordinator.isRecovered = true := by
    rw [restart, hfile, load_fileOf]
    refine ⟨_, rfl, ?_, rfl⟩
    simp only [Coordinator.start, List.foldl_append, List.foldl_cons, List.foldl_nil, replay]
  constructor
  · rintro ⟨u, hu, ⟨pick, t, hrun⟩, hall⟩ hzero
    cases hrestart.symm.trans hu
    have hend := initNextId_number hrun
    rw [if_pos (hnumber.trans hzero)] at hend
    rw [(hall pick t hrun).2] at hend
    cases hend
  · intro hne
    refine ⟨v, hrestart, initNextId_yields v, fun pick t hrun => ?_⟩
    have hend := initNextId_number hrun
    rw [if_neg (by rwa [hnumber])] at hend
    rw [hend]
    exact ⟨hnumber, hrecovered⟩

end World

namespace Participant

theorem seesAgain_iff (p : Participant) : p.SeesAgain ↔ p.nextId ≠ 0 := by
  unfold SeesAgain
  constructor
  · intro hcommit hzero
    have hahead : p.nextId < p.nextId - 1 := by
      rw [hzero]
      decide
    have hseen : ¬ p.nextId - 1 < p.nextId := by
      rw [hzero]
      decide
    rw [commit, if_neg hseen, if_pos hahead] at hcommit
    cases hcommit
  · intro hne
    have hpos : 0 < p.nextId.toNat := Nat.pos_of_ne_zero fun hzero => hne (UInt32.toNat_inj.mp hzero)
    have hone : (1 : UInt32).toNat = 1 := rfl
    have hle : (1 : UInt32) ≤ p.nextId := UInt32.le_iff_toNat_le.mpr (by omega)
    have hseen : p.nextId - 1 < p.nextId := by
      rw [UInt32.lt_iff_toNat_lt, UInt32.toNat_sub_of_le _ _ hle, hone]
      omega
    rw [commit, if_pos hseen]
    rfl

end Participant

-- The coordinator's log and a participant that has applied the last update: the
-- number survives unless it is zero.
theorem numbers_survive_iff (w : World) (rs : List Record) (r : Record) (p : Participant)
    (hfile : w.coordinator.rManager.file = fileOf (rs ++ [r])) :
    w.KeepsNumber r.nextId ∧ p.SeesAgain ↔ r.nextId ≠ 0 ∧ p.nextId ≠ 0 :=
  and_congr (World.keepsNumber_iff hfile) p.seesAgain_iff

-- A log with one update, and a participant that has committed it.
def lastNumber (nextId : UInt32) : RecordManager where
  file := fileOf [⟨RECORD_COMMIT_DONE, nextId - 1, nextId⟩]
  cmdFile := []
  nextId := nextId
  records := ∅
  cmds := ∅

def World.lastCommitted (nextId : UInt32) : World :=
  World.initial [[0]] (lastNumber nextId) fun _ => ⟨⟨∅, nextId, [], lastNumber nextId⟩, true⟩

theorem numbers_survive_iff_seven :
    (World.lastCommitted 7).KeepsNumber 7 ∧ ((World.lastCommitted 7).node [0]).participant.SeesAgain :=
  (numbers_survive_iff (World.lastCommitted 7) [] ⟨RECORD_COMMIT_DONE, 6, 7⟩ _ rfl).mpr
    ⟨by decide, by decide⟩

set_option maxRecDepth 10000 in
-- The last number of all is given to an update, and it is committed.
theorem wrap_not_survives : ∃ pool : System,
    cdb.Reachable .any (System.boot (World.lastCommitted 4294967295)) pool ∧
      pool.shared.coordinator.rManager.file = fileOf [⟨RECORD_COMMIT_DONE, 4294967295, 0⟩] ∧
      ([0], 4294967295) ∈ pool.shared.applied ∧ ¬ pool.shared.KeepsNumber 0 ∧
      ¬ (pool.shared.node [0]).participant.SeesAgain := by
  obtain ⟨pool, hreach, hpool⟩ := cdb.exists_of_run (T := .any)
    (System.boot (World.lastCommitted 4294967295))
    (System.advance 0 (List.replicate 9 .done) ++ [.serve 1, .arrive (0, .set ⟨0, bytes "k", bytes "v"⟩)] ++
      System.advance 1 (List.replicate 15 .done))
    (fun pool => (pool.shared.coordinator.rManager.file, pool.shared.applied,
      (pool.shared.node [0]).participant.nextId))
    (fileOf [⟨RECORD_COMMIT_DONE, 4294967295, 0⟩], [([0], 4294967295)], 0) (by decide)
    fun pool next move _ _ => Terms.any_permits pool move
  simp only [Prod.mk.injEq] at hpool
  obtain ⟨hfile, happlied, hnext⟩ := hpool
  refine ⟨pool, hreach, hfile, by rw [happlied]; exact List.mem_singleton_self _, fun hkeeps => ?_, fun hsees => ?_⟩
  · have hfile' : pool.shared.coordinator.rManager.file =
        fileOf ([] ++ [(⟨RECORD_COMMIT_DONE, 4294967295, 0⟩ : Record)]) := hfile
    exact (World.keepsNumber_iff hfile').mp hkeeps rfl
  · exact ((pool.shared.node [0]).participant.seesAgain_iff).mp hsees hnext

end CloudLabs.Cdb
