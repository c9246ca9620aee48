import CloudLabs.Cdb.Ledger.Runs
import CloudLabs.Cdb.Resp
import CloudLabs.Cdb.Sessions.Reads
import CloudLabs.Interaction.Progress

namespace CloudLabs.Cdb

open Interaction Coordinator World

instance : Nonempty Choice := ⟨.done⟩

namespace Ledger

-- A call can always be lost; only a failed assertion ends the process.
theorem enables : ledger.Enables cdb Terms.any := by
  intro mode w effect _ hissue
  cases effect with
  | call addr request => exact ⟨.lost, _, trivial, rfl⟩
  | rand =>
      have hdraw : (if RAND_MAX ≤ RAND_MAX then some (RAND_MAX, w) else none) = some (RAND_MAX, w) :=
        if_pos (UInt32.le_refl _)
      exact ⟨.draw RAND_MAX, (RAND_MAX, w), trivial, hdraw⟩
  | assertFalse => exact absurd rfl hissue
  | _ => exact ⟨.done, _, trivial, rfl⟩

end Ledger

namespace Reads

variable {reads : Reads} {w : World}

-- The coordinator does not die.
def uncrashed : Terms Effect World Choice := { drawsOnce with crash := fun _ => False }

theorem program_keeps (reads : Reads) (connection : Nat) :
    Triple cdb drawsOnce ledger .worker .outside (fun _ => True) (reads.program connection) fun _ _ => True := by
  rw [program, session_eq]
  have hdispatch : ∀ number cmds, Triple cdb drawsOnce ledger .worker .outside (fun _ => True)
      (dispatch connection number cmds) fun _ _ => True := by
    intro number cmds
    induction cmds generalizing number with
    | nil => exact Triple.ret (.const _) fun _ _ h => h
    | cons cmd cmds ih => exact Triple.bind (Ledger.handler_keeps _) fun _ => ih (number + 1)
  exact hdispatch 0 _

theorem honours : Honours service drawsOnce ledger where
  main passes s ha hidle := Safe.congr (show cdb.exec = service.exec from rfl) (Ledger.honours.main passes s ha hidle)
  handler request := request.elim
  environment := Ledger.honours.environment
  effect := False.elim
  restart s t ha hT hrestart := by
    obtain ⟨hat, hbalanced, halone, -⟩ := Ledger.honours.restart s t ha hT hrestart
    exact ⟨hat, hbalanced, Safe.congr (show cdb.exec = service.exec from rfl) halone, False.elim⟩

theorem uncrashed_permits (pool : System) (move : Move Choice Empty) (h : uncrashed.permits pool move) :
    drawsOnce.permits pool move := by
  cases move with
  | crash => exact h.elim
  | _ => exact h

-- A connection whose thread has ended.
theorem ended_of_finished {pool : System} {owner : Client → Nat} {word : Nat → List Client}
    (hleaves : pool.Leaves Effect.answers (fun w => w.replies.map Prod.fst) owner word (reads.length + 1))
    (hfinished : pool.Finished) {connection : Nat} (hlt : connection < reads.length) : Ended pool connection := by
  obtain ⟨holder, threads, hphase, hcount, -⟩ := hleaves
  have hthread := List.getElem?_eq_getElem (l := threads) (i := connection + 1) (by omega)
  refine ⟨holder, threads, hphase, ?_⟩
  rw [hthread]
  have hmem : threads[connection + 1] ∈ pool.programs := by
    simp only [Pool.programs, hphase, List.getElem_mem]
  rw [hfinished _ hmem]

end Reads

end CloudLabs.Cdb
