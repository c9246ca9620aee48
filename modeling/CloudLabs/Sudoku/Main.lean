import CloudLabs.Sudoku.Least
import CloudLabs.Sudoku.ThreadPool.Progress
import Mathlib.Algebra.Group.Action.Defs

namespace CloudLabs.Sudoku

open Interaction

namespace Process

variable {Filename Job Result : Type} {directory : Filename → Option (List Job)}
  {solve : Job → Result} {jobs : List Job} {process last : Process Filename Job Result}

-- What every step keeps.
structure Scheduled (directory : Filename → Option (List Job)) (solve : Job → Result) (jobs : List Job)
    (process : Process Filename Job Result) : Prop where
  synced : Synced directory process
  numbered : Numbered solve jobs process
  inOrder : InOrder directory solve jobs process

theorem scheduled_keeps :
    Transition.Keeps (step directory solve) (Scheduled directory solve jobs) := by
  intro process move next h hstep
  have hstep := stepTo_of_step hstep
  have hsynced := h.synced.step hstep
  exact ⟨hsynced, h.numbered.step h.inOrder hstep, h.inOrder.step h.numbered hsynced hstep⟩

theorem scheduled_start {size : Nat} {filenames : List Filename} (hsize : 0 < size)
    (hopens : ∀ filename ∈ filenames, (directory filename).isSome) :
    Scheduled directory solve (linesOf directory filenames) (start size filenames) := by
  have houtstanding : outstanding (start size filenames : Process Filename Job Result) = [] := by
    simp [outstanding, start, ThreadPool.create, Worker.task?]
  refine ⟨⟨hopens, by simp [start], ?_, rfl, fun hmem => ?_, fun htasks => absurd rfl htasks, ?_⟩,
    ⟨?_, ?_, fun id => ?_⟩, ⟨rfl, ?_, Nat.le_refl 0, Nat.zero_le _, rfl, rfl⟩⟩
  · simp [start, ThreadPool.create]
    omega
  · cases List.eq_of_mem_replicate hmem
  · intro hjoining
    cases hjoining
  · rw [houtstanding]
    exact .nil
  · rw [houtstanding]
    intro task htask
    cases htask
  · simp [start]
  · intro id hid
    cases hid

theorem weight_start (size : Nat) (filenames : List Filename) :
    weight directory (start size filenames : Process Filename Job Result) =
      6 * (linesOf directory filenames).length + 2 * filenames.length + 3 * size + 5 := by
  simp only [weight, start, ThreadPool.create, ThreadPool.weight, unread, Control.weight, Control.unread,
    List.map_replicate, Worker.weight, List.sum_replicate, List.length_replicate, List.length_nil]
  rw [smul_eq_mul]
  omega

-- Once the main thread has finished, every line was printed and every task run.
theorem Scheduled.finished (h : Scheduled directory solve jobs process)
    (hcontrol : process.control = .finished) :
    process.output = jobs.map solve ∧ process.ran.Perm (List.range jobs.length) := by
  have hawaiting := h.inOrder.awaiting
  have hremaining := h.inOrder.remaining
  have hle := h.inOrder.le_added
  have hbound := h.inOrder.added_le
  unfold awaited at hawaiting
  unfold unread at hremaining
  rw [hcontrol] at hawaiting hremaining
  have hprinted : process.added - process.output.length = 0 := by
    have hlength := congrArg List.length hawaiting
    simpa using hlength.symm
  have hadded : jobs.length ≤ process.added := List.drop_eq_nil_iff.mp hremaining.symm
  have hall : process.output.length = jobs.length := by omega
  constructor
  · rw [h.inOrder.printed, hall, List.take_length]
  · have honce := h.numbered.once
    have heq : process.added = jobs.length := by omega
    have hnodup := (honce.nodup_iff.mpr List.nodup_range)
    rw [heq] at honce
    refine (List.perm_ext_iff_of_nodup (List.nodup_append.mp hnodup).2.1 List.nodup_range).mpr
      fun id => ⟨fun hid => honce.mem_iff.mp (List.mem_append_right _ hid), fun hid => ?_⟩
    exact h.inOrder.ran id (hall ▸ List.mem_range.mp hid)

end Process

def Move.isSpurious : Move → Bool
  | .spurious _ => true
  | _ => false

-- The wakeups without a notification in a run.
def spuriousWakeups (moves : List Move) : Nat := moves.countP Move.isSpurious

theorem sum_adds (moves : List Move) : (moves.map Move.adds).sum = 2 * spuriousWakeups moves := by
  unfold spuriousWakeups
  induction moves with
  | nil => rfl
  | cons move moves ih =>
      rw [List.map_cons, List.sum_cons, ih, List.countP_cons]
      cases move with
      | spurious i =>
          simp only [Move.adds, Move.isSpurious, if_true]
          omega
      | _ => simp [Move.isSpurious]

-- The program without its threads: one line after the other.
def sequential {Filename : Type} (directory : Filename → Option (List Line))
    (filenames : List Filename) : List Bytes :=
  (Process.linesOf directory filenames).map solveLine

section Schedules

open Process

variable {Filename : Type} {directory : Filename → Option (List Line)}

-- One line after the other, the program prints the solution of each or an empty line.
-- In every schedule these lines come out in the order of the input, no task is run
-- twice, and only wakeups without a notification make a schedule longer. Where no
-- thread can go on, every line was printed and every task was run.
theorem output_of_run {size : Nat} {filenames : List Filename} (hsize : 0 < size)
    (hopens : ∀ filename ∈ filenames, (directory filename).isSome) {moves : List Move}
    {last : Process Filename Line Bytes}
    (hrun : Transition.run (step directory solveLine) (start size filenames) moves = some last) :
    List.Forall₂ (fun line text => Solution line.chars text) (linesOf directory filenames)
      (sequential directory filenames) ∧
    last.output <+: sequential directory filenames ∧
    last.ran.Nodup ∧
    moves.length ≤ 6 * (linesOf directory filenames).length + 2 * filenames.length + 3 * size + 5 +
      2 * spuriousWakeups moves ∧
    ((∀ move, move.isSpurious = false → last.step directory solveLine move = none) →
      last.output = sequential directory filenames ∧
      last.ran.Perm (List.range (linesOf directory filenames).length)) := by
  have hstart : Scheduled directory solveLine (linesOf directory filenames) (start size filenames) :=
    scheduled_start hsize hopens
  have h := scheduled_keeps.run hstart hrun
  refine ⟨?_, ?_, ?_, ?_, fun hstuck => h.finished ?_⟩
  · apply List.forall₂_map_right_iff.mpr
    exact List.forall₂_same.mpr fun line _ => solution_solveLine line
  · rw [h.inOrder.printed]
    exact (List.take_prefix _ _).map solveLine
  · have hnodup := h.numbered.once.nodup_iff.mpr List.nodup_range
    exact (List.nodup_append.mp hnodup).2.1
  · have hlength := Transition.length_le scheduled_keeps (weight directory) Move.adds
      (fun _ _ _ _ hstep => weight_step (stepTo_of_step hstep)) hstart hrun
    rw [sum_adds, weight_start] at hlength
    omega
  · by_contra hcontrol
    obtain ⟨choice, next, hstep⟩ | ⟨i, next, hstep⟩ :=
      exists_step h.synced h.numbered h.inOrder hcontrol
    · rw [hstuck (.main choice) rfl] at hstep
      cases hstep
    · rw [hstuck (.worker i) rfl] at hstep
      cases hstep

set_option maxRecDepth 10000 in
-- A solved board but for its last two cells.
def nearlySolved : Line where
  chars := [5, 3, 4, 6, 7, 8, 9, 1, 2, 6, 7, 2, 1, 9, 5, 3, 4, 8, 1, 9, 8, 3, 4, 2, 5, 6, 7,
    8, 5, 9, 7, 6, 1, 4, 2, 3, 4, 2, 6, 8, 5, 3, 7, 9, 1, 7, 1, 3, 9, 2, 4, 8, 5, 6,
    9, 6, 1, 5, 3, 7, 2, 8, 4, 2, 8, 7, 4, 1, 9, 6, 3, 5, 3, 4, 5, 2, 8, 6, 1, 0, 0].map (48 + ·)
  length_eq := by decide
  isDigit := by decide

-- A schedule of two workers that solves the second of two lines first.
def secondFirst : List Move :=
  [.worker 1, .main 0, .main 0, .main 1, .worker 0, .main 0, .main 0, .worker 1, .worker 1, .main 0,
    .worker 0, .main 0, .main 0, .main 0, .main 0, .main 0, .main 0, .worker 0, .worker 1, .main 0,
    .main 0, .main 0]

theorem output_of_run_secondFirst : ∃ last : Process String Line Bytes,
    Transition.run (step (fun _ => some [nearlySolved, nearlySolved]) solveLine) (start 2 ["easy"])
      secondFirst = some last ∧
      last.ran = [1, 0] ∧ last.output = sequential (fun _ => some [nearlySolved, nearlySolved]) ["easy"] := by
  have hopens : ∀ filename ∈ ["easy"],
      ((fun _ => some [nearlySolved, nearlySolved] : String → Option (List Line)) filename).isSome := by
    simp
  have hsize : 0 < 2 := by decide
  refine ⟨_, rfl, rfl, ((@output_of_run _ _ _ _ hsize hopens secondFirst _ rfl).2.2.2.2
    fun move hmove => ?_).1⟩
  cases move with
  | main choice => rfl
  | worker i =>
      match i with
      | 0 | 1 => rfl
      | i + 2 => rfl
  | spurious i => cases hmove

end Schedules

end CloudLabs.Sudoku
