import CloudLabs.Sudoku.ThreadPool.Schedules

namespace CloudLabs.Sudoku

open Interaction

-- How many steps a worker can take before it needs a task or a wakeup.
@[simp] def Worker.weight {Task : Type} : Worker Task → Nat
  | .looking => 1
  | .running _ => 2
  | .asleep | .exited => 0

def ThreadPool.weight {Task : Type} (pool : ThreadPool Task) : Nat :=
  (pool.workers.map Worker.weight).sum

-- The steps of the main thread that are left, with those that its last
-- notification gives to the workers, apart from the files and lines to come.
@[simp] def Control.weight {Job : Type} (control : Control Job) (res : List Nat) (size : Nat) : Nat :=
  match control with
  | .flush pending => pending.length + 2 * size + 5
  | .readLines _ => res.length + 2 * size + 6
  | .notify _ _ => res.length + 2 * size + 9
  | .lastFlush pending => pending.length + 2 * size + 4
  | .stop => 2 * size + 3
  | .wakeAll => 2 * size + 2
  | .join i => size - i + 1
  | .finished | .terminated => 0

namespace Process

variable {Filename Job Result : Type} {directory : Filename → Option (List Job)}
  {solve : Job → Result} {jobs : List Job} {process next : Process Filename Job Result} {move : Move}

def weight (directory : Filename → Option (List Job)) (process : Process Filename Job Result) : Nat :=
  process.control.weight process.res process.pool.workers.length +
    6 * (process.unread directory).length + 2 * process.filenames.length +
    2 * process.pool.tasks.length + process.pool.weight

end Process

-- A wakeup without a notification gives its worker two more steps.
@[simp] def Move.adds : Move → Nat
  | .spurious _ => 2
  | _ => 0

section Weight

variable {Task : Type} {pool : ThreadPool Task}

theorem ThreadPool.weight_setWorker {i : Nat} {worker : Worker Task} (other : Worker Task)
    (h : pool.workers[i]? = some worker) :
    (pool.setWorker i other).weight + worker.weight = pool.weight + other.weight := by
  obtain ⟨before, after, heq, hset⟩ := Process.exists_around h
  unfold weight setWorker
  simp only [hset other]
  rw [heq]
  simp only [List.map_append, List.map_cons, List.sum_append, List.sum_cons]
  omega

theorem ThreadPool.weight_notifyAll (pool : ThreadPool Task) :
    pool.notifyAll.weight ≤ pool.weight + pool.workers.length := by
  unfold weight notifyAll
  induction pool.workers with
  | nil => simp
  | cons worker workers ih =>
      have hworker : worker.wake.weight ≤ worker.weight + 1 := by
        cases worker <;> simp [Worker.wake]
      simp only [List.map_cons, List.sum_cons, List.length_cons] at ih ⊢
      omega

end Weight

namespace Process

variable {Filename Job Result : Type} {directory : Filename → Option (List Job)}
  {solve : Job → Result} {jobs : List Job} {process next : Process Filename Job Result} {move : Move}

-- The main thread goes on and leaves the pool alone.
theorem weight_moved {old control : Control Job} {filenames : List Filename} {res : List Nat}
    {output : List Result} (hcontrol : process.control = old)
    (hless : control.weight res process.pool.workers.length +
        6 * (control.unread (linesOf directory filenames)).length + 2 * filenames.length <
      old.weight process.res process.pool.workers.length +
        6 * (old.unread (linesOf directory process.filenames)).length + 2 * process.filenames.length) :
    weight directory { process with
      control := control, filenames := filenames, res := res, output := output } <
      process.weight directory := by
  subst hcontrol
  unfold weight unread
  simp only
  omega

theorem weight_setWorker {i : Nat} {worker other : Worker (Nat × Job)}
    (hworker : process.pool.workers[i]? = some worker) :
    weight directory { process with pool := process.pool.setWorker i other } + worker.weight =
      process.weight directory + other.weight := by
  have hweight := ThreadPool.weight_setWorker other hworker
  have hlength : (process.pool.setWorker i other).workers.length = process.pool.workers.length :=
    List.length_set
  have htasks : (process.pool.setWorker i other).tasks = process.pool.tasks := rfl
  unfold weight unread
  simp only [hlength, htasks]
  omega

-- Every step uses up weight.
theorem weight_step (hstep : StepTo directory solve process move next) :
    next.weight directory + 1 ≤ process.weight directory + move.adds := by
  cases hstep with
  | flushed hcontrol hresult => exact weight_moved hcontrol (by simp)
  | noInput hcontrol hnames => exact weight_moved hcontrol (by simp; omega)
  | badFilename hcontrol hnames hopen => exact weight_moved hcontrol (by simp [hnames]; omega)
  | opened hcontrol hnames hopen =>
      exact weight_moved hcontrol (by simp [hnames, linesOf, hopen]; omega)
  | exhausted hcontrol => exact weight_moved hcontrol (by simp)
  | stoppedPool hcontrol hdone =>
      exact weight_moved hcontrol (by simp only [Control.weight, Control.unread, List.length_nil]; omega)
  | added hcontrol hdone =>
      unfold weight unread
      rw [hcontrol]
      simp only [Control.weight, Control.unread, ThreadPool.weight, List.length_append, List.length_cons,
        List.length_nil, Move.adds]
      omega
  | notified hcontrol hworker =>
      have hweight := ThreadPool.weight_setWorker .looking hworker
      unfold weight unread
      rw [hcontrol]
      simp only [Worker.weight, Control.weight, Control.unread, List.length_append, List.length_cons,
        List.length_nil, List.length_set, Move.adds, ThreadPool.setWorker] at hweight ⊢
      omega
  | unheard hcontrol hworkers => exact weight_moved hcontrol (by simp; omega)
  | lastFlushed hcontrol hresult => exact weight_moved hcontrol (by simp)
  | returns hcontrol => exact weight_moved hcontrol (by simp)
  | stopped hcontrol =>
      unfold weight unread
      rw [hcontrol]
      simp only [Control.weight, Control.unread, ThreadPool.weight, Move.adds]
      omega
  | wokeAll hcontrol =>
      have hweight := process.pool.weight_notifyAll
      unfold weight unread
      rw [hcontrol]
      simp only [Control.weight, Control.unread, ThreadPool.notifyAll, List.length_map, Move.adds] at hweight ⊢
      omega
  | joined hcontrol hworker =>
      obtain ⟨hi, -⟩ := List.getElem?_eq_some_iff.mp hworker
      exact weight_moved hcontrol (by simp; omega)
  | joinedAll hcontrol hworker => exact weight_moved hcontrol (by simp)
  | slept hworker htasks hdone =>
      have hweight := @weight_setWorker _ _ _ directory _ _ _ .asleep hworker
      exact Nat.le_of_eq hweight
  | left hworker hdone =>
      have hweight := @weight_setWorker _ _ _ directory _ _ _ .exited hworker
      exact Nat.le_of_eq hweight
  | @fetched i task tasks hworker htasks hdone =>
      have hweight := ThreadPool.weight_setWorker (.running task) hworker
      unfold weight unread
      simp only [Worker.weight, htasks, List.length_cons, List.length_set, Move.adds, ThreadPool.setWorker,
        ThreadPool.weight] at hweight ⊢
      omega
  | finishedTask hworker =>
      have hweight := @weight_setWorker _ _ _ directory _ _ _ .looking hworker
      exact Nat.le_of_succ_le_succ (Nat.le_of_eq hweight)
  | wokeAlone hworker =>
      have hweight := @weight_setWorker _ _ _ directory _ _ _ .looking hworker
      exact Nat.succ_le_succ (Nat.le_of_eq hweight)

section Progress

-- While there are tasks that are not run, some worker can go on.
theorem exists_worker {id : Nat} (hsynced : Synced directory process)
    (hnumbered : Numbered solve jobs process) (hadded : id < process.added) (hran : id ∉ process.ran)
    (hcontrol : process.control.notifying = false) (hstopped : process.control.stopped = false) :
    ∃ i next, process.step directory solve (.worker i) = some next := by
  have hmem : id ∈ process.outstanding.map Prod.fst := by
    have hrange := hnumbered.once.mem_iff.mpr (List.mem_range.mpr hadded)
    obtain hmem | hmem := List.mem_append.mp hrange
    · exact hmem
    · exact absurd hmem hran
  obtain ⟨task, htask, -⟩ := List.mem_map.mp hmem
  have hawake : ∃ worker ∈ process.pool.workers, worker.isAsleep = false := by
    obtain htask | htask := List.mem_append.mp htask
    · obtain hnotify | hawake := hsynced.awake (List.ne_nil_of_mem htask)
      · rw [hcontrol] at hnotify
        cases hnotify
      · exact hawake
    · obtain ⟨worker, hworker, hrunning⟩ := List.mem_filterMap.mp htask
      refine ⟨worker, hworker, ?_⟩
      cases worker with
      | running _ => rfl
      | _ => cases hrunning
  obtain ⟨worker, hworker, hasleep⟩ := hawake
  obtain ⟨i, hi⟩ := List.mem_iff_getElem?.mp hworker
  refine ⟨i, ?_⟩
  unfold step stepWorker
  cases worker with
  | looking => simp [hi]
  | running task => simp [hi]
  | asleep => cases hasleep
  | exited =>
      have hdone := hsynced.stopped.symm.trans (hsynced.exited hworker)
      rw [hstopped] at hdone
      cases hdone

-- The main thread waits for a result only while some worker can go on.
theorem exists_get {id : Nat} {pending : List Nat} {old : Control Job} (control : Control Job)
    (hsynced : Synced directory process) (hnumbered : Numbered solve jobs process)
    (horder : InOrder directory solve jobs process) (hcontrol : process.control = old)
    (hawaited : old.awaited process.res = id :: pending) (hnotifying : old.notifying = false)
    (hstopped : old.stopped = false) :
    (∃ next, process.get id control = some next) ∨
      ∃ i next, process.step directory solve (.worker i) = some next := by
  subst hcontrol
  have hrange := hawaited.symm.trans horder.awaiting
  have hid : id < process.added := by
    have hmem : id ∈ List.range' process.output.length (process.added - process.output.length) :=
      hrange ▸ List.mem_cons_self
    have hbounds := List.mem_range'_1.mp hmem
    omega
  by_cases hran : id ∈ process.ran
  · left
    have hfuture := hnumbered.future id
    have hbound : id < jobs.length := Nat.lt_of_lt_of_le hid horder.added_le
    rw [if_pos hran, List.getElem?_eq_getElem hbound] at hfuture
    exact ⟨_, by unfold get; rw [hfuture]; rfl⟩
  · exact .inr (exists_worker hsynced hnumbered hid hran hnotifying hstopped)

-- Some thread can go on until the main thread has finished.
theorem exists_step (hsynced : Synced directory process) (hnumbered : Numbered solve jobs process)
    (horder : InOrder directory solve jobs process) (hcontrol : process.control ≠ .finished) :
    (∃ choice next, process.step directory solve (.main choice) = some next) ∨
      ∃ i next, process.step directory solve (.worker i) = some next := by
  cases hold : process.control with
  | flush pending =>
      cases pending with
      | nil =>
          left
          refine ⟨0, ?_⟩
          cases hnames : process.filenames with
          | nil => simp [step, stepMain, hold, hnames]
          | cons filename filenames =>
              cases hopen : directory filename <;> simp [step, stepMain, hold, hnames, hopen]
      | cons id pending =>
          refine (exists_get (.flush pending) hsynced hnumbered horder hold rfl rfl rfl).imp_left ?_
          rintro ⟨next, hnext⟩
          refine ⟨0, next, ?_⟩
          unfold step stepMain
          rw [hold]
          exact hnext
  | readLines lines =>
      left
      refine ⟨0, ?_⟩
      unfold step stepMain
      rw [hold]
      cases lines with
      | nil => exact ⟨_, rfl⟩
      | cons line lines => cases hadd : process.pool.addTask (process.added, line) <;> simp [hadd]
  | notify future lines =>
      left
      unfold step stepMain ThreadPool.notifyOne
      rw [hold]
      by_cases hasleep : process.pool.workers.any Worker.isAsleep
      · obtain ⟨worker, hworker, hworkerAsleep⟩ := List.any_eq_true.mp hasleep
        obtain ⟨i, hi⟩ := List.mem_iff_getElem?.mp hworker
        cases worker with
        | asleep => exact ⟨i, by simp [hasleep, hi]⟩
        | _ => cases hworkerAsleep
      · exact ⟨0, by simp [hasleep]⟩
  | lastFlush pending =>
      cases pending with
      | nil => exact .inl ⟨0, by simp [step, stepMain, hold]⟩
      | cons id pending =>
          refine (exists_get (.lastFlush pending) hsynced hnumbered horder hold rfl rfl rfl).imp_left ?_
          rintro ⟨next, hnext⟩
          refine ⟨0, next, ?_⟩
          unfold step stepMain
          rw [hold]
          exact hnext
  | stop => exact .inl ⟨0, by simp [step, stepMain, hold]⟩
  | wakeAll => exact .inl ⟨0, by simp [step, stepMain, hold]⟩
  | join i =>
      have hjoins := hsynced.joins
      rw [hold] at hjoins
      cases hworker : process.pool.workers[i]? with
      | none => exact .inl ⟨0, by simp [step, stepMain, hold, hworker]⟩
      | some worker =>
          have hasleep := hjoins rfl worker (List.mem_of_getElem? hworker)
          cases worker with
          | exited => exact .inl ⟨0, by simp [step, stepMain, hold, hworker]⟩
          | asleep => cases hasleep
          | looking => exact .inr ⟨i, by simp [step, stepWorker, hworker]⟩
          | running task => exact .inr ⟨i, by simp [step, stepWorker, hworker]⟩
  | finished => exact absurd hold hcontrol
  | terminated => exact absurd hold hsynced.running

end Progress

end Process

end CloudLabs.Sudoku
