import CloudLabs.Sudoku.ThreadPool

namespace CloudLabs.Sudoku

open Interaction

namespace Process

variable {Filename Job Result : Type}

section Steps

variable (directory : Filename → Option (List Job)) (solve : Job → Result)

-- What a step can do.
inductive StepTo (process : Process Filename Job Result) :
    Move → Process Filename Job Result → Prop
  | flushed {choice future : Nat} {pending : List Nat} {result : Result}
      (hcontrol : process.control = .flush (future :: pending))
      (hresult : process.futures future = some result) :
      StepTo process (.main choice)
        { process with control := .flush pending, output := process.output ++ [result] }
  | noInput {choice : Nat} (hcontrol : process.control = .flush []) (hnames : process.filenames = []) :
      StepTo process (.main choice) { process with control := .lastFlush [], res := [] }
  | badFilename {choice : Nat} {filename : Filename} {filenames : List Filename}
      (hcontrol : process.control = .flush []) (hnames : process.filenames = filename :: filenames)
      (hopen : directory filename = none) :
      StepTo process (.main choice)
        { process with control := .terminated, res := [], filenames := filenames }
  | opened {choice : Nat} {filename : Filename} {filenames : List Filename} {lines : List Job}
      (hcontrol : process.control = .flush []) (hnames : process.filenames = filename :: filenames)
      (hopen : directory filename = some lines) :
      StepTo process (.main choice)
        { process with control := .readLines lines, res := [], filenames := filenames }
  | exhausted {choice : Nat} (hcontrol : process.control = .readLines []) :
      StepTo process (.main choice) { process with control := .flush process.res }
  | stoppedPool {choice : Nat} {line : Job} {lines : List Job}
      (hcontrol : process.control = .readLines (line :: lines)) (hdone : process.pool.done = true) :
      StepTo process (.main choice) { process with control := .terminated }
  | added {choice : Nat} {line : Job} {lines : List Job}
      (hcontrol : process.control = .readLines (line :: lines)) (hdone : process.pool.done = false) :
      StepTo process (.main choice) { process with
        control := .notify process.added lines
        pool := { process.pool with tasks := process.pool.tasks ++ [(process.added, line)] }
        added := process.added + 1 }
  | notified {choice future : Nat} {lines : List Job}
      (hcontrol : process.control = .notify future lines)
      (hworker : process.pool.workers[choice]? = some .asleep) :
      StepTo process (.main choice) { process with
        control := .readLines lines
        pool := process.pool.setWorker choice .looking
        res := process.res ++ [future] }
  | unheard {choice future : Nat} {lines : List Job}
      (hcontrol : process.control = .notify future lines)
      (hworkers : ∀ worker ∈ process.pool.workers, worker.isAsleep = false) :
      StepTo process (.main choice)
        { process with control := .readLines lines, res := process.res ++ [future] }
  | lastFlushed {choice future : Nat} {pending : List Nat} {result : Result}
      (hcontrol : process.control = .lastFlush (future :: pending))
      (hresult : process.futures future = some result) :
      StepTo process (.main choice)
        { process with control := .lastFlush pending, output := process.output ++ [result] }
  | returns {choice : Nat} (hcontrol : process.control = .lastFlush []) :
      StepTo process (.main choice) { process with control := .stop, res := [] }
  | stopped {choice : Nat} (hcontrol : process.control = .stop) :
      StepTo process (.main choice)
        { process with control := .wakeAll, pool := { process.pool with done := true } }
  | wokeAll {choice : Nat} (hcontrol : process.control = .wakeAll) :
      StepTo process (.main choice)
        { process with control := .join 0, pool := process.pool.notifyAll }
  | joined {choice i : Nat} (hcontrol : process.control = .join i)
      (hworker : process.pool.workers[i]? = some .exited) :
      StepTo process (.main choice) { process with control := .join (i + 1) }
  | joinedAll {choice i : Nat} (hcontrol : process.control = .join i)
      (hworker : process.pool.workers[i]? = none) :
      StepTo process (.main choice) { process with control := .finished }
  | slept {i : Nat} (hworker : process.pool.workers[i]? = some .looking)
      (htasks : process.pool.tasks = []) (hdone : process.pool.done = false) :
      StepTo process (.worker i) { process with pool := process.pool.setWorker i .asleep }
  | left {i : Nat} (hworker : process.pool.workers[i]? = some .looking)
      (hdone : process.pool.done = true) :
      StepTo process (.worker i) { process with pool := process.pool.setWorker i .exited }
  | fetched {i : Nat} {task : Nat × Job} {tasks : List (Nat × Job)}
      (hworker : process.pool.workers[i]? = some .looking)
      (htasks : process.pool.tasks = task :: tasks) (hdone : process.pool.done = false) :
      StepTo process (.worker i)
        { process with pool := { process.pool.setWorker i (.running task) with tasks := tasks } }
  | finishedTask {i id : Nat} {job : Job}
      (hworker : process.pool.workers[i]? = some (.running (id, job))) :
      StepTo process (.worker i) { process with
        pool := process.pool.setWorker i .looking
        futures := fun other => if other = id then some (solve job) else process.futures other
        ran := process.ran ++ [id] }
  | wokeAlone {i : Nat} (hworker : process.pool.workers[i]? = some .asleep) :
      StepTo process (.spurious i) { process with pool := process.pool.setWorker i .looking }

end Steps

variable {directory : Filename → Option (List Job)} {solve : Job → Result}
  {process next : Process Filename Job Result}

theorem notifyOne_eq {Task : Type} {pool next : ThreadPool Task} {i : Nat}
    (h : pool.notifyOne i = some next) :
    (pool.workers[i]? = some .asleep ∧ next = pool.setWorker i .looking) ∨
      ((∀ worker ∈ pool.workers, worker.isAsleep = false) ∧ next = pool) := by
  unfold ThreadPool.notifyOne at h
  by_cases hasleep : pool.workers.any Worker.isAsleep
  · rw [if_pos hasleep] at h
    left
    split at h
    · next hworker => exact ⟨hworker, (Option.some.inj h).symm⟩
    · cases h
  · rw [if_neg hasleep] at h
    right
    refine ⟨fun worker hworker => ?_, (Option.some.inj h).symm⟩
    by_contra hne
    exact hasleep (List.any_eq_true.mpr ⟨worker, hworker, by simpa using hne⟩)

theorem get_eq {future : Nat} {control : Control Job} (h : process.get future control = some next) :
    ∃ result, process.futures future = some result ∧
      next = { process with control := control, output := process.output ++ [result] } := by
  obtain ⟨result, hresult, hnext⟩ := Option.map_eq_some_iff.mp h
  exact ⟨result, hresult, hnext.symm⟩

theorem stepTo_of_stepMain {choice : Nat} (h : process.stepMain directory choice = some next) :
    StepTo directory solve process (.main choice) next := by
  unfold stepMain at h
  split at h
  · next future pending hcontrol =>
      obtain ⟨result, hresult, rfl⟩ := get_eq h
      exact .flushed hcontrol hresult
  · next hcontrol =>
      split at h
      · next hnames => exact Option.some.inj h ▸ .noInput hcontrol hnames
      · next filename filenames hnames =>
          split at h
          · next hopen => exact Option.some.inj h ▸ .badFilename hcontrol hnames hopen
          · next lines hopen => exact Option.some.inj h ▸ .opened hcontrol hnames hopen
  · next hcontrol => exact Option.some.inj h ▸ .exhausted hcontrol
  · next line lines hcontrol =>
      unfold ThreadPool.addTask at h
      by_cases hdone : process.pool.done
      · rw [if_pos hdone] at h
        exact Option.some.inj h ▸ .stoppedPool hcontrol hdone
      · rw [if_neg hdone] at h
        exact Option.some.inj h ▸ .added hcontrol (by simpa using hdone)
  · next future lines hcontrol =>
      obtain ⟨pool, hpool, rfl⟩ := Option.map_eq_some_iff.mp h
      obtain ⟨hworker, rfl⟩ | ⟨hworkers, rfl⟩ := notifyOne_eq hpool
      · exact .notified hcontrol hworker
      · exact .unheard hcontrol hworkers
  · next future pending hcontrol =>
      obtain ⟨result, hresult, rfl⟩ := get_eq h
      exact .lastFlushed hcontrol hresult
  · next hcontrol => exact Option.some.inj h ▸ .returns hcontrol
  · next hcontrol => exact Option.some.inj h ▸ .stopped hcontrol
  · next hcontrol => exact Option.some.inj h ▸ .wokeAll hcontrol
  · next i hcontrol =>
      split at h
      · next hworker => exact Option.some.inj h ▸ .joinedAll hcontrol hworker
      · next hworker => exact Option.some.inj h ▸ .joined hcontrol hworker
      · cases h
  · cases h
  · cases h

theorem stepTo_of_stepWorker {i : Nat} (h : process.stepWorker solve i = some next) :
    StepTo directory solve process (.worker i) next := by
  unfold stepWorker at h
  split at h
  · next hworker =>
      cases h
      unfold ThreadPool.fetch
      cases hdone : process.pool.done with
      | false =>
          cases htasks : process.pool.tasks with
          | nil => exact .slept hworker htasks hdone
          | cons task tasks => exact .fetched hworker htasks hdone
      | true =>
          rw [if_neg (by simp), if_pos rfl]
          exact .left hworker hdone
  · next id job hworker => exact Option.some.inj h ▸ .finishedTask hworker
  · cases h

theorem stepTo_of_step {move : Move} (h : process.step directory solve move = some next) :
    StepTo directory solve process move next := by
  cases move with
  | main choice => exact stepTo_of_stepMain h
  | worker i => exact stepTo_of_stepWorker h
  | spurious i =>
      simp only [step] at h
      split at h
      · next hworker => exact Option.some.inj h ▸ .wokeAlone hworker
      · cases h

section Workers

variable {Task : Type}

-- One worker in the list and the ones around it.
theorem exists_around {workers : List (Worker Task)} {i : Nat} {worker : Worker Task}
    (h : workers[i]? = some worker) :
    ∃ before after, workers = before ++ worker :: after ∧
      ∀ other, workers.set i other = before ++ other :: after := by
  obtain ⟨hi, hworker⟩ := List.getElem?_eq_some_iff.mp h
  refine ⟨workers.take i, workers.drop (i + 1), ?_, fun other => List.set_eq_take_append_cons_drop.trans ?_⟩
  · rw [← hworker, List.cons_getElem_drop_succ, List.take_append_drop]
  · rw [if_pos hi]

theorem filterMap_wake (workers : List (Worker Task)) :
    (workers.map Worker.wake).filterMap Worker.task? = workers.filterMap Worker.task? := by
  rw [List.filterMap_map]
  congr 1
  funext worker
  cases worker <;> rfl

end Workers

end Process

end CloudLabs.Sudoku
