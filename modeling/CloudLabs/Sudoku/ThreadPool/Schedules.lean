import CloudLabs.Sudoku.ThreadPool.Theorems

namespace CloudLabs.Sudoku

open Interaction

-- The destructor of the pool has set `done`.
def Control.stopped {Job : Type} : Control Job → Bool
  | .wakeAll | .join _ | .finished => true
  | _ => false

-- Every worker has been notified of the end.
def Control.joining {Job : Type} : Control Job → Bool
  | .join _ | .finished => true
  | _ => false

def Control.notifying {Job : Type} : Control Job → Bool
  | .notify _ _ => true
  | _ => false

-- The futures that the main thread still reads, with those in its vector.
@[simp] def Control.awaited {Job : Type} (control : Control Job) (res : List Nat) : List Nat :=
  match control with
  | .flush pending => pending
  | .readLines _ => res
  | .notify future _ => res ++ [future]
  | .lastFlush pending => pending
  | _ => []

-- The lines that the main thread still reads, with those of the files to come.
@[simp] def Control.unread {Job : Type} (control : Control Job) (later : List Job) : List Job :=
  match control with
  | .flush _ => later
  | .readLines lines => lines ++ later
  | .notify _ lines => lines ++ later
  | _ => []

namespace Process

variable {Filename Job Result : Type} {directory : Filename → Option (List Job)}
  {solve : Job → Result} {jobs : List Job} {process next : Process Filename Job Result} {move : Move}

-- The tasks that were added and have not been run to their end.
def outstanding (process : Process Filename Job Result) : List (Nat × Job) :=
  process.pool.tasks ++ process.pool.workers.filterMap Worker.task?

def linesOf (directory : Filename → Option (List Job)) (filenames : List Filename) : List Job :=
  filenames.flatMap fun filename => (directory filename).getD []

-- The futures whose results are still to be printed.
def awaited (process : Process Filename Job Result) : List Nat := process.control.awaited process.res

-- The lines for which no task was added yet.
def unread (directory : Filename → Option (List Job)) (process : Process Filename Job Result) :
    List Job :=
  process.control.unread (linesOf directory process.filenames)

-- Nobody sleeps through a task or through the end of the pool.
structure Synced (directory : Filename → Option (List Job)) (process : Process Filename Job Result) :
    Prop where
  opens : ∀ filename ∈ process.filenames, (directory filename).isSome
  running : process.control ≠ .terminated
  staffed : process.pool.workers ≠ []
  stopped : process.pool.done = process.control.stopped
  exited : .exited ∈ process.pool.workers → process.pool.done = true
  awake : process.pool.tasks ≠ [] →
    process.control.notifying = true ∨ ∃ worker ∈ process.pool.workers, worker.isAsleep = false
  joins : process.control.joining = true →
    ∀ worker ∈ process.pool.workers, worker.isAsleep = false

-- The tasks are numbered in the order of their lines, and each of them is either
-- outstanding or was run once; its future has the result of its own line.
structure Numbered (solve : Job → Result) (jobs : List Job) (process : Process Filename Job Result) :
    Prop where
  once : (process.outstanding.map Prod.fst ++ process.ran).Perm (List.range process.added)
  job : ∀ task ∈ process.outstanding, jobs[task.1]? = some task.2
  future : ∀ id, process.futures id = if id ∈ process.ran then jobs[id]?.map solve else none

-- The futures are read in the order of their tasks.
structure InOrder (directory : Filename → Option (List Job)) (solve : Job → Result)
    (jobs : List Job) (process : Process Filename Job Result) : Prop where
  printed : process.output = (jobs.take process.output.length).map solve
  ran : ∀ id < process.output.length, id ∈ process.ran
  le_added : process.output.length ≤ process.added
  added_le : process.added ≤ jobs.length
  awaiting : process.awaited =
    List.range' process.output.length (process.added - process.output.length)
  remaining : process.unread directory = jobs.drop process.added

section Synced

theorem mem_setWorker {Task : Type} {pool : ThreadPool Task} {i : Nat} {other worker : Worker Task}
    (h : worker ∈ (pool.setWorker i other).workers) : worker = other ∨ worker ∈ pool.workers :=
  (List.mem_or_eq_of_mem_set h).symm

theorem setWorker_mem {Task : Type} {pool : ThreadPool Task} {i : Nat} {worker : Worker Task}
    (other : Worker Task) (h : pool.workers[i]? = some worker) :
    other ∈ (pool.setWorker i other).workers := by
  obtain ⟨hi, -⟩ := List.getElem?_eq_some_iff.mp h
  exact List.mem_set hi other

theorem setWorker_ne_nil {Task : Type} {pool : ThreadPool Task} (i : Nat) (other : Worker Task)
    (h : pool.workers ≠ []) : (pool.setWorker i other).workers ≠ [] := by
  unfold ThreadPool.setWorker
  simpa using h

theorem Worker.isAsleep_wake {Task : Type} (worker : Worker Task) : worker.wake.isAsleep = false := by
  cases worker <;> rfl

-- The main thread goes on and leaves the pool alone.
theorem Synced.moved {old control : Control Job} {filenames : List Filename} {res : List Nat}
    {output : List Result} (h : Synced directory process) (hcontrol : process.control = old)
    (hnames : ∀ filename ∈ filenames, filename ∈ process.filenames) (hrunning : control ≠ .terminated)
    (hstopped : control.stopped = old.stopped) (hnotifying : old.notifying = false)
    (hjoining : control.joining = old.joining) :
    Synced directory { process with
      control := control, filenames := filenames, res := res, output := output } := by
  subst hcontrol
  refine ⟨fun filename hmem => h.opens filename (hnames filename hmem), hrunning, h.staffed,
    h.stopped.trans hstopped.symm, h.exited, fun htasks => .inr ?_, fun hjoin => h.joins (hjoining ▸ hjoin)⟩
  obtain hnotify | hawake := h.awake htasks
  · rw [hnotifying] at hnotify
    cases hnotify
  · exact hawake

-- A worker that is not asleep after a step of the pool.
theorem Synced.setWorker {i : Nat} {worker other : Worker (Nat × Job)} {control : Control Job}
    {res : List Nat} {tasks : List (Nat × Job)} {futures : Nat → Option Result} {ran : List Nat}
    (h : Synced directory process) (hworker : process.pool.workers[i]? = some worker)
    (hasleep : other.isAsleep = false) (hexited : other = .exited → process.pool.done = true)
    (hcontrol : control ≠ .terminated) (hstopped : control.stopped = process.control.stopped)
    (hjoining : control.joining = process.control.joining) :
    Synced directory { process with
      control := control, res := res, futures := futures, ran := ran
      pool := { process.pool.setWorker i other with tasks := tasks } } := by
  refine ⟨h.opens, hcontrol, setWorker_ne_nil i other h.staffed, h.stopped.trans hstopped.symm,
    fun hmem => ?_, fun _ => .inr ?_, ?_⟩
  · obtain heq | hmem := mem_setWorker hmem
    · exact hexited heq.symm
    · exact h.exited hmem
  · exact ⟨other, setWorker_mem other hworker, hasleep⟩
  · intro hjoin any hany
    obtain rfl | hmem := mem_setWorker hany
    · exact hasleep
    · exact h.joins (hjoining ▸ hjoin) any hmem

theorem Synced.notifyAll (h : Synced directory process) (hcontrol : process.control = .wakeAll) :
    Synced directory { process with control := .join 0, pool := process.pool.notifyAll } := by
  have hstopped := h.stopped
  rw [hcontrol] at hstopped
  have hwoken : ∀ worker ∈ process.pool.notifyAll.workers, worker.isAsleep = false := by
    intro worker hworker
    obtain ⟨old, -, rfl⟩ := List.mem_map.mp hworker
    exact Worker.isAsleep_wake old
  have hstaffed : process.pool.notifyAll.workers ≠ [] := by
    unfold ThreadPool.notifyAll
    simpa using h.staffed
  refine ⟨h.opens, by simp, hstaffed, hstopped, fun _ => hstopped, fun _ => .inr ?_, fun _ => hwoken⟩
  obtain ⟨worker, hworker⟩ := List.exists_mem_of_ne_nil _ hstaffed
  exact ⟨worker, hworker, hwoken worker hworker⟩

-- A worker falls asleep only while there is nothing to do.
theorem Synced.slept (h : Synced directory process) (i : Nat) (htasks : process.pool.tasks = [])
    (hdone : process.pool.done = false) :
    Synced directory { process with pool := process.pool.setWorker i .asleep } := by
  refine ⟨h.opens, h.running, setWorker_ne_nil i _ h.staffed, h.stopped, fun hmem => ?_,
    fun hne => absurd htasks hne, fun hjoin => ?_⟩
  · obtain heq | hmem := mem_setWorker hmem
    · cases heq
    · exact h.exited hmem
  · have hstopped := h.stopped
    have hjoining : process.control.joining = true := hjoin
    cases hcontrol : process.control with
    | join _ =>
        rw [hdone, hcontrol] at hstopped
        cases hstopped
    | finished =>
        rw [hdone, hcontrol] at hstopped
        cases hstopped
    | _ =>
        rw [hcontrol] at hjoining
        cases hjoining

theorem Synced.step (h : Synced directory process) (hstep : StepTo directory solve process move next) :
    Synced directory next := by
  have hstopped := h.stopped
  cases hstep with
  | flushed hcontrol hresult => exact h.moved hcontrol (fun _ => id) (by simp) rfl rfl rfl
  | noInput hcontrol hnames => exact h.moved hcontrol (fun _ => id) (by simp) rfl rfl rfl
  | badFilename hcontrol hnames hopen =>
      have hsome := h.opens _ (hnames ▸ List.mem_cons_self)
      rw [hopen] at hsome
      cases hsome
  | opened hcontrol hnames hopen =>
      refine h.moved hcontrol (fun filename hmem => ?_) (by simp) rfl rfl rfl
      rw [hnames]
      exact List.mem_cons_of_mem _ hmem
  | exhausted hcontrol => exact h.moved hcontrol (fun _ => id) (by simp) rfl rfl rfl
  | stoppedPool hcontrol hdone =>
      rw [hcontrol, hdone] at hstopped
      cases hstopped
  | added hcontrol hdone =>
      have hjoins := h.joins
      rw [hcontrol] at hstopped hjoins
      exact ⟨h.opens, by simp, h.staffed, hstopped, h.exited, fun _ => .inl rfl, hjoins⟩
  | notified hcontrol hworker =>
      exact h.setWorker hworker rfl (fun heq => nomatch heq) (by simp) (by rw [hcontrol]; rfl)
        (by rw [hcontrol]; rfl)
  | unheard hcontrol hworkers =>
      have hjoins := h.joins
      rw [hcontrol] at hstopped hjoins
      obtain ⟨worker, hworker⟩ := List.exists_mem_of_ne_nil _ h.staffed
      exact ⟨h.opens, by simp, h.staffed, hstopped, h.exited,
        fun _ => .inr ⟨worker, hworker, hworkers worker hworker⟩, hjoins⟩
  | lastFlushed hcontrol hresult => exact h.moved hcontrol (fun _ => id) (by simp) rfl rfl rfl
  | returns hcontrol => exact h.moved hcontrol (fun _ => id) (by simp) rfl rfl rfl
  | stopped hcontrol =>
      have hawake := h.awake
      have hjoins := h.joins
      rw [hcontrol] at hawake hjoins
      exact ⟨h.opens, by simp, h.staffed, rfl, fun _ => rfl, hawake, hjoins⟩
  | wokeAll hcontrol => exact h.notifyAll hcontrol
  | joined hcontrol hworker => exact h.moved hcontrol (fun _ => id) (by simp) rfl rfl rfl
  | joinedAll hcontrol hworker => exact h.moved hcontrol (fun _ => id) (by simp) rfl rfl rfl
  | slept hworker htasks hdone => exact h.slept _ htasks hdone
  | left hworker hdone => exact h.setWorker hworker rfl (fun _ => hdone) h.running rfl rfl
  | fetched hworker htasks hdone =>
      exact h.setWorker hworker rfl (fun heq => nomatch heq) h.running rfl rfl
  | finishedTask hworker => exact h.setWorker hworker rfl (fun heq => nomatch heq) h.running rfl rfl
  | wokeAlone hworker => exact h.setWorker hworker rfl (fun heq => nomatch heq) h.running rfl rfl

end Synced

section Numbered

-- A step that leaves the tasks alone.
theorem Numbered.congr (h : Numbered solve jobs process)
    (houtstanding : next.outstanding = process.outstanding) (hadded : next.added = process.added)
    (hfutures : next.futures = process.futures) (hran : next.ran = process.ran) :
    Numbered solve jobs next := by
  refine ⟨?_, houtstanding ▸ h.job, ?_⟩
  · rw [houtstanding, hran, hadded]
    exact h.once
  · rw [hran, hfutures]
    exact h.future

-- A worker that has no task before a step and none after it.
theorem filterMap_setWorker {Task : Type} {pool : ThreadPool Task} {i : Nat} {worker other : Worker Task}
    (hworker : pool.workers[i]? = some worker) (hnone : worker.task? = none)
    (hother : other.task? = none) :
    (pool.setWorker i other).workers.filterMap Worker.task? = pool.workers.filterMap Worker.task? := by
  obtain ⟨before, after, heq, hset⟩ := exists_around hworker
  unfold ThreadPool.setWorker
  simp only [hset other]
  rw [heq, List.filterMap_append, List.filterMap_append, List.filterMap_cons_none hnone,
    List.filterMap_cons_none hother]

theorem Numbered.setWorker {i : Nat} {worker other : Worker (Nat × Job)} {control : Control Job}
    {res : List Nat} (h : Numbered solve jobs process)
    (hworker : process.pool.workers[i]? = some worker) (hnone : worker.task? = none)
    (hother : other.task? = none) :
    Numbered solve jobs { process with
      control := control, res := res, pool := process.pool.setWorker i other } :=
  h.congr (congrArg (process.pool.tasks ++ ·) (filterMap_setWorker hworker hnone hother)) rfl rfl rfl

theorem Numbered.added {control : Control Job} {line : Job} (h : Numbered solve jobs process)
    (hline : jobs[process.added]? = some line) :
    Numbered solve jobs { process with
      control := control
      pool := { process.pool with tasks := process.pool.tasks ++ [(process.added, line)] }
      added := process.added + 1 } := by
  have hperm : (process.pool.tasks ++ [(process.added, line)] ++
      process.pool.workers.filterMap Worker.task?).Perm ((process.added, line) :: process.outstanding) := by
    rw [List.append_assoc]
    exact List.perm_middle
  refine ⟨?_, fun task htask => ?_, h.future⟩
  · have hids := ((hperm.map Prod.fst).append_right process.ran).trans (h.once.cons process.added)
    rw [List.range_succ]
    exact hids.trans (List.perm_append_singleton process.added _).symm
  · obtain heq | hmem := List.mem_cons.mp (hperm.mem_iff.mp htask)
    · rw [heq]
      exact hline
    · exact h.job task hmem

theorem Numbered.fetched {i : Nat} {task : Nat × Job} {tasks : List (Nat × Job)}
    (h : Numbered solve jobs process) (hworker : process.pool.workers[i]? = some .looking)
    (htasks : process.pool.tasks = task :: tasks) :
    Numbered solve jobs { process with
      pool := { process.pool.setWorker i (.running task) with tasks := tasks } } := by
  obtain ⟨before, after, heq, hset⟩ := exists_around hworker
  have hperm : (tasks ++ (process.pool.setWorker i (.running task)).workers.filterMap
      Worker.task?).Perm process.outstanding := by
    unfold outstanding ThreadPool.setWorker
    simp only [hset]
    rw [heq, htasks]
    simp only [List.filterMap_append, List.filterMap_cons, Worker.task?]
    rw [← List.append_assoc, List.cons_append, ← List.append_assoc]
    exact List.perm_middle
  refine ⟨?_, fun other hother => h.job other (hperm.mem_iff.mp hother), h.future⟩
  exact ((hperm.map Prod.fst).append_right process.ran).trans h.once

theorem Numbered.finishedTask {i id : Nat} {job : Job} (h : Numbered solve jobs process)
    (hworker : process.pool.workers[i]? = some (.running (id, job))) :
    Numbered solve jobs { process with
      pool := process.pool.setWorker i .looking
      futures := fun other => if other = id then some (solve job) else process.futures other
      ran := process.ran ++ [id] } := by
  obtain ⟨before, after, heq, hset⟩ := exists_around hworker
  have hperm : process.outstanding.Perm ((id, job) :: (process.pool.tasks ++
      (process.pool.setWorker i .looking).workers.filterMap Worker.task?)) := by
    unfold outstanding ThreadPool.setWorker
    simp only [hset]
    rw [heq]
    simp only [List.filterMap_append, List.filterMap_cons, Worker.task?]
    rw [← List.append_assoc, ← List.append_assoc]
    exact List.perm_middle
  have hjob := h.job (id, job) (hperm.mem_iff.mpr List.mem_cons_self)
  refine ⟨?_, fun other hother => h.job other (hperm.mem_iff.mpr (List.mem_cons_of_mem _ hother)),
    fun other => ?_⟩
  · refine List.Perm.trans ?_ (((hperm.map Prod.fst).append_right process.ran).symm.trans h.once)
    rw [← List.append_assoc]
    exact List.perm_append_singleton id _
  · by_cases hother : other = id
    · subst hother
      simp [hjob]
    · simp [hother, h.future other]

theorem Numbered.step (h : Numbered solve jobs process) (horder : InOrder directory solve jobs process)
    (hstep : StepTo directory solve process move next) : Numbered solve jobs next := by
  cases hstep with
  | added hcontrol hdone =>
      have hunread := horder.remaining
      unfold unread at hunread
      rw [hcontrol] at hunread
      refine h.added ?_
      have hhead := congrArg List.head? hunread
      rw [List.head?_drop] at hhead
      exact hhead.symm
  | notified hcontrol hworker => exact h.setWorker hworker rfl rfl
  | wokeAll hcontrol =>
      exact h.congr (congrArg (process.pool.tasks ++ ·) (filterMap_wake _)) rfl rfl rfl
  | slept hworker htasks hdone => exact h.setWorker hworker rfl rfl
  | left hworker hdone => exact h.setWorker hworker rfl rfl
  | fetched hworker htasks hdone => exact h.fetched hworker htasks
  | finishedTask hworker => exact h.finishedTask hworker
  | wokeAlone hworker => exact h.setWorker hworker rfl rfl
  | _ => exact h.congr rfl rfl rfl rfl

end Numbered

section InOrder

-- A step that prints nothing and adds nothing.
theorem InOrder.congr (h : InOrder directory solve jobs process)
    (houtput : next.output = process.output) (hran : ∀ id ∈ process.ran, id ∈ next.ran)
    (hadded : next.added = process.added) (hawaited : next.awaited = process.awaited)
    (hunread : next.unread directory = process.unread directory) :
    InOrder directory solve jobs next := by
  refine ⟨?_, ?_, ?_, ?_, ?_, ?_⟩
  · rw [houtput]
    exact h.printed
  · rw [houtput]
    exact fun id hid => hran id (h.ran id hid)
  · rw [houtput, hadded]
    exact h.le_added
  · rw [hadded]
    exact h.added_le
  · rw [hawaited, houtput, hadded]
    exact h.awaiting
  · rw [hunread, hadded]
    exact h.remaining

-- The main thread goes on and leaves the tasks alone.
theorem InOrder.moved {old control : Control Job} {filenames : List Filename} {res : List Nat}
    {pool : ThreadPool (Nat × Job)} (h : InOrder directory solve jobs process)
    (hcontrol : process.control = old) (hawaited : control.awaited res = old.awaited process.res)
    (hunread : control.unread (linesOf directory filenames) =
      old.unread (linesOf directory process.filenames)) :
    InOrder directory solve jobs { process with
      control := control, filenames := filenames, res := res, pool := pool } := by
  subst hcontrol
  exact h.congr rfl (fun _ => id) rfl hawaited hunread

-- The future that is read next is the one of the first line that is not printed.
theorem InOrder.get {future : Nat} {pending : List Nat} {result : Result} {old control : Control Job}
    (h : InOrder directory solve jobs process) (hnumbered : Numbered solve jobs process)
    (hcontrol : process.control = old) (hold : old.awaited process.res = future :: pending)
    (hresult : process.futures future = some result) (hnext : control.awaited process.res = pending)
    (hunread : control.unread (linesOf directory process.filenames) =
      old.unread (linesOf directory process.filenames)) :
    InOrder directory solve jobs { process with
      control := control, output := process.output ++ [result] } := by
  subst hcontrol
  have hrange := hold.symm.trans h.awaiting
  have hlt : process.output.length < process.added := by
    by_contra hle
    rw [Nat.sub_eq_zero_of_le (by omega)] at hrange
    cases hrange
  have hcount : process.added - process.output.length = process.added - (process.output.length + 1) + 1 := by
    omega
  rw [hcount, List.range'_succ] at hrange
  injection hrange with hfuture hpending
  have hvalue := hnumbered.future future
  rw [hresult] at hvalue
  by_cases hran : future ∈ process.ran
  · rw [if_pos hran] at hvalue
    obtain ⟨job, hjob, rfl⟩ := Option.map_eq_some_iff.mp hvalue.symm
    have hlength : (process.output ++ [solve job]).length = process.output.length + 1 := by simp
    refine ⟨?_, ?_, ?_, h.added_le, ?_, hunread.trans h.remaining⟩
    · simp only [hlength]
      rw [List.take_add_one, List.map_append, ← h.printed, ← hfuture, hjob]
      rfl
    · intro id hid
      rw [hlength] at hid
      by_cases hlast : id = future
      · rw [hlast]
        exact hran
      · exact h.ran id (by omega)
    · simp only [hlength]
      omega
    · simp only [hlength]
      exact hnext.trans hpending
  · rw [if_neg hran] at hvalue
    cases hvalue

theorem InOrder.added {line : Job} {lines : List Job} {pool : ThreadPool (Nat × Job)}
    (h : InOrder directory solve jobs process) (hcontrol : process.control = .readLines (line :: lines)) :
    InOrder directory solve jobs { process with
      control := .notify process.added lines, pool := pool, added := process.added + 1 } := by
  have hawaiting := h.awaiting
  have hremaining := h.remaining
  have hle := h.le_added
  unfold awaited at hawaiting
  unfold unread at hremaining
  rw [hcontrol] at hawaiting hremaining
  have hres : process.res =
      List.range' process.output.length (process.added - process.output.length) := hawaiting
  refine ⟨h.printed, h.ran, Nat.le_succ_of_le hle, ?_, ?_, ?_⟩
  · have hlength := congrArg List.length hremaining
    rw [Control.unread, List.length_append, List.length_cons, List.length_drop] at hlength
    simp only
    omega
  · have hlast : process.output.length + 1 * (process.added - process.output.length) = process.added := by
      omega
    have hmore : process.res ++ [process.added] =
        List.range' process.output.length (process.added + 1 - process.output.length) := by
      rw [Nat.succ_sub hle, List.range'_concat, ← hres, hlast]
    exact hmore
  · have htail := congrArg List.tail hremaining
    rw [List.tail_drop] at htail
    exact htail

theorem InOrder.step (h : InOrder directory solve jobs process) (hnumbered : Numbered solve jobs process)
    (hsynced : Synced directory next) (hstep : StepTo directory solve process move next) :
    InOrder directory solve jobs next := by
  cases hstep with
  | flushed hcontrol hresult => exact h.get hnumbered hcontrol rfl hresult rfl rfl
  | noInput hcontrol hnames => exact h.moved hcontrol rfl (by rw [hnames]; rfl)
  | badFilename hcontrol hnames hopen => exact absurd rfl hsynced.running
  | opened hcontrol hnames hopen =>
      refine h.moved hcontrol rfl ?_
      unfold linesOf
      rw [hnames, List.flatMap_cons, hopen]
      rfl
  | exhausted hcontrol => exact h.moved hcontrol rfl rfl
  | stoppedPool hcontrol hdone => exact absurd rfl hsynced.running
  | added hcontrol hdone => exact h.added hcontrol
  | notified hcontrol hworker => exact h.moved hcontrol rfl rfl
  | unheard hcontrol hworkers => exact h.moved hcontrol rfl rfl
  | lastFlushed hcontrol hresult => exact h.get hnumbered hcontrol rfl hresult rfl rfl
  | returns hcontrol => exact h.moved hcontrol rfl rfl
  | stopped hcontrol => exact h.moved hcontrol rfl rfl
  | wokeAll hcontrol => exact h.moved hcontrol rfl rfl
  | joined hcontrol hworker => exact h.moved hcontrol rfl rfl
  | joinedAll hcontrol hworker => exact h.moved hcontrol rfl rfl
  | slept => exact h.congr rfl (fun _ => id) rfl rfl rfl
  | left => exact h.congr rfl (fun _ => id) rfl rfl rfl
  | fetched => exact h.congr rfl (fun _ => id) rfl rfl rfl
  | finishedTask => exact h.congr rfl (fun id hid => List.mem_append_left _ hid) rfl rfl rfl
  | wokeAlone => exact h.congr rfl (fun _ => id) rfl rfl rfl

end InOrder

end Process

end CloudLabs.Sudoku
