import CloudLabs.TcpServer.ThreadPool
import CloudLabs.Interaction.Slots
import Mathlib.Algebra.Order.BigOperators.Group.List
import Mathlib.Algebra.Order.Ring.Nat

namespace CloudLabs.TcpServer

open Interaction

-- Where the thread that calls stop stands: before the store of stop_, before the
-- notification, at the join of a worker, or behind workers_.clear().
inductive Caller where
  | entered
  | stored
  | joining (i : Nat)
  | returned
  deriving DecidableEq

-- A pool that one thread stops while nobody else uses it.
structure Stopping (Task : Type) where
  pool : ThreadPool Task
  caller : Caller
  deriving DecidableEq

namespace Stopping

variable {Task : Type}

def stepCaller (s : Stopping Task) : Option (Stopping Task) :=
  match s.caller with
  | .entered => some ⟨{ s.pool with stop := true }, .stored⟩
  | .stored => some ⟨s.pool.notifyAll, .joining 0⟩
  | .joining i =>
      match s.pool.workers[i]? with
      | none => some ⟨{ s.pool with workers := [] }, .returned⟩
      | some .exited => some ⟨s.pool, .joining (i + 1)⟩
      | some _ => none
  | .returned => none

-- A turn of the caller, or of one of the workers.
inductive Turn where
  | caller
  | worker (i : Nat)

def step (s : Stopping Task) : Turn → Option (Stopping Task)
  | .caller => s.stepCaller
  | .worker i => (s.pool.stepWorker i).map fun pool => ⟨pool, s.caller⟩

def start (pool : ThreadPool Task) : Stopping Task := ⟨pool, .entered⟩

-- Nobody can take a turn.
def Stuck (s : Stopping Task) : Prop := ∀ turn, s.step turn = none

section Termination

-- How far a worker is from sleeping, or from leaving when it is told to.
def weight (stops : Bool) : Worker Task → Nat
  | .deciding => if stops then 1 else 9
  | .looking => if stops then 2 else 8
  | .running _ => if stops then 2 else 10
  | .waiting => if stops then 4 else 7
  | .asleep => if stops then 3 else 6
  | .exited => 0

def callerLeft (workers : Nat) : Caller → Nat
  | .entered => workers + 4
  | .stored => workers + 3
  | .joining i => workers - i + 2
  | .returned => 1

-- What is left to do.
def measure (s : Stopping Task) : Nat :=
  3 * s.pool.tasks.length + (s.pool.workers.map (weight s.pool.shouldStop)).sum + callerLeft s.pool.workers.length s.caller

-- A worker that has to leave has less to do, also if it is woken for that.
theorem weight_le (worker : Worker Task) (stops : Bool) : weight true worker ≤ weight stops worker := by
  cases stops <;> cases worker <;> simp [weight]

theorem weight_wake_le (worker : Worker Task) : weight true worker.wake ≤ weight true worker := by
  cases worker <;> simp [weight, Worker.wake]

theorem weight_le_ten (worker : Worker Task) (stops : Bool) : weight stops worker ≤ 10 := by
  cases stops <;> cases worker <;> simp [weight]

theorem sum_weight_bound (workers : List (Worker Task)) (stops : Bool) :
    (workers.map (weight stops)).sum ≤ 10 * workers.length := by
  have hle : ∀ left ∈ workers.map (weight stops), left ≤ 10 := by
    intro left hleft
    obtain ⟨worker, -, rfl⟩ := List.mem_map.mp hleft
    exact weight_le_ten worker stops
  have hsum := List.sum_le_card_nsmul _ 10 hle
  rw [List.length_map, Nat.nsmul_eq_mul] at hsum
  omega

-- A worker that has left, or sleeps, takes no turn.
theorem stepWorker_none {pool : ThreadPool Task} {i : Nat} {worker : Worker Task}
    (hget : pool.workers[i]? = some worker) (hrests : worker = .exited ∨ worker = .asleep) :
    pool.stepWorker i = none := by
  unfold ThreadPool.stepWorker
  rcases hrests with rfl | rfl
  · rw [hget]
  · rw [hget]

-- A worker's turn changes its own place, and it may take the first task.
theorem stepWorker_cases {pool next : ThreadPool Task} {i : Nat} (hstep : pool.stepWorker i = some next) :
    ∃ old new tasks, pool.workers[i]? = some old ∧ next = { pool.setWorker i new with tasks := tasks } ∧
      3 * tasks.length + weight pool.shouldStop new < 3 * pool.tasks.length + weight pool.shouldStop old := by
  unfold ThreadPool.stepWorker at hstep
  split at hstep
  · rename_i hworker
    cases hstep
    refine ⟨.deciding, _, pool.tasks, hworker, rfl, ?_⟩
    cases pool.shouldStop <;> simp [weight]
  · rename_i hworker
    split at hstep
    · cases hstep
    cases hstep
    unfold ThreadPool.fetchTask
    cases hstops : pool.shouldStop with
    | true => exact ⟨.looking, .deciding, pool.tasks, hworker, rfl, by simp [weight]⟩
    | false =>
        cases htasks : pool.tasks with
        | nil => exact ⟨.looking, .waiting, [], hworker, by simp [ThreadPool.setWorker, htasks], by simp [weight]⟩
        | cons task tasks => exact ⟨.looking, .running task, tasks, hworker, rfl, by simp [weight]; omega⟩
  · rename_i hworker
    cases hstep
    refine ⟨.waiting, .asleep, pool.tasks, hworker, rfl, ?_⟩
    cases pool.shouldStop <;> simp [weight]
  · rename_i task hworker
    cases hstep
    refine ⟨.running task, .deciding, pool.tasks, hworker, rfl, ?_⟩
    cases pool.shouldStop <;> simp [weight]
  · cases hstep

theorem stepWorker_shouldStop {pool next : ThreadPool Task} {i : Nat} (hstep : pool.stepWorker i = some next) :
    next.stop = pool.stop ∧ next.workers.length = pool.workers.length ∧ next.shouldStop = pool.shouldStop := by
  obtain ⟨old, new, tasks, -, rfl, -⟩ := stepWorker_cases hstep
  simp [ThreadPool.setWorker, ThreadPool.shouldStop]

-- The flag is set before anybody is notified.
def Flagged (s : Stopping Task) : Prop := s.caller = .entered ∨ s.pool.stop = true

theorem shouldStop_of_stop {pool : ThreadPool Task} (h : pool.stop = true) : pool.shouldStop = true := by
  rw [ThreadPool.shouldStop, h, Bool.true_or]

theorem flagged_step : Transition.Keeps (step : Stopping Task → Turn → _) Flagged := by
  intro s turn next hflagged hstep
  obtain ⟨pool, caller⟩ := s
  cases turn with
  | worker i =>
      obtain ⟨after, hafter, rfl⟩ := Option.map_eq_some_iff.mp hstep
      unfold Flagged at hflagged ⊢
      rw [(stepWorker_shouldStop hafter).1]
      exact hflagged
  | caller =>
      cases caller with
      | entered =>
          cases hstep
          exact .inr rfl
      | stored =>
          cases hstep
          exact .inr (hflagged.resolve_left (by simp))
      | joining i =>
          have hstop := hflagged.resolve_left (by simp)
          simp only [step, stepCaller] at hstep
          split at hstep
          · cases hstep
            exact .inr hstop
          · cases hstep
            exact .inr hstop
          · cases hstep
      | returned => cases hstep

theorem measure_step (s : Stopping Task) (turn : Turn) (next : Stopping Task) (hflagged : s.Flagged)
    (hstep : s.step turn = some next) : measure next < measure s := by
  obtain ⟨pool, caller⟩ := s
  cases turn with
  | worker i =>
      obtain ⟨after, hafter, rfl⟩ := Option.map_eq_some_iff.mp hstep
      change pool.stepWorker i = some after at hafter
      have hstops := (stepWorker_shouldStop hafter).2.2
      obtain ⟨old, new, tasks, hold, rfl, hless⟩ := stepWorker_cases hafter
      have hsum := Slots.sum_map_set (weight pool.shouldStop) hold new
      simp only [measure, hstops]
      simp only [ThreadPool.setWorker, List.length_set]
      omega
  | caller =>
      cases caller with
      | entered =>
          cases hstep
          have hle := List.sum_le_sum fun worker (_ : worker ∈ pool.workers) => weight_le worker pool.shouldStop
          simp only [measure, callerLeft, shouldStop_of_stop]
          omega
      | stored =>
          cases hstep
          have hstop : pool.stop = true := hflagged.resolve_left (by simp)
          have hstop' : pool.notifyAll.stop = true := hstop
          have hle := List.sum_le_sum fun worker (_ : worker ∈ pool.workers) => weight_wake_le worker
          simp only [measure, callerLeft, shouldStop_of_stop hstop, shouldStop_of_stop hstop']
          simp only [ThreadPool.notifyAll, List.length_map, List.map_map, Function.comp_def]
          omega
      | joining i =>
          simp only [step, stepCaller] at hstep
          split at hstep
          · rename_i hend
            have hle := List.getElem?_eq_none_iff.mp hend
            cases hstep
            simp only [measure, callerLeft, List.map_nil, List.sum_nil]
            omega
          · rename_i hexited
            have hlt := (List.getElem?_eq_some_iff.mp hexited).1
            cases hstep
            simp only [measure, callerLeft]
            omega
          · cases hstep
      | returned => cases hstep

end Termination

section Returns

variable {s next : Stopping Task} {pool : ThreadPool Task}

-- Nobody is between its look at the queue and its sleep, and once the flag is set
-- those that sleep are woken.
def Fine (s : Stopping Task) : Prop :=
  match s.caller with
  | .entered => s.pool.isLocked = false ∧
      (s.pool.shouldStop = true ∨ ∀ worker ∈ s.pool.workers, worker = .exited ∨ worker = .asleep)
  | .stored => s.pool.stop = true ∧ s.pool.isLocked = false
  | .joining _ => s.pool.stop = true ∧ ∀ worker ∈ s.pool.workers, worker.isResting = false
  | .returned => s.pool.workers = []

theorem isLocked_eq_false : pool.isLocked = false ↔ ∀ worker ∈ pool.workers, worker.isWaiting = false := by
  simp [ThreadPool.isLocked]

-- The mutex is held by a worker that waits with it.
theorem exists_waiting_of_isLocked (h : ¬ pool.isLocked = false) : ∃ i : Nat, pool.workers[i]? = some .waiting := by
  obtain ⟨worker, hworker, hwaits⟩ := List.any_eq_true.mp (Bool.of_not_eq_false h)
  obtain ⟨i, hi⟩ := List.mem_iff_getElem?.mp hworker
  cases worker with
  | waiting => exact ⟨i, hi⟩
  | _ => cases hwaits

-- A worker that is told to leave does not wait again.
theorem stepWorker_stops {after : ThreadPool Task} {i : Nat} (hstops : pool.shouldStop = true)
    (hfree : pool.isLocked = false) (hstep : pool.stepWorker i = some after) :
    ∃ new, after = pool.setWorker i new ∧ new.isResting = false := by
  unfold ThreadPool.stepWorker at hstep
  split at hstep
  · cases hstep
    rw [hstops]
    exact ⟨.exited, rfl, rfl⟩
  · rw [if_neg (by simp [hfree])] at hstep
    cases hstep
    unfold ThreadPool.fetchTask
    rw [if_pos hstops]
    exact ⟨.deciding, rfl, rfl⟩
  · rename_i hworker
    have hwaits := isLocked_eq_false.mp hfree _ (List.mem_of_getElem? hworker)
    cases hwaits
  · cases hstep
    exact ⟨.deciding, rfl, rfl⟩
  · cases hstep

theorem forall_setWorker {P : Worker Task → Prop} {i : Nat} {new : Worker Task}
    (h : ∀ worker ∈ pool.workers, P worker) (hnew : P new) : ∀ worker ∈ (pool.setWorker i new).workers, P worker := by
  intro worker hworker
  rcases List.mem_or_eq_of_mem_set hworker with hold | rfl
  · exact h worker hold
  · exact hnew

theorem isWaiting_of_isResting {worker : Worker Task} (h : worker.isResting = false) : worker.isWaiting = false := by
  cases worker with
  | waiting => cases h
  | _ => rfl

theorem fine_worker {after : ThreadPool Task} {i : Nat} {caller : Caller} (hfine : Fine ⟨pool, caller⟩)
    (hstep : pool.stepWorker i = some after) : Fine ⟨after, caller⟩ := by
  have hkept := stepWorker_shouldStop hstep
  have hstops : pool.shouldStop = true → pool.isLocked = false → after.isLocked = false := by
    intro hstops hfree
    obtain ⟨new, rfl, hnew⟩ := stepWorker_stops hstops hfree hstep
    exact isLocked_eq_false.mpr (forall_setWorker (isLocked_eq_false.mp hfree) (isWaiting_of_isResting hnew))
  cases caller with
  | entered =>
      obtain ⟨hfree, hstop | hleft⟩ := hfine
      · exact ⟨hstops hstop hfree, .inl (hkept.2.2.trans hstop)⟩
      · obtain ⟨old, new, tasks, hold, -, -⟩ := stepWorker_cases hstep
        rw [stepWorker_none hold (hleft old (List.mem_of_getElem? hold))] at hstep
        cases hstep
  | stored =>
      obtain ⟨hstop, hfree⟩ := hfine
      exact ⟨hkept.1.trans hstop, hstops (shouldStop_of_stop hstop) hfree⟩
  | joining k =>
      obtain ⟨hstop, hrests⟩ := hfine
      have hfree := isLocked_eq_false.mpr fun worker hworker => isWaiting_of_isResting (hrests worker hworker)
      obtain ⟨new, rfl, hnew⟩ := stepWorker_stops (shouldStop_of_stop hstop) hfree hstep
      exact ⟨hstop, forall_setWorker hrests hnew⟩
  | returned =>
      have hempty : pool.workers = [] := hfine
      simp [ThreadPool.stepWorker, hempty] at hstep

theorem fine_step : Transition.Keeps (step : Stopping Task → Turn → _) Fine := by
  intro s turn next hfine hstep
  obtain ⟨pool, caller⟩ := s
  cases turn with
  | worker i =>
      obtain ⟨after, hafter, rfl⟩ := Option.map_eq_some_iff.mp hstep
      exact fine_worker hfine hafter
  | caller =>
      cases caller with
      | entered =>
          cases hstep
          exact ⟨rfl, hfine.1⟩
      | stored =>
          cases hstep
          obtain ⟨hstop, hfree⟩ := hfine
          refine ⟨hstop, fun worker hworker => ?_⟩
          obtain ⟨other, hother, rfl⟩ := List.mem_map.mp hworker
          have hwaits := isLocked_eq_false.mp hfree other hother
          cases other with
          | waiting => cases hwaits
          | _ => rfl
      | joining i =>
          simp only [step, stepCaller] at hstep
          split at hstep
          · cases hstep
            exact rfl
          · cases hstep
            exact hfine
          · cases hstep
      | returned => cases hstep

-- Where nobody can take a turn, the worker that the caller joins sleeps.
theorem asleep_of_stuck (hstuck : s.Stuck) {k : Nat} (hcaller : s.caller = .joining k)
    (hlt : k < s.pool.workers.length) : s.pool.workers[k]? = some .asleep := by
  have hjoin := hstuck .caller
  have hfree : s.pool.isLocked = false := by
    apply isLocked_eq_false.mpr
    intro worker hworker
    obtain ⟨i, hi⟩ := List.mem_iff_getElem?.mp hworker
    have hstep := hstuck (.worker i)
    cases worker with
    | waiting => simp [step, ThreadPool.stepWorker, hi] at hstep
    | _ => rfl
  have hget := List.getElem?_eq_getElem hlt
  have hworker := hstuck (.worker k)
  simp only [step, stepCaller, hcaller, ThreadPool.stepWorker, hget, Option.map_eq_none_iff] at hjoin hworker
  rw [hget]
  cases hold : s.pool.workers[k] with
  | asleep => rfl
  | exited => simp [hold] at hjoin
  | looking => simp [hold, hfree] at hworker
  | waiting => simp [hold] at hworker
  | deciding => simp [hold] at hworker
  | running task => simp [hold] at hworker

-- Where nobody can take a turn the workers have left, and the call has returned.
theorem returned_of_stuck (hfine : s.Fine) (hstuck : s.Stuck) : s.caller = .returned := by
  have hjoin := hstuck .caller
  cases hcaller : s.caller with
  | entered => simp [step, stepCaller, hcaller] at hjoin
  | stored => simp [step, stepCaller, hcaller] at hjoin
  | joining k =>
      unfold Fine at hfine
      rw [hcaller] at hfine
      by_cases hlt : k < s.pool.workers.length
      · have hasleep := asleep_of_stuck hstuck hcaller hlt
        have hrests := hfine.2 _ (List.mem_of_getElem? hasleep)
        cases hrests
      · have hnone := List.getElem?_eq_none_iff.mpr (Nat.le_of_not_lt hlt)
        simp [step, stepCaller, hcaller, hnone] at hjoin
  | returned => rfl

end Returns

section Hangs

variable {s next : Stopping Task} {pool : ThreadPool Task} {i : Nat}

-- A worker has gone to sleep after the notification, and the caller joins it.
def Lost (i : Nat) (s : Stopping Task) : Prop :=
  s.pool.workers[i]? = some .asleep ∧ s.Flagged ∧ ∃ k ≤ i, s.caller = .joining k

theorem lost_step (i : Nat) : Transition.Keeps (step : Stopping Task → Turn → _) (Lost i) := by
  intro s turn next hlost hstep
  obtain ⟨hasleep, hflagged, k, hle, hcaller⟩ := hlost
  have hflagged' := flagged_step s turn next hflagged hstep
  obtain ⟨pool, caller⟩ := s
  obtain rfl : caller = .joining k := hcaller
  have hget : pool.workers[i]? = some .asleep := hasleep
  cases turn with
  | worker j =>
      obtain ⟨after, hafter, rfl⟩ := Option.map_eq_some_iff.mp hstep
      change pool.stepWorker j = some after at hafter
      obtain ⟨old, new, tasks, hold, rfl, -⟩ := stepWorker_cases hafter
      have hne : j ≠ i := by
        rintro rfl
        rw [stepWorker_none hget (.inr rfl)] at hafter
        cases hafter
      refine ⟨?_, hflagged', k, hle, rfl⟩
      simp only [ThreadPool.setWorker, List.getElem?_set_ne hne, hget]
  | caller =>
      simp only [step, stepCaller] at hstep
      split at hstep
      · rename_i hend
        have hlen := List.getElem?_eq_none_iff.mp hend
        have hlt := (List.getElem?_eq_some_iff.mp hget).1
        omega
      · rename_i hexited
        have hne : k ≠ i := by
          rintro rfl
          cases hget.symm.trans hexited
        cases hstep
        exact ⟨hget, hflagged', k + 1, by omega, rfl⟩
      · cases hstep

-- Some order of the turns leaves a worker asleep and the caller in its join for ever.
def Hangs (s : Stopping Task) : Prop :=
  ∃ moves last k, Transition.run step s moves = some last ∧ last.Stuck ∧ last.caller = .joining k ∧
    last.pool.workers[k]? = some .asleep

theorem hangs_of_lost (hlost : s.Lost i) : s.Hangs := by
  obtain ⟨moves, last, hrun, ⟨hasleep, -, k, hle, hcaller⟩, hstuck⟩ := Transition.exists_stuck (lost_step i) measure
    (fun s turn next hlost hstep => measure_step s turn next hlost.2.1 hstep) hlost
  have hlt := (List.getElem?_eq_some_iff.mp hasleep).1
  exact ⟨moves, last, k, hrun, hstuck, hcaller, asleep_of_stuck hstuck hcaller (Nat.lt_of_le_of_lt hle hlt)⟩

theorem Hangs.of_run {moves : List Turn} (hrun : Transition.run step s moves = some next) (hhangs : next.Hangs) :
    s.Hangs := by
  obtain ⟨more, last, k, hmore, hstuck, hcaller, hasleep⟩ := hhangs
  exact ⟨moves ++ more, last, k, by rw [Transition.run_append, hrun]; exact hmore, hstuck, hcaller, hasleep⟩

-- The worker that waits with the mutex is not notified, and sleeps afterwards.
theorem hangs_of_waiting (hwaits : pool.workers[i]? = some .waiting) : (start pool).Hangs := by
  let told : ThreadPool Task := { pool with stop := true }
  let after : ThreadPool Task := told.notifyAll.setWorker i .asleep
  have hget : told.notifyAll.workers[i]? = some .waiting := by
    simp [told, ThreadPool.notifyAll, hwaits, Worker.wake]
  have hlt := (List.getElem?_eq_some_iff.mp hget).1
  have hworker : step ⟨told.notifyAll, .joining 0⟩ (.worker i) = some ⟨after, .joining 0⟩ := by
    simp only [step, ThreadPool.stepWorker, hget, Option.map_some]
    rfl
  have hlost : Lost i ⟨after, .joining 0⟩ := by
    refine ⟨?_, .inr rfl, 0, Nat.zero_le i, rfl⟩
    simp [after, ThreadPool.setWorker, List.getElem?_set_self hlt]
  have hentered : step (start pool) .caller = some ⟨told, .stored⟩ := rfl
  have hstored : step ⟨told, .stored⟩ .caller = some ⟨told.notifyAll, .joining 0⟩ := rfl
  have hrun : Transition.run step (start pool) [.caller, .caller, .worker i] = some ⟨after, .joining 0⟩ := by
    rw [Transition.run_cons hentered, Transition.run_cons hstored, Transition.run_cons hworker, Transition.run]
  exact (hangs_of_lost hlost).of_run hrun

-- A worker that is awake comes to wait before it is told to leave.
theorem exists_waiting {worker : Worker Task} (hstops : pool.shouldStop = false) (hget : pool.workers[i]? = some worker)
    (hexited : worker ≠ .exited) (hasleep : worker ≠ .asleep) :
    ∃ moves, ∃ after : ThreadPool Task, ∃ j : Nat, Transition.run step (start pool) moves = some (start after) ∧
      after.workers[j]? = some .waiting := by
  induction hn : measure (start pool) using Nat.strongRecOn generalizing pool worker with
  | ind n ih =>
      by_cases hfree : pool.isLocked = false
      · -- nobody else has the mutex, so that this worker can go on
        have hgo : ∃ after new, pool.stepWorker i = some after ∧ after.workers[i]? = some new ∧ new ≠ .exited ∧
            new ≠ .asleep := by
          have hlt := (List.getElem?_eq_some_iff.mp hget).1
          cases worker with
          | exited => exact absurd rfl hexited
          | asleep => exact absurd rfl hasleep
          | waiting =>
              have hnone := isLocked_eq_false.mp hfree _ (List.mem_of_getElem? hget)
              cases hnone
          | deciding =>
              refine ⟨pool.setWorker i .looking, .looking, ?_, List.getElem?_set_self hlt, by simp, by simp⟩
              simp [ThreadPool.stepWorker, hget, hstops]
          | running task =>
              refine ⟨pool.setWorker i .deciding, .deciding, ?_, List.getElem?_set_self hlt, by simp, by simp⟩
              simp [ThreadPool.stepWorker, hget]
          | looking =>
              have hstep : pool.stepWorker i = some (pool.fetchTask i) := by
                simp [ThreadPool.stepWorker, hget, hfree]
              cases htasks : pool.tasks with
              | nil =>
                  refine ⟨_, .waiting, hstep, ?_, by simp, by simp⟩
                  simp [ThreadPool.fetchTask, hstops, htasks, ThreadPool.setWorker, hlt]
              | cons task tasks =>
                  refine ⟨_, .running task, hstep, ?_, by simp, by simp⟩
                  simp [ThreadPool.fetchTask, hstops, htasks, ThreadPool.setWorker, hlt]
        obtain ⟨after, new, hstep, hnew, hnotExited, hnotAsleep⟩ := hgo
        have hturn : step (start pool) (.worker i) = some (start after) := by
          simp only [step, start, hstep, Option.map_some]
        have hless := measure_step (start pool) (.worker i) (start after) (.inl rfl) hturn
        have hstops' := (stepWorker_shouldStop hstep).2.2.trans hstops
        obtain ⟨moves, last, j, hrun, hwaits⟩ := ih _ (by omega) hstops' hnew hnotExited hnotAsleep rfl
        exact ⟨.worker i :: moves, last, j, by rw [Transition.run_cons hturn, hrun], hwaits⟩
      · obtain ⟨j, hj⟩ := exists_waiting_of_isLocked hfree
        exact ⟨[], pool, j, rfl, hj⟩

end Hangs

-- No worker is between its look at the queue and its sleep, and none comes there any
-- more, because each sleeps, has left, or is told to leave already.
def Settled (pool : ThreadPool Task) : Prop :=
  pool.isLocked = false ∧
    (pool.shouldStop = true ∨ ∀ worker ∈ pool.workers, worker = .exited ∨ worker = .asleep)

theorem hangs_of_not_settled {pool : ThreadPool Task} (hnot : ¬ Settled pool) : (start pool).Hangs := by
  by_cases hfree : pool.isLocked = false
  · have hawake : ¬ (pool.shouldStop = true ∨ ∀ worker ∈ pool.workers, worker = .exited ∨ worker = .asleep) :=
      fun hleft => hnot ⟨hfree, hleft⟩
    simp only [not_or, not_forall, Bool.not_eq_true] at hawake
    obtain ⟨hstops, worker, hworker, hexited, hasleep⟩ := hawake
    obtain ⟨i, hi⟩ := List.mem_iff_getElem?.mp hworker
    obtain ⟨moves, after, j, hrun, hwaits⟩ := exists_waiting hstops hi hexited hasleep
    exact (hangs_of_waiting hwaits).of_run hrun
  · obtain ⟨i, hi⟩ := exists_waiting_of_isLocked hfree
    exact hangs_of_waiting hi

-- The turns after a call of stop come to an end. They end with its return in every
-- order in which the caller and the workers take them, if and only if the pool is
-- settled; if it is not, some order ends with the caller in the join of a worker that
-- sleeps.
theorem stop_returns_iff (pool : ThreadPool Task) :
    (∀ moves last, Transition.run step (start pool) moves = some last →
      moves.length ≤ 3 * pool.tasks.length + 11 * pool.workers.length + 4) ∧
    ((∀ moves last, Transition.run step (start pool) moves = some last → last.Stuck → last.caller = .returned) ↔
      Settled pool) ∧
    (¬ Settled pool → ∃ moves last k, Transition.run step (start pool) moves = some last ∧ last.Stuck ∧
      last.caller = .joining k ∧ last.pool.workers[k]? = some .asleep) := by
  refine ⟨fun moves last hrun => ?_, ⟨fun hreturns => ?_, fun hsettled moves last hrun hstuck => ?_⟩,
    hangs_of_not_settled⟩
  · have hstart : Flagged (start pool) := .inl rfl
    have hlength := Transition.length_le flagged_step measure (fun _ => 0) measure_step hstart hrun
    have hweights := sum_weight_bound pool.workers pool.shouldStop
    have hadds : (moves.map fun _ => 0).sum = 0 := by simp
    rw [hadds] at hlength
    simp only [measure, start, callerLeft] at hlength
    omega
  · by_contra hnot
    obtain ⟨moves, last, k, hrun, hstuck, hcaller, -⟩ := hangs_of_not_settled hnot
    have hreturned := hreturns moves last hrun hstuck
    rw [hcaller] at hreturned
    cases hreturned
  · have hstart : Fine (start pool) := hsettled
    exact returned_of_stuck (fine_step.run hstart hrun) hstuck

end Stopping

end CloudLabs.TcpServer
