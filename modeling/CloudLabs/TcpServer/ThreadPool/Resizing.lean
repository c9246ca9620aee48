import CloudLabs.TcpServer.ThreadPool
import Mathlib.Data.List.Chain

namespace CloudLabs.TcpServer

open Interaction

namespace Worker

variable {Task : Type}

theorem wake_isLive (worker : Worker Task) : worker.wake.isLive = worker.isLive := by
  cases worker <;> rfl

theorem wake_isResting (worker : Worker Task) : worker.wake.isResting = worker.isWaiting := by
  cases worker <;> rfl

theorem isResting_of_isWaiting {worker : Worker Task} (h : worker.isWaiting = true) :
    worker.isResting = true := by
  cases worker with
  | waiting => rfl
  | _ => cases h

end Worker

namespace ThreadPool

variable {Task : Type} {pool next : ThreadPool Task} {move : Move Task}

-- Outside of set_thread_num there are as many workers as it has asked for, and one
-- of them is on its way to the task that is queued.
def KeepsWorkers (pool : ThreadPool Task) : Prop :=
  pool.resize = .idle → pool.threadNum ≤ pool.live.length ∧
    (pool.tasks ≠ [] → pool.threadNum ≠ 0 →
      ∃ worker ∈ pool.live, worker.isResting = false)

def Move.size? : Move Task → Option Nat
  | .setThreadNum num => some num
  | _ => none

-- The arguments of the calls of set_thread_num.
def sizes (moves : List (Move Task)) : List Nat := moves.filterMap Move.size?

-- A pool that was never made smaller.
structure Staffed (pool : ThreadPool Task) : Prop where
  running : pool.stop = false
  live : ∀ worker ∈ pool.workers, worker.isLive = true
  bounded : pool.workers.length ≤ pool.threadNum
  full : pool.resize = .idle → pool.workers.length = pool.threadNum
  rested : ∀ worker ∈ pool.workers, worker.isResting = true → pool.tasks = []

theorem staffed_create (k : Nat) : (create k : ThreadPool Task).Staffed where
  running := rfl
  live := fun worker hworker => by rw [List.eq_of_mem_replicate hworker]; rfl
  bounded := Nat.le_of_eq List.length_replicate
  full := fun _ => List.length_replicate
  rested := fun worker hworker hrests => by
    rw [List.eq_of_mem_replicate hworker] at hrests
    cases hrests

section Steps

theorem Staffed.shouldStop (h : pool.Staffed) : pool.shouldStop = false := by
  have hbounded := h.bounded
  unfold ThreadPool.shouldStop
  rw [h.running, decide_eq_false (by omega)]
  rfl

-- One worker goes on, and the queue does not grow.
theorem Staffed.setWorker (h : pool.Staffed) {i : Nat} (worker : Worker Task) (tasks : List Task)
    (hlive : worker.isLive = true) (hrests : worker.isResting = true → tasks = [])
    (htasks : pool.tasks = [] → tasks = []) :
    Staffed { pool.setWorker i worker with tasks := tasks } where
  running := h.running
  live := fun other hother => by
    rcases List.mem_or_eq_of_mem_set hother with hold | rfl
    · exact h.live other hold
    · exact hlive
  bounded := by
    have hbounded := h.bounded
    simpa [ThreadPool.setWorker] using hbounded
  full := fun hidle => by
    have hfull := h.full hidle
    simpa [ThreadPool.setWorker] using hfull
  rested := fun other hother hresting => by
    rcases List.mem_or_eq_of_mem_set hother with hold | rfl
    · exact htasks (h.rested other hold hresting)
    · exact hrests hresting

-- A notification reaches who is asleep, and leaves who waits with the mutex.
theorem Staffed.notifyAll (h : pool.Staffed) {tasks : List Task} (resize : Resize)
    (hfull : resize = .idle → pool.workers.length = pool.threadNum)
    (hwaiting : ∀ worker ∈ pool.workers, worker.isWaiting = true → tasks = []) :
    ({ pool with tasks := tasks, resize := resize }.notifyAll).Staffed where
  running := h.running
  live := fun worker hworker => by
    obtain ⟨other, hother, rfl⟩ := List.mem_map.mp hworker
    rw [Worker.wake_isLive]
    exact h.live other hother
  bounded := by
    have hbounded := h.bounded
    simpa [ThreadPool.notifyAll] using hbounded
  full := fun hidle => by simpa [ThreadPool.notifyAll] using hfull hidle
  rested := fun worker hworker hrests => by
    obtain ⟨other, hother, rfl⟩ := List.mem_map.mp hworker
    rw [Worker.wake_isResting] at hrests
    exact hwaiting other hother hrests

theorem Staffed.stepResize (h : pool.Staffed) (hstep : pool.stepResize = some next) :
    next.Staffed ∧ next.threadNum = pool.threadNum := by
  have hbounded := h.bounded
  unfold ThreadPool.stepResize at hstep
  split at hstep
  · cases hstep
  · split at hstep
    · cases hstep
      exact ⟨⟨h.running, h.live, h.bounded, fun hidle => (by cases hidle), h.rested⟩, rfl⟩
    · rename_i hlarge
      cases hstep
      have hfull : pool.workers.length = pool.threadNum := by omega
      refine ⟨h.notifyAll .idle (fun _ => hfull) fun worker hworker hwaits => ?_, rfl⟩
      exact h.rested worker hworker (Worker.isResting_of_isWaiting hwaits)
  · split at hstep
    · rename_i hresize hsmall
      cases hstep
      refine ⟨⟨h.running, fun worker hworker => ?_, ?_, fun hidle => ?_, fun worker hworker hrests => ?_⟩, rfl⟩
      · rcases List.mem_append.mp hworker with hold | hnew
        · exact h.live worker hold
        · rw [List.mem_singleton.mp hnew]
          rfl
      · rw [List.length_append, List.length_singleton]
        exact hsmall
      · rw [hresize] at hidle
        cases hidle
      · rcases List.mem_append.mp hworker with hold | hnew
        · exact h.rested worker hold hrests
        · rw [List.mem_singleton.mp hnew] at hrests
          cases hrests
    · rename_i hlarge
      cases hstep
      have hfull : pool.workers.length = pool.threadNum := by omega
      exact ⟨⟨h.running, h.live, h.bounded, fun _ => hfull, h.rested⟩, rfl⟩

theorem Staffed.addTask (h : pool.Staffed) {task : Task} (hstep : pool.addTask task = some next) :
    next.Staffed ∧ next.threadNum = pool.threadNum := by
  unfold ThreadPool.addTask at hstep
  split at hstep
  · cases hstep
  rename_i hlocked
  cases hstep
  refine ⟨h.notifyAll pool.resize h.full fun worker hworker hwaits => ?_, rfl⟩
  exact absurd (List.any_eq_true.mpr ⟨worker, hworker, hwaits⟩) hlocked

theorem Staffed.fetchTask (h : pool.Staffed) (i : Nat) : (pool.fetchTask i).Staffed := by
  unfold ThreadPool.fetchTask
  rw [h.shouldStop, if_neg Bool.false_ne_true]
  split
  · rename_i hempty
    exact h.setWorker .waiting pool.tasks rfl (fun _ => hempty) id
  · rename_i task tasks htasks
    exact h.setWorker (.running task) tasks rfl (fun hrests => by cases hrests)
      fun hempty => by rw [htasks] at hempty; cases hempty

theorem Staffed.stepWorker (h : pool.Staffed) {i : Nat} (hstep : pool.stepWorker i = some next) :
    next.Staffed := by
  unfold ThreadPool.stepWorker at hstep
  split at hstep
  · rw [h.shouldStop, if_neg Bool.false_ne_true] at hstep
    cases hstep
    exact h.setWorker .looking pool.tasks rfl (fun hrests => by cases hrests) id
  · split at hstep
    · cases hstep
    · cases hstep
      exact h.fetchTask i
  · rename_i hworker
    cases hstep
    have hempty := h.rested _ (List.mem_of_getElem? hworker) rfl
    exact h.setWorker .asleep pool.tasks rfl (fun _ => hempty) id
  · cases hstep
    exact h.setWorker .deciding pool.tasks rfl (fun hrests => by cases hrests) id
  · cases hstep

theorem fetchTask_threadNum (pool : ThreadPool Task) (i : Nat) :
    (pool.fetchTask i).threadNum = pool.threadNum := by
  unfold ThreadPool.fetchTask
  split
  · rfl
  · split <;> rfl

theorem stepWorker_threadNum {i : Nat} (hstep : pool.stepWorker i = some next) :
    next.threadNum = pool.threadNum := by
  unfold ThreadPool.stepWorker at hstep
  split at hstep
  · cases hstep
    rfl
  · split at hstep
    · cases hstep
    · cases hstep
      exact fetchTask_threadNum pool i
  · cases hstep
    rfl
  · cases hstep
    rfl
  · cases hstep

-- The number only changes in set_thread_num.
theorem Staffed.step (h : pool.Staffed) (hstep : pool.step move = some next)
    (hsize : ∀ num, move.size? = some num → pool.threadNum ≤ num) :
    next.Staffed ∧ next.threadNum = move.size?.getD pool.threadNum := by
  cases move with
  | setThreadNum num =>
      have hle := hsize num rfl
      have hbounded := h.bounded
      simp only [ThreadPool.step, ThreadPool.setThreadNum] at hstep
      split at hstep
      · cases hstep
        exact ⟨⟨h.running, h.live, Nat.le_trans hbounded hle, fun hidle => (by cases hidle), h.rested⟩, rfl⟩
      · cases hstep
  | resize => exact h.stepResize hstep
  | addTask task => exact h.addTask hstep
  | worker i => exact ⟨h.stepWorker hstep, stepWorker_threadNum hstep⟩
  | spurious i =>
      simp only [ThreadPool.step] at hstep
      split at hstep
      · cases hstep
        exact ⟨h.setWorker .looking pool.tasks rfl
          (fun hrests => by cases hrests) id, rfl⟩
      · cases hstep

theorem Staffed.keepsWorkers (h : pool.Staffed) : pool.KeepsWorkers := by
  intro hidle
  have hlive : pool.live = pool.workers := List.filter_eq_self.mpr h.live
  have hfull := h.full hidle
  rw [hlive]
  refine ⟨by omega, fun htasks hnum => ?_⟩
  obtain ⟨worker, hworker⟩ := List.exists_mem_of_length_pos (l := pool.workers) (by omega)
  refine ⟨worker, hworker, ?_⟩
  by_contra hrests
  exact htasks (h.rested worker hworker (Bool.of_not_eq_false hrests))

end Steps

section Runs

-- By induction on the run: each call asks for at least what the call before it did.
theorem Staffed.run {moves : List (Move Task)} (h : pool.Staffed)
    (hrun : Transition.run ThreadPool.step pool moves = some next)
    (hsizes : (pool.threadNum :: sizes moves).IsChain (· ≤ ·)) : next.Staffed := by
  induction moves generalizing pool with
  | nil => exact Option.some.inj hrun ▸ h
  | cons move moves ih =>
      obtain ⟨mid, hstep, hrest⟩ := Option.bind_eq_some_iff.mp hrun
      unfold sizes at hsizes
      cases hsize : move.size? with
      | none =>
          rw [List.filterMap_cons_none hsize] at hsizes
          obtain ⟨hmid, hnum⟩ := h.step hstep fun num hnum => by rw [hsize] at hnum; cases hnum
          rw [hsize] at hnum
          exact ih hmid hrest (by rw [hnum]; exact hsizes)
      | some num =>
          rw [List.filterMap_cons_some hsize] at hsizes
          obtain ⟨hle, hlater⟩ := List.isChain_cons_cons.mp hsizes
          obtain ⟨hmid, hnum⟩ := h.step hstep fun other hother => by
            rw [hsize] at hother
            cases hother
            exact hle
          rw [hsize] at hnum
          exact ih hmid hrest (by rw [hnum]; exact hlater)

-- A pool whose workers have not looked at anything yet.
def untouched (k num : Nat) (resize : Resize) : ThreadPool Task :=
  ⟨List.replicate k .deciding, false, num, [], resize⟩

theorem step_setThreadNum (k num : Nat) :
    step (create k : ThreadPool Task) (.setThreadNum num) = some (untouched k num .compare) := rfl

theorem step_compare_lt {k num : Nat} (h : k < num) :
    step (untouched k num .compare : ThreadPool Task) .resize = some (untouched k num .grow) :=
  if_pos (by simpa [untouched] using h)

theorem step_compare_ge {k num : Nat} (h : num ≤ k) :
    step (untouched k num .compare : ThreadPool Task) .resize = some (untouched k num .idle) := by
  have hnot : ¬ (untouched k num .compare : ThreadPool Task).workers.length < num := by
    simpa [untouched] using h
  have hwake : (List.replicate k .deciding : List (Worker Task)).map Worker.wake =
      List.replicate k .deciding := List.map_replicate
  refine (if_neg hnot).trans ?_
  simp only [untouched, notifyAll, hwake]

-- The loop that starts the missing workers.
theorem run_grow (k missing : Nat) :
    Transition.run step (untouched k (k + missing) .grow : ThreadPool Task)
      (List.replicate (missing + 1) .resize) = some (create (k + missing)) := by
  induction missing generalizing k with
  | zero =>
      have hstep : step (untouched k k .grow : ThreadPool Task) .resize = some (create k) :=
        if_neg (by simp [untouched])
      exact Transition.run_cons hstep []
  | succ missing ih =>
      have hpush : step (untouched k (k + (missing + 1)) .grow : ThreadPool Task) .resize =
          some (untouched (k + 1) (k + 1 + missing) .grow) := by
        refine (if_pos (by simp [untouched])).trans ?_
        simp only [untouched, List.replicate_succ']
        rw [Nat.add_right_comm, Nat.add_assoc]
      have hnum : k + 1 + missing = k + (missing + 1) := by omega
      have hrest := ih (k + 1)
      rw [List.replicate_succ, Transition.run_cons hpush, hrest, hnum]

theorem exists_run_grow (Task : Type) {k num : Nat} (hle : k ≤ num) :
    ∃ moves : List (Move Task), sizes moves = [num] ∧
      Transition.run step (create k) moves = some (create num) := by
  by_cases hlt : k < num
  · obtain ⟨missing, rfl⟩ := Nat.exists_eq_add_of_le hle
    refine ⟨.setThreadNum (k + missing) :: .resize :: List.replicate (missing + 1) .resize, ?_, ?_⟩
    · simp [sizes, Move.size?]
    · rw [Transition.run_cons (step_setThreadNum k _), Transition.run_cons (step_compare_lt hlt)]
      exact run_grow k missing
  · have heq : k = num := by omega
    subst heq
    refine ⟨[.setThreadNum k, .resize], rfl, ?_⟩
    rw [Transition.run_cons (step_setThreadNum k k), Transition.run_cons (step_compare_ge hle)]
    rfl

-- A pool that some workers have left.
def leaving (left staying num : Nat) : ThreadPool Task :=
  ⟨List.replicate left .exited ++ List.replicate staying .deciding, false, num, [], .idle⟩

-- A worker that has left still counts, so that the next one leaves too.
theorem step_leave {left staying num : Nat} (hlarge : num < left + (staying + 1)) :
    step (leaving left (staying + 1) num : ThreadPool Task) (.worker left) =
      some (leaving (left + 1) staying num) := by
  have hworker : (leaving left (staying + 1) num : ThreadPool Task).workers[left]? = some .deciding := by
    simp [leaving]
  have hset : (leaving left (staying + 1) num : ThreadPool Task).workers.set left .exited =
      (leaving (left + 1) staying num).workers := by
    have hleft : List.replicate (left + 1) (.exited : Worker Task) =
        List.replicate left .exited ++ [.exited] := List.replicate_succ'
    have hstaying : List.replicate (staying + 1) (.deciding : Worker Task) =
        .deciding :: List.replicate staying .deciding := rfl
    simp only [leaving, hleft, hstaying, List.append_assoc, List.singleton_append]
    rw [List.set_append_right _ _ (by simp)]
    simp
  have hstop : (leaving left (staying + 1) num : ThreadPool Task).shouldStop = true := by
    simpa [shouldStop, leaving] using hlarge
  simp only [step, stepWorker, hworker, hstop, if_pos, setWorker, hset]
  rfl

theorem exists_run_leave (Task : Type) (left staying num : Nat) (hlarge : num < left + staying) :
    ∃ moves : List (Move Task), sizes moves = [] ∧
      Transition.run step (leaving left staying num) moves = some (leaving (left + staying) 0 num) := by
  induction staying generalizing left with
  | zero => exact ⟨[], rfl, rfl⟩
  | succ staying ih =>
      obtain ⟨moves, hsizes, hrun⟩ := ih (left + 1) (by omega)
      refine ⟨.worker left :: moves, hsizes, ?_⟩
      rw [Transition.run_cons (step_leave hlarge), hrun]
      congr 2
      omega

theorem leaving_keepsWorkers_false {left num : Nat} (hnum : 1 ≤ num) :
    ¬ (leaving left 0 num : ThreadPool Task).KeepsWorkers := by
  intro hkeeps
  have hle := (hkeeps rfl).1
  have hlive : (leaving left 0 num : ThreadPool Task).live = [] := by
    simp [live, leaving, Worker.isLive]
  rw [hlive] at hle
  have hnum' : num ≤ 0 := hle
  omega

-- Once a call asks for less than the ones before it, everybody can leave.
theorem exists_run_of_shrink (Task : Type) {k : Nat} {ns : List Nat} (hns : ∀ num ∈ ns, 1 ≤ num)
    (hshrinks : ¬ (k :: ns).IsChain (· ≤ ·)) :
    ∃ (moves : List (Move Task)) (pool : ThreadPool Task), sizes moves <+: ns ∧
      Transition.run step (create k) moves = some pool ∧ ¬ pool.KeepsWorkers := by
  induction ns generalizing k with
  | nil => exact absurd (List.IsChain.singleton k) hshrinks
  | cons num ns ih =>
      by_cases hle : k ≤ num
      · have hlater : ¬ (num :: ns).IsChain (· ≤ ·) := fun hchain =>
          hshrinks (List.isChain_cons_cons.mpr ⟨hle, hchain⟩)
        obtain ⟨calls, hsizes, hgrow⟩ := exists_run_grow Task hle
        obtain ⟨moves, pool, hcalls, hrun, hlost⟩ := ih (fun n hn => hns n (by simp [hn])) hlater
        refine ⟨calls ++ moves, pool, ?_, ?_, hlost⟩
        · unfold sizes at hsizes hcalls ⊢
          rw [List.filterMap_append, hsizes]
          simpa using hcalls
        · rw [Transition.run_append, hgrow]
          exact hrun
      · obtain ⟨moves, hsizes, hrun⟩ := exists_run_leave Task 0 k num (by omega)
        refine ⟨.setThreadNum num :: .resize :: moves, leaving (0 + k) 0 num, ?_, ?_,
          leaving_keepsWorkers_false (hns num List.mem_cons_self)⟩
        · have hnum : sizes (.setThreadNum num :: .resize :: moves) = num :: sizes moves := rfl
          rw [hnum, hsizes]
          exact List.prefix_append [num] ns
        · rw [Transition.run_cons (step_setThreadNum k num),
            Transition.run_cons (step_compare_ge (by omega))]
          exact hrun

end Runs

-- In every run the workers stay, if and only if no call of set_thread_num asks for
-- less than the ones before it and the constructor.
theorem keepsWorkers_iff (Task : Type) {k : Nat} {ns : List Nat} (hns : ∀ num ∈ ns, 1 ≤ num) :
    (∀ (moves : List (Move Task)) (pool : ThreadPool Task), sizes moves <+: ns →
      Transition.run step (create k) moves = some pool → pool.KeepsWorkers) ↔
    (k :: ns).IsChain (· ≤ ·) := by
  constructor
  · intro hkeeps
    by_contra hshrinks
    obtain ⟨moves, pool, hcalls, hrun, hlost⟩ := exists_run_of_shrink Task hns hshrinks
    exact hlost (hkeeps moves pool hcalls hrun)
  · intro hchain moves pool hcalls hrun
    obtain ⟨rest, rfl⟩ := hcalls
    have hsizes : (k :: sizes moves).IsChain (· ≤ ·) := hchain.left_of_append
    exact ((staffed_create k).run hrun hsizes).keepsWorkers

theorem keepsWorkers_iff_grown :
    (∀ (moves : List (Move Nat)) (pool : ThreadPool Nat), sizes moves <+: [3, 4] →
      Transition.run step (create 2) moves = some pool → pool.KeepsWorkers) ↔
    [2, 3, 4].IsChain (· ≤ ·) :=
  keepsWorkers_iff Nat (by decide)

-- Two workers, where one would be enough: both of them leave, and a task stays.
theorem shrunk_not_keepsWorkers : ∃ pool : ThreadPool Nat,
    Transition.run step (create 2)
      [.setThreadNum 1, .resize, .worker 0, .worker 1, .addTask 7] = some pool ∧
    pool.threadNum = 1 ∧ pool.tasks = [7] ∧ pool.live = [] ∧ ¬ pool.KeepsWorkers := by
  refine ⟨⟨[.exited, .exited], false, 1, [7], .idle⟩, by decide, rfl, rfl, by decide, fun hkeeps => ?_⟩
  exact absurd (hkeeps rfl).1 (by decide)

end ThreadPool

end CloudLabs.TcpServer
