import CloudLabs.Interaction.Program
import CloudLabs.Interaction.Transition

namespace CloudLabs.Interaction

-- A process that serves requests in threads of its own. `exec` carries out one
-- effect; the choice says which of its possible outcomes happens. `recovery`
-- runs when the process starts and `main` afterwards, in one thread; `handler`
-- runs for each request, which may arrive as soon as the process has started.
-- `restart` is what a crash leaves and the next start finds.
structure Service (E : Type) (R : E → Type) (σ χ ρ : Type) where
  exec : σ → (effect : E) → χ → Option (R effect × σ)
  environment : σ → χ → Option σ
  recovery : Program E R Unit
  main : Nat → Program E R Unit
  handler : ρ → Program E R Unit
  restart : σ → Option σ

-- Until the first request arrives or it has recovered, a process is alone with its
-- mutex: it is enough to know whether the mutex is taken.
inductive Phase (E : Type) (R : E → Type) where
  | booting (locked : Bool) (program : Program E R Unit)
  | serving (holder : Option Nat) (threads : List (Program E R Unit))

structure Pool (E : Type) (R : E → Type) (σ : Type) where
  shared : σ
  phase : Phase E R

inductive Move (χ ρ : Type) where
  | advance (thread : Nat) (choice : χ)
  | arrive (request : ρ)
  | early (passes : Nat) (request : ρ)
  | serve (passes : Nat)
  | environment (choice : χ)
  | crash

variable {E : Type} {R : E → Type} {σ χ ρ : Type}

-- How a program runs: alone in its process, inside the mutex or outside of it.
inductive Mode where
  | alone
  | inside
  | outside
  deriving DecidableEq

theorem Mode.alone_ne_outside : Mode.alone ≠ .outside := by decide

theorem Mode.inside_ne_outside : Mode.inside ≠ .outside := by decide

-- How a thread runs while the mutex is held as the holder says.
def Mode.of (holder : Option Nat) (thread : Nat) : Mode :=
  if holder = some thread then .inside else .outside

def Pool.mode (pool : Pool E R σ) (thread : Nat) : Mode :=
  match pool.phase with
  | .booting _ _ => .alone
  | .serving holder _ => .of holder thread

-- The effect that the given thread is about to carry out.
def Pool.next? (pool : Pool E R σ) (thread : Nat) : Option E :=
  match pool.phase with
  | .booting _ program => program.next?
  | .serving _ threads => threads[thread]?.bind Program.next?

-- The mutex is free and the process serves requests.
def Pool.unlocked (pool : Pool E R σ) : Prop :=
  ∃ threads, pool.phase = .serving none threads

namespace Service

variable (S : Service E R σ χ ρ)

def stepThread (shared : σ) (holder : Option Nat) (thread : Nat) (choice : χ) :
    Program E R Unit → Option (σ × Option Nat × Program E R Unit)
  | .ret _ => none
  | .op effect next =>
      (S.exec shared effect choice).map fun answer => (answer.2, holder, next answer.1)
  | .acquire next => if holder = none then some (shared, some thread, next) else none
  | .release next => if holder = some thread then some (shared, none, next) else none

-- While the process boots nobody else takes the mutex. A thread that takes it twice
-- waits for itself.
def stepBoot (shared : σ) (locked : Bool) (choice : χ) :
    Program E R Unit → Option (σ × Bool × Program E R Unit)
  | .ret _ => none
  | .op effect next =>
      (S.exec shared effect choice).map fun answer => (answer.2, locked, next answer.1)
  | .acquire next => if locked then none else some (shared, true, next)
  | .release next => if locked then some (shared, false, next) else none

def step (pool : Pool E R σ) (move : Move χ ρ) : Option (Pool E R σ) :=
  match pool.phase, move with
  | .booting locked program, .advance _ choice =>
      (S.stepBoot pool.shared locked choice program).map fun next => ⟨next.1, .booting next.2.1 next.2.2⟩
  | .booting locked program, .early passes request =>
      some ⟨pool.shared, .serving (if locked then some 0 else none)
        [program.bind fun _ => S.main passes, S.handler request]⟩
  | .booting _ (.ret _), .serve passes => some ⟨pool.shared, .serving none [S.main passes]⟩
  | .serving holder threads, .advance thread choice =>
      threads[thread]?.bind fun program =>
        (S.stepThread pool.shared holder thread choice program).map fun next =>
          ⟨next.1, .serving next.2.1 (threads.set thread next.2.2)⟩
  | .serving holder threads, .arrive request =>
      some ⟨pool.shared, .serving holder (threads ++ [S.handler request])⟩
  | phase, .environment choice =>
      (S.environment pool.shared choice).map fun shared => ⟨shared, phase⟩
  | _, .crash => (S.restart pool.shared).map fun shared => ⟨shared, .booting false S.recovery⟩
  | _, _ => none

end Service

-- The conditions that the steps of a run meet; `early` says whether requests may
-- arrive before the process has recovered.
structure Terms (E : Type) (σ χ : Type) where
  effect : Mode → σ → E → χ → Prop
  environment : σ → χ → Prop
  crash : σ → Prop
  early : Prop

-- Every step is allowed.
def Terms.any : Terms E σ χ := ⟨fun _ _ _ _ => True, fun _ _ => True, fun _ => True, True⟩

def Terms.permits (T : Terms E σ χ) (pool : Pool E R σ) : Move χ ρ → Prop
  | .advance thread choice => ∀ effect, pool.next? thread = some effect →
      T.effect (pool.mode thread) pool.shared effect choice
  | .environment choice => T.environment pool.shared choice
  | .crash => T.crash pool.shared
  | .early _ _ => T.early
  | .arrive _ | .serve _ => True

namespace Service

variable (S : Service E R σ χ ρ)

-- The states of the runs from `start` whose steps all meet the terms.
inductive Reachable (T : Terms E σ χ) (start : Pool E R σ) : Pool E R σ → Prop
  | start : Reachable T start start
  | step {pool next : Pool E R σ} (move : Move χ ρ) (hreach : Reachable T start pool)
      (hmove : T.permits pool move) (hstep : S.step pool move = some next) :
      Reachable T start next

-- The run of a list of moves.
def run (pool : Pool E R σ) : List (Move χ ρ) → Option (Pool E R σ)
  | [] => some pool
  | move :: moves => (S.step pool move).bind fun next => run next moves

theorem Reachable.run {T : Terms E σ χ} {start pool last : Pool E R σ}
    (hreach : S.Reachable T start pool) (moves : List (Move χ ρ))
    (hpermits : ∀ pool next, ∀ move ∈ moves, S.step pool move = some next → T.permits pool move)
    (hrun : S.run pool moves = some last) : S.Reachable T start last := by
  induction moves generalizing pool with
  | nil => exact Option.some.inj hrun ▸ hreach
  | cons move moves ih =>
      obtain ⟨next, hstep, hrest⟩ := Option.bind_eq_some_iff.mp hrun
      exact ih (hreach.step move (hpermits pool next move (by simp) hstep) hstep)
        (fun pool next move hm => hpermits pool next move (by simp [hm])) hrest

-- Weaker terms allow the same runs.
theorem Reachable.mono {T T' : Terms E σ χ}
    (himp : ∀ (pool : Pool E R σ) (move : Move χ ρ), T.permits pool move → T'.permits pool move)
    {start pool : Pool E R σ} (hreach : S.Reachable T start pool) : S.Reachable T' start pool := by
  induction hreach with
  | start => exact .start
  | step move _ hmove hstep ih => exact ih.step move (himp _ move hmove) hstep

-- A run whose steps are all found to be allowed.
theorem Reachable.of_guard {T : Terms E σ χ} {allowed : Pool E R σ → Move χ ρ → Bool}
    (hallowed : ∀ pool move, allowed pool move = true → T.permits pool move) {start pool : Pool E R σ}
    {moves : List (Move χ ρ)} (hrun : Transition.run (Transition.guard allowed S.step) start moves = some pool) :
    S.Reachable T start pool := by
  have hkeeps : Transition.Keeps (Transition.guard allowed S.step) (S.Reachable T start) := by
    intro pool move next hreach hguard
    obtain ⟨hmove, hstep⟩ := Transition.guard_eq_some hguard
    exact hreach.step move (hallowed pool move hmove) hstep
  exact hkeeps.run .start hrun

-- A thread that is about to carry out an effect carries it out.
theorem exec_of_step {pool next : Pool E R σ} {thread : Nat} {choice : χ} {effect : E}
    (hnext : pool.next? thread = some effect) (hstep : S.step pool (.advance thread choice) = some next) :
    ∃ answer, S.exec pool.shared effect choice = some (answer, next.shared) := by
  obtain ⟨s, phase⟩ := pool
  cases phase with
  | booting locked program =>
      cases program with
      | op first rest =>
          cases hnext
          simp only [step, stepBoot, Option.map_map] at hstep
          obtain ⟨answer, hexec, rfl⟩ := Option.map_eq_some_iff.mp hstep
          exact ⟨answer.1, hexec⟩
      | _ => cases hnext
  | serving holder threads =>
      obtain ⟨program, hthread, hprogram⟩ := Option.bind_eq_some_iff.mp hnext
      cases program with
      | op first rest =>
          cases hprogram
          simp only [step, hthread, Option.bind_some, stepThread, Option.map_map] at hstep
          obtain ⟨answer, hexec, rfl⟩ := Option.map_eq_some_iff.mp hstep
          exact ⟨answer.1, hexec⟩
      | _ => cases hprogram

-- What can be observed at the end of a run that is given by its moves.
theorem exists_of_run {β : Type} {T : Terms E σ χ} (start : Pool E R σ) (moves : List (Move χ ρ))
    (observe : Pool E R σ → β) (value : β) (hrun : (S.run start moves).map observe = some value)
    (hpermits : ∀ pool next, ∀ move ∈ moves, S.step pool move = some next → T.permits pool move) :
    ∃ pool, S.Reachable T start pool ∧ observe pool = value := by
  obtain ⟨pool, hpool, hvalue⟩ := Option.map_eq_some_iff.mp hrun
  exact ⟨pool, Reachable.start.run S moves hpermits hpool, hvalue⟩

end Service

theorem Terms.any_permits (pool : Pool E R σ) (move : Move χ ρ) :
    (Terms.any : Terms E σ χ).permits pool move := by
  cases move with
  | advance thread choice => exact fun _ _ => trivial
  | _ => trivial

instance (pool : Pool E R σ) : Decidable pool.unlocked :=
  match pool with
  | ⟨_, .booting _ _⟩ => isFalse fun ⟨_, h⟩ => nomatch h
  | ⟨_, .serving none threads⟩ => isTrue ⟨threads, rfl⟩
  | ⟨_, .serving (some _) _⟩ => isFalse fun ⟨_, h⟩ => nomatch h

end CloudLabs.Interaction
