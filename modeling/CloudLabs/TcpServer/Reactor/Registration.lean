import CloudLabs.TcpServer.Reactor.Dispatch

namespace CloudLabs.TcpServer.Reactor

open Interaction

variable {Callback : Type} {r next : Reactor Callback}

-- A flag is set exactly while there is a task of its kind for the descriptor, and
-- there is at most one.
structure Consistent (r : Reactor Callback) : Prop where
  tidy : r.tracked.Tidy
  executing : ∀ kind fd, r.tracked.executes kind fd = true ↔
    ∃ task ∈ r.tasks, task.kind = kind ∧ task.fd = fd
  once : (r.tasks.map fun task => (task.kind, task.fd)).Nodup

section Steps

theorem start_consistent : (start : Reactor Callback).Consistent where
  tidy := fun fd info hget => by cases hget
  executing := fun kind fd => by simp [start, Tracked.executes, Tracked.get]
  once := List.nodup_nil

-- A change of the entries that leaves the flags.
theorem Consistent.tracked (h : r.Consistent) {tracked : Tracked Callback} (htidy : tracked.Tidy)
    (hflags : ∀ kind fd, tracked.executes kind fd = r.tracked.executes kind fd) :
    Consistent { r with tracked := tracked } where
  tidy := htidy
  executing := fun kind fd => by rw [hflags]; exact h.executing kind fd
  once := h.once

theorem dispatch_eq (ready : Kind → List Fd) (fd : Fd) (kind : Kind) (r : Reactor Callback) :
    dispatchKind ready r fd kind = r ∨
      ∃ info callback, r.tracked.get fd = some info ∧ info.callback kind = some callback ∧
        info.isExecuting kind = false ∧
        dispatchKind ready r fd kind =
          { r with tracked := (r.tracked.dispatch kind fd).1, tasks := r.tasks ++ [⟨kind, fd, callback⟩] } :=
  dispatchKind_eq ready fd kind r

theorem Consistent.dispatch (h : r.Consistent) (ready : Kind → List Fd) (fd : Fd) (kind : Kind) :
    (dispatchKind ready r fd kind).Consistent := by
  obtain heq | ⟨info, callback, hget, -, hidle, heq⟩ := dispatch_eq ready fd kind r
  · rw [heq]
    exact h
  · have hfree : r.tracked.executes kind fd = false := by simp [Tracked.executes, hget, hidle]
    rw [heq]
    refine ⟨Tracked.tidy_dispatch h.tidy, fun kind' fd' => ?_, ?_⟩
    · rw [Tracked.executes_dispatch hget, Bool.or_eq_true, h.executing kind' fd', decide_eq_true_eq]
      simp only [List.mem_append, List.mem_singleton]
      constructor
      · rintro (⟨task, hmem, hkey⟩ | ⟨rfl, rfl⟩)
        · exact ⟨task, .inl hmem, hkey⟩
        · exact ⟨_, .inr rfl, rfl, rfl⟩
      · rintro ⟨task, hmem | rfl, hkind, hfd⟩
        · exact .inl ⟨task, hmem, hkind, hfd⟩
        · exact .inr ⟨hkind.symm, hfd.symm⟩
    · rw [List.map_append]
      refine List.nodup_append.mpr ⟨h.once, List.nodup_singleton _, ?_⟩
      intro key hkey other hother heq
      obtain ⟨task, hmem, rfl⟩ := List.mem_map.mp hkey
      rw [List.mem_singleton.mp hother] at heq
      have hrunning := (h.executing kind fd).mpr ⟨task, hmem, congrArg Prod.fst heq, congrArg Prod.snd heq⟩
      rw [hfree] at hrunning
      cases hrunning

theorem Consistent.sweep (h : r.Consistent) (fd : Fd) : (sweepFd r fd).Consistent :=
  h.tracked (Tracked.tidy_sweep h.tidy) fun _ _ => Tracked.executes_sweep

theorem Consistent.dispatchSelect (h : r.Consistent) (ready : Kind → List Fd) (fds : List Fd) :
    (dispatchSelect ready fds r).Consistent :=
  dispatchSelect_keeps (P := Consistent) (fun _ fd kind h => h.dispatch ready fd kind) (fun _ fd h => h.sweep fd) fds r h

-- Without an element of a list whose keys differ, those of another key are left.
theorem mem_eraseIdx_of_nodup {α β : Type} {key : α → β} {l : List α} (hnodup : (l.map key).Nodup)
    {i : Nat} {x : α} (hx : l[i]? = some x) (y : α) : y ∈ l.eraseIdx i ↔ y ∈ l ∧ key y ≠ key x := by
  have hkeys : (l.map key)[i]? = some (key x) := by rw [List.getElem?_map, hx]; rfl
  obtain ⟨hi, -⟩ := List.getElem?_eq_some_iff.mp hkeys
  rw [List.mem_eraseIdx_iff_getElem?]
  constructor
  · rintro ⟨j, hne, hy⟩
    refine ⟨List.mem_of_getElem? hy, fun heq => hne ?_⟩
    have hother : (l.map key)[j]? = some (key y) := by rw [List.getElem?_map, hy]; rfl
    exact ((List.getElem?_inj hi hnodup).mp (by rw [hkeys, hother, heq])).symm
  · rintro ⟨hmem, hne⟩
    obtain ⟨j, hy⟩ := List.mem_iff_getElem?.mp hmem
    refine ⟨j, fun heq => hne ?_, hy⟩
    rw [heq, hx] at hy
    exact congrArg key (Option.some.inj hy).symm

-- The task that ends is the only one of its kind for its descriptor.
theorem Consistent.complete (h : r.Consistent) {i : Nat} {task : CallbackTask Callback}
    (htask : r.tasks[i]? = some task) :
    Consistent { r with
      tracked := r.tracked.complete task.kind task.fd, tasks := r.tasks.eraseIdx i } where
  tidy := Tracked.tidy_complete h.tidy
  executing := fun kind fd => by
    rw [Tracked.executes_complete, Bool.and_eq_true, h.executing kind fd, Bool.not_eq_true',
      decide_eq_false_iff_not]
    constructor
    · rintro ⟨⟨other, hmem, rfl, rfl⟩, hne⟩
      refine ⟨other, (mem_eraseIdx_of_nodup h.once htask other).mpr ⟨hmem, fun heq => hne ?_⟩, rfl, rfl⟩
      exact ⟨congrArg Prod.fst heq, congrArg Prod.snd heq⟩
    · rintro ⟨other, hmem, rfl, rfl⟩
      obtain ⟨hold, hne⟩ := (mem_eraseIdx_of_nodup h.once htask other).mp hmem
      exact ⟨⟨other, hold, rfl, rfl⟩, fun heq => hne (Prod.ext heq.1 heq.2)⟩
  once := (List.Sublist.map _ (List.eraseIdx_sublist r.tasks i)).nodup h.once

theorem Consistent.stepPoll (h : r.Consistent) (ready : Option (Kind → List Fd)) :
    (r.stepPoll ready).Consistent := by
  unfold Reactor.stepPoll
  split
  · exact ⟨h.tidy, h.executing, h.once⟩
  · split
    · exact ⟨h.tidy, h.executing, h.once⟩
    · exact ⟨h.tidy, h.executing, h.once⟩
  · exact Consistent.dispatchSelect (r := { r with poll := .idle }) ⟨h.tidy, h.executing, h.once⟩ _ _

theorem Consistent.step (h : r.Consistent) {move : Move Callback} (hstep : r.step move = some next) :
    next.Consistent := by
  cases move with
  | registerFd fd callback =>
      cases hstep
      exact h.tracked (Tracked.tidy_registerFd h.tidy callback) fun _ _ => Tracked.executes_registerFd callback
  | setCallback kind fd callback =>
      cases hstep
      exact h.tracked (Tracked.tidy_setCallback h.tidy callback) fun _ _ => Tracked.executes_setCallback callback
  | unregister fd =>
      cases hstep
      exact h.tracked (Tracked.tidy_unregister h.tidy) fun _ _ => Tracked.executes_unregister
  | poll ready =>
      cases hstep
      exact h.stepPoll ready
  | complete i =>
      obtain ⟨task, htask, rfl⟩ := Option.map_eq_some_iff.mp hstep
      exact h.complete htask
  | accept fd =>
      simp only [Reactor.step] at hstep
      split at hstep
      · cases hstep
      · cases hstep
        exact ⟨h.tidy, h.executing, h.once⟩
  | close fd =>
      cases hstep
      exact ⟨h.tidy, h.executing, h.once⟩

theorem consistent_of_run {moves : List (Move Callback)}
    (hrun : Transition.run step start moves = some r) : r.Consistent :=
  Transition.Keeps.run (fun _ _ _ h hstep => h.step hstep) start_consistent hrun

end Steps

-- The tasks of a kind for a descriptor that are queued or running.
def outstanding (r : Reactor Callback) (kind : Kind) (fd : Fd) : Nat :=
  r.tasks.countP fun task => task.kind = kind ∧ task.fd = fd

-- The callbacks of a descriptor do not overlap with themselves, its flags say which of
-- them are outstanding, and its entry stays until they have ended.
structure Serialised (r : Reactor Callback) (fd : Fd) : Prop where
  single : ∀ kind, r.outstanding kind fd ≤ 1
  flagged : ∀ kind, r.tracked.executes kind fd = true ↔ r.outstanding kind fd = 1
  kept : ∀ kind, r.outstanding kind fd ≠ 0 → (r.tracked.get fd).isSome

section Serial

theorem outstanding_pos (kind : Kind) (fd : Fd) :
    0 < r.outstanding kind fd ↔ ∃ task ∈ r.tasks, task.kind = kind ∧ task.fd = fd := by
  unfold outstanding
  rw [List.countP_pos_iff]
  simp only [decide_eq_true_eq]

theorem Consistent.single (h : r.Consistent) (kind : Kind) (fd : Fd) : r.outstanding kind fd ≤ 1 := by
  have hcount : r.outstanding kind fd = (r.tasks.map fun task => (task.kind, task.fd)).count (kind, fd) := by
    unfold outstanding
    rw [List.count_eq_countP, List.countP_map]
    apply List.countP_congr
    intro task _
    simp only [decide_eq_true_eq, Function.comp, beq_iff_eq, Prod.mk.injEq]
  rw [hcount]
  exact List.nodup_iff_count_le_one.mp h.once (kind, fd)

theorem Consistent.serialised (h : r.Consistent) (fd : Fd) : r.Serialised fd := by
  have hflagged : ∀ kind, r.tracked.executes kind fd = true ↔ r.outstanding kind fd = 1 := by
    intro kind
    have hone := h.single kind fd
    rw [h.executing kind fd, ← outstanding_pos]
    omega
  refine ⟨fun kind => h.single kind fd, hflagged, fun kind hsome => ?_⟩
  have hone := h.single kind fd
  have hexecutes := (hflagged kind).mpr (by omega)
  unfold Tracked.executes at hexecutes
  by_contra hnone
  rw [Option.not_isSome_iff_eq_none.mp hnone] at hexecutes
  cases hexecutes

-- At every point of every run, for every descriptor.
theorem serialised_of_run {moves : List (Move Callback)}
    (hrun : Transition.run step start moves = some r) (fd : Fd) : r.Serialised fd :=
  (consistent_of_run hrun).serialised fd

-- A callback of descriptor 5 that runs while the descriptor is given up.
theorem serialised_of_run_unregistered :
    Serialised { (start : Reactor Nat) with
      tracked := ((Tracked.setCallback ∅ .rd 5 (some 0)).dispatch .rd 5).1.unregister 5
      tasks := [⟨.rd, 5, 0⟩] } 5 :=
  serialised_of_run (show Transition.run step start [.setCallback .rd 5 (some 0), .poll none,
    .poll (some fun _ => [5]), .poll none, .unregister 5] = some _ from rfl) 5

end Serial

-- The callback that a move sets for a descriptor.
def Move.sets (kind : Kind) (fd : Fd) : Move Callback → Option (Option Callback)
  | .registerFd fd' callback => if fd' = fd then some (callback kind) else none
  | .setCallback kind' fd' callback => if kind' = kind ∧ fd' = fd then some callback else none
  | _ => none

def Move.unregisters (fd : Fd) : Move Callback → Bool
  | .unregister fd' => fd' = fd
  | _ => false

def lastSet (kind : Kind) (fd : Fd) (moves : List (Move Callback)) : Option (Option Callback) :=
  (moves.filterMap (Move.sets kind fd)).getLast?

-- The entry is there, with the callbacks that the moves have set last.
def Tracks (r : Reactor Callback) (fd : Fd) (moves : List (Move Callback)) : Prop :=
  ∃ info, r.tracked.get fd = some info ∧
    ∀ kind callback, lastSet kind fd moves = some callback → info.callback kind = callback

section Kept

variable {fd : Fd} {move : Move Callback} {moves : List (Move Callback)}

-- An entry that is not marked, whose callbacks are given.
def Holds (r : Reactor Callback) (fd : Fd) (callback : Kind → Option Callback) : Prop :=
  ∃ info, r.tracked.get fd = some info ∧ info.markedUntrack = false ∧ info.callback = callback

theorem Holds.dispatch {callback : Kind → Option Callback} (h : r.Holds fd callback)
    (ready : Kind → List Fd) (fd' : Fd) (kind : Kind) : (dispatchKind ready r fd' kind).Holds fd callback := by
  obtain heq | ⟨-, added, -, -, -, heq⟩ := dispatch_eq ready fd' kind r
  · rw [heq]
    exact h
  · obtain ⟨info, hget, hunmarked, hcallback⟩ := h
    rw [heq]
    by_cases hfd : fd = fd'
    · refine ⟨info.setExecuting kind true, ?_, hunmarked, hcallback⟩
      simp only [Tracked.get_dispatch]
      rw [if_pos hfd, ← hfd, hget]
      rfl
    · refine ⟨info, ?_, hunmarked, hcallback⟩
      simp only [Tracked.get_dispatch]
      rw [if_neg hfd, hget]

theorem Holds.sweep {callback : Kind → Option Callback} (h : r.Holds fd callback) (fd' : Fd) :
    (sweepFd r fd').Holds fd callback := by
  obtain ⟨info, hget, hunmarked, hcallback⟩ := h
  refine ⟨info, ?_, hunmarked, hcallback⟩
  simp only [sweepFd_tracked, Tracked.get_sweep]
  by_cases hfd : fd = fd'
  · rw [if_pos hfd, ← hfd, hget, Option.filter_some, if_pos (by simp [FdInfo.isLeft, hunmarked])]
  · rw [if_neg hfd, hget]

theorem Holds.dispatchSelect {callback : Kind → Option Callback} (h : r.Holds fd callback)
    (ready : Kind → List Fd) (fds : List Fd) : (dispatchSelect ready fds r).Holds fd callback :=
  dispatchSelect_keeps (P := fun r : Reactor Callback => r.Holds fd callback)
    (fun _ fd' kind h => h.dispatch ready fd' kind) (fun _ fd' h => h.sweep fd') fds r h

-- An entry that is not marked loses nothing, except to unregister.
theorem Holds.step {callback : Kind → Option Callback} (h : r.Holds fd callback)
    (hstep : r.step move = some next) (hstays : move.unregisters fd = false) :
    next.Holds fd fun kind => (move.sets kind fd).getD (callback kind) := by
  obtain ⟨info, hget, hunmarked, rfl⟩ := h
  cases move with
  | registerFd fd' callback =>
      cases hstep
      by_cases hfd : fd' = fd
      · refine ⟨_, (Tracked.get_registerFd callback).trans (if_pos hfd.symm), rfl, ?_⟩
        funext kind
        simp [Move.sets, hfd]
      · refine ⟨info, (Tracked.get_registerFd callback).trans ?_, hunmarked, ?_⟩
        · rw [if_neg (Ne.symm hfd), hget]
        · funext kind
          simp [Move.sets, hfd]
  | setCallback kind' fd' callback =>
      cases hstep
      by_cases hfd : fd' = fd
      · subst hfd
        refine ⟨info.setCallback kind' callback, ?_, hunmarked, ?_⟩
        · refine (Tracked.get_setCallback _ _ _ _ _).trans ?_
          rw [if_pos rfl, hget]
          rfl
        · funext kind
          by_cases hkind : kind = kind'
          · simp [Move.sets, hkind]
          · simp [Move.sets, Ne.symm hkind, info.setCallback_callback_ne hkind]
      · refine ⟨info, (Tracked.get_setCallback _ _ _ _ _).trans ?_, hunmarked, ?_⟩
        · rw [if_neg (Ne.symm hfd), hget]
        · funext kind
          simp [Move.sets, hfd]
  | unregister fd' =>
      cases hstep
      have hfd : fd ≠ fd' := by
        simp only [Move.unregisters, decide_eq_false_iff_not] at hstays
        exact Ne.symm hstays
      refine ⟨info, (Tracked.get_unregister _ _ _).trans ?_, hunmarked, rfl⟩
      rw [if_neg hfd, hget]
  | poll ready =>
      cases hstep
      have hholds : ∀ poll, Holds { r with poll := poll } fd info.callback := fun _ =>
        ⟨info, hget, hunmarked, rfl⟩
      unfold Reactor.stepPoll
      split
      · exact hholds _
      · split
        · exact hholds _
        · exact hholds _
      · exact (hholds .idle).dispatchSelect _ _
  | complete i =>
      obtain ⟨task, htask, rfl⟩ := Option.map_eq_some_iff.mp hstep
      by_cases hfd : fd = task.fd
      · refine ⟨info.setExecuting task.kind false, (Tracked.get_complete _ _ _ _).trans ?_, hunmarked, rfl⟩
        rw [if_pos hfd, ← hfd, hget, Option.map_some, Option.filter_some,
          if_pos (by simp [FdInfo.isLeft, hunmarked])]
      · refine ⟨info, (Tracked.get_complete _ _ _ _).trans ?_, hunmarked, rfl⟩
        rw [if_neg hfd, hget]
  | accept fd' =>
      simp only [Reactor.step] at hstep
      split at hstep
      · cases hstep
      · cases hstep
        exact ⟨info, hget, hunmarked, rfl⟩
  | close fd' =>
      cases hstep
      exact ⟨info, hget, hunmarked, rfl⟩

theorem lastSet_snoc (kind : Kind) (fd : Fd) (moves : List (Move Callback)) (move : Move Callback) :
    lastSet kind fd (moves ++ [move]) = (move.sets kind fd).or (lastSet kind fd moves) := by
  unfold lastSet
  rw [List.filterMap_append]
  cases hsets : move.sets kind fd with
  | none => simp [hsets]
  | some callback => simp [hsets]

-- By induction on the run, with the moves that were made before it.
theorem Holds.run {before later : List (Move Callback)} {callback : Kind → Option Callback}
    (h : r.Holds fd fun kind => (lastSet kind fd before).getD (callback kind))
    (hrun : Transition.run Reactor.step r later = some next)
    (hstays : ∀ move ∈ later, move.unregisters fd = false) :
    next.Holds fd fun kind => (lastSet kind fd (before ++ later)).getD (callback kind) := by
  induction later generalizing r before with
  | nil =>
      rw [List.append_nil]
      exact Option.some.inj hrun ▸ h
  | cons move later ih =>
      obtain ⟨mid, hstep, hrest⟩ := Option.bind_eq_some_iff.mp hrun
      have hmid := h.step hstep (hstays move List.mem_cons_self)
      have hsnoc : ∀ kind, (lastSet kind fd (before ++ [move])).getD (callback kind) =
          (move.sets kind fd).getD ((lastSet kind fd before).getD (callback kind)) := by
        intro kind
        rw [lastSet_snoc]
        cases move.sets kind fd <;> rfl
      rw [← List.singleton_append, ← List.append_assoc]
      refine ih ?_ hrest fun other hother => hstays other (List.mem_cons_of_mem move hother)
      simp only [hsnoc]
      exact hmid

theorem Holds.tracks {callback : Kind → Option Callback}
    (h : r.Holds fd fun kind => (lastSet kind fd moves).getD (callback kind)) : r.Tracks fd moves := by
  obtain ⟨info, hget, -, hcallback⟩ := h
  refine ⟨info, hget, fun kind last hlast => ?_⟩
  simp only [hcallback, hlast, Option.getD_some]

-- A registration that finds no marked entry.
theorem holds_setCallback (hunmarked : ∀ info, r.tracked.get fd = some info → info.markedUntrack = false)
    (kind : Kind) (callback : Option Callback)
    (hstep : r.step (.setCallback kind fd callback) = some next) :
    next.Holds fd fun kind' => (lastSet kind' fd [.setCallback kind fd callback]).getD
      (((r.tracked.get fd).getD .new).callback kind') := by
  cases hstep
  refine ⟨_, (Tracked.get_setCallback _ _ _ _ _).trans (if_pos rfl), ?_, ?_⟩
  · cases hget : r.tracked.get fd with
    | none => rfl
    | some info => exact hunmarked info hget
  · funext kind'
    by_cases hkind : kind' = kind
    · simp [lastSet, Move.sets, hkind]
    · simp [lastSet, Move.sets, Ne.symm hkind, FdInfo.setCallback_callback_ne _ hkind]

end Kept

section Lost

variable {fd : Fd} {info : FdInfo Callback}

theorem Consistent.step_complete (h : r.Consistent) {kind : Kind} (hget : r.tracked.get fd = some info)
    (hexecuting : info.isExecuting kind = true) :
    ∃ i next, r.step (.complete i) = some next ∧
      next.tracked.get fd = (some (info.setExecuting kind false)).filter fun info => !info.isLeft := by
  have hexecutes : r.tracked.executes kind fd = true := by simp [Tracked.executes, hget, hexecuting]
  obtain ⟨task, hmem, rfl, rfl⟩ := (h.executing kind fd).mp hexecutes
  obtain ⟨i, htask⟩ := List.mem_iff_getElem?.mp hmem
  refine ⟨i, _, Option.map_eq_some_iff.mpr ⟨task, htask, rfl⟩, (Tracked.get_complete _ _ _ _).trans ?_⟩
  rw [if_pos rfl, hget, Option.map_some]

-- The end of the only callback that runs takes a marked entry away.
theorem Consistent.exists_erased (h : r.Consistent) (kind : Kind) (hget : r.tracked.get fd = some info)
    (hmarked : info.markedUntrack = true) (hexecuting : info.isExecuting kind = true)
    (hother : ∀ other, other ≠ kind → info.isExecuting other = false) :
    ∃ i next, r.step (.complete i) = some next ∧ next.tracked.get fd = none := by
  obtain ⟨i, next, hstep, hnext⟩ := h.step_complete hget hexecuting
  refine ⟨i, next, hstep, ?_⟩
  have hidle : ∀ other, (info.setExecuting kind false).isExecuting other = false := by
    intro other
    by_cases hkind : other = kind
    · rw [hkind, FdInfo.setExecuting_isExecuting]
    · rw [info.setExecuting_isExecuting_ne hkind]
      exact hother other hkind
  have hleft : (info.setExecuting kind false).isLeft = true := by
    simp [FdInfo.isLeft, FdInfo.isBusy, hidle, hmarked]
  rw [hnext, Option.filter_some, hleft]
  rfl

theorem Consistent.exists_lost (h : r.Consistent) (hget : r.tracked.get fd = some info)
    (hmarked : info.markedUntrack = true) :
    ∃ (moves : List (Move Callback)) (last : Reactor Callback),
      Transition.run Reactor.step r moves = some last ∧
        (∀ move ∈ moves, move.unregisters fd = false) ∧ last.tracked.get fd = none := by
  have hstays : ∀ i, Move.unregisters fd (.complete i : Move Callback) = false := fun _ => rfl
  have hbusy : info.isBusy = true := by
    have hkept := h.tidy fd info hget
    simpa [FdInfo.isLeft, hmarked] using hkept
  by_cases hboth : info.isExecuting .rd = true ∧ info.isExecuting .wr = true
  · -- One of two ends first, and leaves the entry to the other.
    obtain ⟨i, mid, hstep, hmid⟩ := h.step_complete hget hboth.1
    have hwr : (info.setExecuting .rd false).isExecuting .wr = true := hboth.2
    have hkept : (info.setExecuting .rd false).isLeft = false := by
      simp [FdInfo.isLeft, FdInfo.isBusy_of_isExecuting _ hwr]
    rw [Option.filter_some, hkept] at hmid
    obtain ⟨j, last, hlast, hnone⟩ := (h.step hstep).exists_erased .wr hmid hmarked hwr
      fun other hother => by
        cases other with
        | rd => rfl
        | wr => exact absurd rfl hother
    refine ⟨[.complete i, .complete j], last, ?_, by simp [hstays], hnone⟩
    rw [Transition.run_cons hstep, Transition.run_cons hlast]
    rfl
  · obtain ⟨kind, hexecuting, hother⟩ : ∃ kind, info.isExecuting kind = true ∧
        ∀ other, other ≠ kind → info.isExecuting other = false := by
      cases hrd : info.isExecuting .rd with
      | true =>
          refine ⟨.rd, hrd, fun other hother => ?_⟩
          cases other with
          | rd => exact absurd rfl hother
          | wr => exact Bool.eq_false_iff.mpr fun hwr => hboth ⟨hrd, hwr⟩
      | false =>
          unfold FdInfo.isBusy at hbusy
          rw [hrd, Bool.false_or] at hbusy
          refine ⟨.wr, hbusy, fun other hother => ?_⟩
          cases other with
          | rd => exact hrd
          | wr => exact absurd rfl hother
    obtain ⟨i, last, hstep, hnone⟩ := h.exists_erased kind hget hmarked hexecuting hother
    refine ⟨[.complete i], last, ?_, by simp [hstays], hnone⟩
    rw [Transition.run_cons hstep]
    rfl

end Lost

-- From a registration on, until the next unregister of the descriptor.
theorem tracks_iff {before : List (Move Callback)} {kind : Kind} {fd : Fd} {callback : Option Callback}
    (hbefore : Transition.run step start before = some r)
    (hset : r.step (.setCallback kind fd callback) = some next) :
    (∀ (later : List (Move Callback)) (last : Reactor Callback),
      Transition.run step next later = some last → (∀ move ∈ later, move.unregisters fd = false) →
        last.Tracks fd (.setCallback kind fd callback :: later)) ↔
    ∀ info, r.tracked.get fd = some info → info.markedUntrack = false := by
  constructor
  · intro htracks info hget
    by_contra hmarked
    have hnext := (consistent_of_run hbefore).step hset
    have hget' : next.tracked.get fd = some (info.setCallback kind callback) := by
      cases hset
      refine (Tracked.get_setCallback _ _ _ _ _).trans ?_
      rw [if_pos rfl, hget]
      rfl
    obtain ⟨later, last, hrun, hstays, hnone⟩ := hnext.exists_lost hget' (Bool.of_not_eq_false hmarked)
    obtain ⟨kept, hkept, -⟩ := htracks later last hrun hstays
    rw [hnone] at hkept
    cases hkept
  · intro hunmarked later last hrun hstays
    exact ((holds_setCallback hunmarked kind callback hset).run hrun hstays).tracks

theorem tracks_iff_first :
    (∀ (later : List (Move Nat)) (last : Reactor Nat),
      Transition.run step { (start : Reactor Nat) with
        tracked := Tracked.setCallback (∅ : Tracked Nat) .rd 5 (some 1), opened := [5] } later = some last →
        (∀ move ∈ later, move.unregisters 5 = false) →
        last.Tracks 5 (.setCallback .rd 5 (some 1) :: later)) ↔
    ∀ info, Tracked.get (∅ : Tracked Nat) 5 = some info → info.markedUntrack = false :=
  tracks_iff (show Transition.run step start [.accept 5] = some { (start : Reactor Nat) with opened := [5] }
    from rfl) rfl

-- A read callback of descriptor 5 runs when its connection goes, and another one
-- gets the descriptor and is registered before the callback ends.
def reuse : List (Move Nat) :=
  [.accept 5, .setCallback .rd 5 (some 0), .poll none, .poll (some fun _ => [5]), .poll none,
    .unregister 5, .close 5, .accept 5]

theorem reuse_not_tracks : ¬ ∀ (before later : List (Move Nat)) (r next last : Reactor Nat) (kind : Kind)
    (fd : Fd) (callback : Option Nat), Transition.run step start before = some r →
    r.step (.setCallback kind fd callback) = some next → Transition.run step next later = some last →
    (∀ move ∈ later, move.unregisters fd = false) → last.Tracks fd (.setCallback kind fd callback :: later) := by
  intro hall
  have hrun : (Transition.run step start (reuse ++ [.setCallback .rd 5 (some 1), .complete 0])).any
      (fun last => (last.tracked.get 5).isNone) = true := by decide
  obtain ⟨last, hlast, hnone⟩ := (Option.any_eq_true _ _).mp hrun
  rw [Transition.run_append] at hlast
  obtain ⟨r, hbefore, hrest⟩ := Option.bind_eq_some_iff.mp hlast
  obtain ⟨info, hget, -⟩ := hall reuse [.complete 0] r _ last .rd 5 (some 1) hbefore rfl hrest
    (by simp [Move.unregisters])
  rw [hget] at hnone
  cases hnone

end CloudLabs.TcpServer.Reactor
