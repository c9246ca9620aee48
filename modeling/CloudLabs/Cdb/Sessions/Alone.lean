import CloudLabs.Cdb.Sessions.Theorems

namespace CloudLabs.Cdb

open Interaction Coordinator Parsing

namespace Reference

-- What one map answers when no update is refused, the first request first.
def serveAll (r : Reference) : List Command → List Bytes × Reference
  | [] => ([], r)
  | cmd :: cmds => ((r.serve cmd).1 :: ((r.serve cmd).2.serveAll cmds).1, ((r.serve cmd).2.serveAll cmds).2)

end Reference

theorem World.exec_vetoed {w u : World} {effect : Effect} {choice : Choice} {answer : effect.Answer}
    (hchoice : ∀ stage, choice ≠ .refuse stage) (h : w.exec effect choice = some (answer, u)) :
    u.vetoed = w.vetoed := by
  cases effect with
  | call addr request =>
      rcases World.call_vetoed (show w.call addr request choice = some (answer, u) from h) with hsame | ⟨⟨stage, hrefuse⟩, -⟩
      · exact hsame
      · exact absurd hrefuse (hchoice stage)
  | rand =>
      cases choice with
      | draw value =>
          have hdraw : (if value ≤ RAND_MAX then some (value, w) else none) = some (answer, u) := h
          split at hdraw
          · rw [← (Prod.mk.inj (Option.some.inj hdraw)).2]
          · cases hdraw
      | _ => cases h
  | assertFalse => cases choice <;> cases h
  | _ =>
      cases choice with
      | done => cases h; rfl
      | _ => cases h

-- Nothing is vetoed while no PREPARE is refused.
theorem World.outcome_vetoed {α : Type} {pick : World → Effect → Choice}
    (hpick : ∀ w effect stage, pick w effect ≠ .refuse stage) {program : Code α} {mode last : Mode}
    {w u : World} {value : α} (h : program.outcome cdb pick mode w = some (value, last, u)) :
    u.vetoed = w.vetoed := by
  induction program generalizing mode w with
  | ret value => cases h; rfl
  | op effect next ih =>
      obtain ⟨answer, hexec, hnext⟩ := Option.bind_eq_some_iff.mp h
      rw [ih answer.1 hnext]
      exact World.exec_vetoed (hpick w effect) hexec
  | acquire next ih =>
      cases mode with
      | inside => cases h
      | alone => exact @ih .alone w h
      | outside => exact @ih .inside w h
  | release next ih =>
      cases mode with
      | outside => cases h
      | alone => exact @ih .alone w h
      | inside => exact @ih .outside w h

namespace Refinement

variable {X : Refinement} {w : World} {pick : World → Effect → Choice} {r : Reference}

-- The members are idle and hold the map of the reference.
def IdleAt (X : Refinement) (r : Reference) (w : World) : Prop :=
  ∃ store, X.Answered w r ∧ store.view = r.map ∧ Counts w r.updates ∧
    w.Everyone (·.Holds store w.coordinator.nextId [])

theorem Idle.at (h : X.Idle w) : ∃ r, X.IdleAt r w := by
  obtain ⟨r, store, nextId, hanswered, hview, hcounts, rfl, hall⟩ := h
  exact ⟨r, store, hanswered, hview, hcounts, hall⟩

theorem IdleAt.idle (h : X.IdleAt r w) : X.Idle w := by
  obtain ⟨store, hanswered, hview, hcounts, hall⟩ := h
  exact ⟨r, store, _, hanswered, hview, hcounts, rfl, hall⟩

theorem IdleAt.level (h : X.IdleAt r w) : w.Everyone (·.store.view = r.map) := by
  obtain ⟨store, -, hview, -, hall⟩ := h
  exact hall.mono fun p hp => by rw [hp.store, hview]

-- A request that has the mutex to itself is answered as the map answers it, unless
-- a PREPARE is refused.
theorem IdleAt.answers (h : X.IdleAt r w) (hpick : X.Allows pick)
    (hyes : ∀ w effect stage, pick w effect ≠ .refuse stage) (client : Client) :
    ∃ t, (Coordinator.handle (client, X.asked client)).outcome cdb pick .outside w = some ((), .outside, t) ∧
      t.replies = (client, (r.serve (X.asked client)).1) :: w.replies ∧
      X.IdleAt (r.serve (X.asked client)).2 t := by
  obtain ⟨msg, t, hrun, hreplies, hidle⟩ := h.idle.answers hpick client
  obtain ⟨r', hidle'⟩ := hidle.at
  have hvetoed := World.outcome_vetoed hyes hrun
  obtain ⟨-, hanswered, -, hcounts, -⟩ := h
  obtain ⟨-, hanswered', -, -, -⟩ := id hidle'
  -- The update that comes next has not been vetoed.
  have hnew : decide (r.updates + 1 ∈ w.vetoed) = false := by
    apply decide_eq_false
    intro hmem
    have hle := hcounts.2 _ hmem
    omega
  have hold := hanswered.1 (fun k => decide (k ∈ w.vetoed)) fun k _ => decide_eq_true_iff
  have hall := hanswered'.1 (fun k => decide (k ∈ w.vetoed)) fun k _ => by
    rw [hvetoed]
    exact decide_eq_true_iff
  simp only [hreplies, List.map_cons, Reference.run, hold, hnew, Bool.and_false, Bool.false_eq_true, if_false,
    Prod.mk.injEq, List.cons.injEq, and_true] at hall
  obtain ⟨hmsg, hlast⟩ := hall
  refine ⟨t, hrun, ?_, ?_⟩
  · rw [hreplies, hmsg]
  · rw [hlast]
    exact hidle'

theorem IdleAt.dispatches {connection number : Nat} {cmds : List Command} (h : X.IdleAt r w)
    (hpick : X.Allows pick) (hyes : ∀ w effect stage, pick w effect ≠ .refuse stage)
    (hasked : ∀ k cmd, cmds[k]? = some cmd → X.asked (Nat.pair connection (number + k)) = cmd) :
    ∃ t, (dispatch connection number cmds).outcome cdb pick .outside w = some ((), .outside, t) ∧
      t.replies.reverse = w.replies.reverse ++
        (clients connection number cmds.length).zip (r.serveAll cmds).1 ∧
      X.IdleAt (r.serveAll cmds).2 t := by
  induction cmds generalizing number w r with
  | nil => exact ⟨w, rfl, (List.append_nil _).symm, h⟩
  | cons cmd cmds ih =>
      have hcmd : X.asked (Nat.pair connection number) = cmd := hasked 0 cmd rfl
      obtain ⟨t, hfirst, hreplies, hidle⟩ := h.answers hpick hyes (Nat.pair connection number)
      rw [hcmd] at hfirst hreplies hidle
      have hrest : ∀ k next, cmds[k]? = some next → X.asked (Nat.pair connection (number + 1 + k)) = next := by
        intro k next hnext
        rw [Nat.add_assoc, Nat.add_comm 1 k]
        exact hasked (k + 1) next hnext
      obtain ⟨u, hsecond, hmore, hlast⟩ := ih hidle hrest
      refine ⟨u, ?_, ?_, hlast⟩
      · show (Program.bind _ _).outcome cdb pick .outside w = _
        rw [Program.outcome_bind, hfirst]
        exact hsecond
      · rw [hmore, hreplies, List.reverse_cons, List.append_assoc]
        rfl

end Refinement

namespace Sessions

open Reads (service)

variable {X : Sessions} {pick : World → Effect → Choice}

-- A client that sends its commands while nobody else does is answered by each of
-- them what one map answers, however the bytes are cut into reads.
theorem answers_alone (X : Sessions) {passes : Nat} {pool : System}
    (hreach : service.Reachable X.terms (X.pool passes) pool) (hfree : pool.unlocked)
    (hpick : X.Allows pick) (hyes : ∀ w effect stage, pick w effect ≠ .refuse stage) {connection : Nat}
    {cmds : List ClientCommand} {chunks : List Bytes} (hcut : chunks.flatten = cmds.flatMap ClientCommand.encode)
    (hfits : (cmds.flatMap ClientCommand.encode).length ≤ maxSize)
    (hasked : ∀ number cmd, (cmds.map ClientCommand.toCommand)[number]? = some cmd →
      X.asked (Nat.pair connection number) = cmd) :
    ∃ r : Reference, pool.shared.Everyone (·.store.view = r.map) ∧ ∃ t,
      (session connection 0 (.read none) chunks).outcome cdb pick .outside pool.shared = some ((), .outside, t) ∧
      t.replies.reverse = pool.shared.replies.reverse ++
        (clients connection 0 cmds.length).zip (r.serveAll (cmds.map ClientCommand.toCommand)).1 ∧
      t.Everyone (·.store.view = (r.serveAll (cmds.map ClientCommand.toCommand)).2.map) := by
  have hkept := hreach.kept X.honours (X.kept_pool passes)
  obtain ⟨r, hidle⟩ := (hkept.idle hfree).at
  have hnumbered : ∀ k cmd, (cmds.map ClientCommand.toCommand)[k]? = some cmd →
      X.asked (Nat.pair connection (0 + k)) = cmd := by
    intro k cmd hcmd
    rw [Nat.zero_add]
    exact hasked k cmd hcmd
  obtain ⟨t, hrun, hreplies, hlast⟩ := hidle.dispatches hpick hyes hnumbered
  refine ⟨r, hidle.level, t, ?_, ?_, hlast.level⟩
  · rw [session_eq, handleReads_encode hcut hfits]
    exact hrun
  · rw [hreplies, List.length_map]

-- Of two members the second is dead; a pair is put and asked for in one go.
theorem answers_alone_pair : ∃ t,
    (session 0 0 (.read none) [(put.encode ++ ask.encode).take 7, [], (put.encode ++ ask.encode).drop 7]).outcome cdb
      Refinement.pair.pick .outside Refinement.pair.start = some ((), .outside, t) ∧
    t.replies.reverse = [(0, bytes "+OK\r\n"), (1, bytes "*1\r\n$1\r\nv\r\n")] := by
  have hyes : ∀ w effect stage, Refinement.pair.pick w effect ≠ .refuse stage := by
    intro w effect stage
    unfold Refinement.pair.pick
    split
    · split <;> nofun
    · nofun
  have hcut : ([(put.encode ++ ask.encode).take 7, [], (put.encode ++ ask.encode).drop 7] : List Bytes).flatten =
      [put, ask].flatMap ClientCommand.encode := by decide
  have hasked : ∀ number cmd, ([put, ask].map ClientCommand.toCommand)[number]? = some cmd →
      chat.asked (Nat.pair 0 number) = cmd := by
    intro number cmd hcmd
    match number with
    | 0 => exact Option.some.inj hcmd
    | 1 => exact Option.some.inj hcmd
    | number + 2 => cases hcmd
  have hstart : service.Reachable chat.terms (chat.pool 0) (chat.pool 0) := .start
  obtain ⟨r, -, t, hrun, hreplies, -⟩ :=
    answers_alone chat hstart ⟨_, rfl⟩ Refinement.pair_allows hyes hcut (by decide) hasked
  refine ⟨t, hrun, ?_⟩
  have hserved : (r.serveAll ([put, ask].map ClientCommand.toCommand)).1 =
      [bytes "+OK\r\n", bytes "*1\r\n$1\r\nv\r\n"] := by
    have hkey : joinParts (bytes "k") [] = bytes "k" := by decide
    have hvalue : joinParts (bytes "v") [] = bytes "v" := by decide
    have hlines : (Answer.lines (words (bytes "v"))).encode = bytes "*1\r\n$1\r\nv\r\n" := by decide
    simp only [put, ask, List.map_cons, List.map_nil, ClientCommand.toCommand, Reference.serveAll, Reference.serve,
      Reference.answer, Reference.next, hkey, hvalue, Function.update_self, Option.getD_some, hlines]
    rfl
  rw [hreplies, hserved]
  rfl

end Sessions

end CloudLabs.Cdb
