import CloudLabs.Cdb.Refinement.Requests
import CloudLabs.Interaction.Contract.Theorems
import CloudLabs.Interaction.Sequential

namespace CloudLabs.Cdb.Refinement

open Interaction

variable {X : Refinement} {role : Role} {mode : Mode} {w u : World}

section Heartbeats

-- A member is not told apart by a heartbeat, and only others fail it.
theorem beat_triple (addr : Addr) :
    Triple cdb X.terms X.contract role .outside (fun _ => True) (Coordinator.call addr .HEARTBEAT)
      fun reply _ => reply = none → addr ≠ X.survivor := by
  refine Coordinator.call_triple (.const _) (fun _ => .const _) fun w ha _ => ⟨trivial, ?_⟩
  intro choice reply u hT hcall
  obtain ⟨r, hanswered, hall⟩ := id ha
  have hhandle : (w.node addr).participant.handle .HEARTBEAT = .ok (.void, (w.node addr).participant) := rfl
  obtain ⟨p, hnode, hcases⟩ := World.call_handled hhandle hcall
  obtain ⟨hc, hlogged, -, hreplies, -⟩ := World.call_frame hcall
  have hsame : p = (w.node addr).participant ∧ u.vetoed = w.vetoed := by
    rcases hcases with ⟨-, hp, hvetoed⟩ | ⟨-, hp, hvetoed, -⟩ | ⟨stage, cmd, hprepares, -⟩
    · exact ⟨hp, hvetoed⟩
    · exact ⟨hp.elim id id, hvetoed⟩
    · cases hprepares
  have hquiet : Quiet w u := by
    refine ⟨hc, hlogged, hsame.2, hreplies, fun other _ => ?_⟩
    rw [hnode, hsame.1, Function.update_eq_self]
  obtain ⟨-, hreply⟩ := call_cases hanswered hT hhandle hcall
  refine ⟨Withstands.keep (r := Quiet) (P := X.Agrees) ha hquiet, ⟨fun _ => hquiet, fun _ => trivial⟩, fun hnone => ?_⟩
  rcases hreply with ⟨hsome, -⟩ | ⟨-, hne, -⟩ | ⟨stage, cmd, hprepares, -⟩
  · cases hnone.symm.trans hsome
  · exact hne
  · cases hprepares

-- One that has been dropped answers nothing.
theorem absent_triple (hmode : mode ≠ .outside) (addr : Addr) (c : Coordinator) (request : Request)
    (habsent : ¬ c.participants.contains addr) (hprepares : request.prepares = none)
    (hok : ∀ p : Participant, ∃ answer q, p.handle request = .ok (answer, q)) :
    Triple cdb X.terms X.contract role mode (fun w => X.Idle w ∧ w.coordinator = c)
      (Coordinator.call addr request) fun reply w => reply = none ∧ X.Idle w := by
  have hidleStable : X.contract.Stable role mode X.Idle := (X.known X.Idle inferInstance).stable hmode
  refine call_knows hmode (hidleStable.and (stable_coordinator hmode (· = c)))
    (fun reply => Contract.Stable.and (.const _) hidleStable) ?_
  rintro w choice reply u ⟨hidle, rfl⟩ hT hcall
  have hmember : addr ∉ w.coordinator.participants := habsent
  obtain ⟨r, store, nextId, hanswered, -⟩ := id hidle
  have hne : X.survivor ≠ addr := fun heq => hmember (heq ▸ hanswered.2.1)
  obtain ⟨answer, q, hhandle⟩ := hok (w.node addr).participant
  obtain ⟨p, hnode, hcases⟩ := World.call_handled hhandle hcall
  obtain ⟨hc, hlogged, -, hreplies, -⟩ := World.call_frame hcall
  have hnone : reply = none ∧ u.vetoed = w.vetoed := by
    rcases hcases with ⟨hreply, -, hvetoed⟩ | ⟨hreply, -, hvetoed, -⟩ | ⟨stage, cmd, hprepares', -⟩
    · obtain ⟨n, -, hchoice⟩ := World.call_node hcall
      rcases hchoice with ⟨hdone, -⟩ | ⟨-, hlost, -⟩ | ⟨-, hlost, -⟩ | ⟨stage, -, hrefuse, -⟩
      · exact absurd hdone (hT.2 hmember)
      · exact ⟨hlost, hvetoed⟩
      · exact ⟨hlost, hvetoed⟩
      · obtain ⟨cmd, hcmd, -⟩ := Node.refuse_eq_some hrefuse
        cases hprepares.symm.trans hcmd
    · exact ⟨hreply, hvetoed⟩
    · cases hprepares.symm.trans hprepares'
  have hidle' : X.Idle u := by
    refine hidle.frame hreplies (issued_call hcall) hnone.2 (by rw [hc]) (by rw [hc]; exact hanswered.2.1)
      ?_ fun other hother => ?_
    · rw [hnode, Function.update_of_ne hne]
    · rw [hc] at hother
      have hneq : other ≠ addr := fun heq => hmember (heq ▸ hother)
      refine ⟨hother, ?_⟩
      rw [hnode, Function.update_of_ne hneq]
  exact ⟨hidle'.agrees, hnone.1, hidle'⟩

theorem drop_triple (hmode : mode ≠ .outside) (addr : Addr) (hne : addr ≠ X.survivor) :
    Triple cdb X.terms X.contract role mode X.Idle (Coordinator.eraseParticipant addr) fun _ => X.Idle := by
  have hidleStable : X.contract.Stable role mode X.Idle := (X.known X.Idle inferInstance).stable hmode
  refine modify_knows hmode hidleStable hidleStable fun w hidle => ?_
  obtain ⟨_, _, _, hanswered, -⟩ := id hidle
  have hidle' : X.Idle { w with coordinator := { w.coordinator with
      participants := w.coordinator.participants.erase addr } } :=
    hidle.frame rfl rfl rfl rfl (mem_erase_of_ne hanswered.2.1 hne) rfl
      fun _ hother => ⟨Std.ExtTreeSet.mem_of_mem_erase hother, rfl⟩
  exact ⟨hidle'.agrees, hidle'⟩

-- The heartbeats decide no update.
def undecided : Deciding X.terms X.contract role mode where
  settled := X.known X.Idle inferInstance
  toCommit _ _ := X.never
  committing _ _ _ _ := X.never
  uncommitted _ _ _ _ _ := X.never
  committed _ _ _ := X.never
  replied _ _ := X.never
  logCommit _ _ := Triple.of_false fun _ _ h => h
  commit _ _ _ _ _ := Triple.of_false fun _ _ h => h
  dropUncommitted _ _ _ _ _ := Triple.of_false fun _ _ h => h
  logCommitDone _ _ _ := Triple.of_false fun _ _ h => h.1
  commitLost _ _ _ _ _ h := h.elim
  sendCommit _ _ _ _ := Triple.of_false fun _ _ h => h
  keepCommit _ _ _ _ h := h.elim
  finishNone _ _ _ h := h.elim
  toAbort _ _ := X.never
  aborting _ _ _ := X.never
  unaborted _ _ _ _ := X.never
  aborted _ _ := X.never
  logAbort _ _ := Triple.of_false fun _ _ h => h
  abort _ _ _ _ := Triple.of_false fun _ _ h => h
  dropUnaborted _ _ _ _ := Triple.of_false fun _ _ h => h
  logAbortDone _ _ := Triple.of_false fun _ _ h => h.1
  abortLost _ _ _ _ h := h.elim
  sendAbort _ _ _ := Triple.of_false fun _ _ h => h
  keepAbort _ _ _ h := h.elim

-- Nobody comes back.
def rejoining (hmode : mode ≠ .outside) : Rejoining X.terms X.contract role mode where
  toDeciding := undecided
  gone addr := addr ≠ X.survivor
  known _ := True
  configured _ _ _ _ := trivial
  beat := beat_triple
  ready := X.known X.Idle inferInstance
  absent := fun addr w _ ⟨_, _, _, hanswered, _⟩ habsent heq => habsent (heq ▸ hanswered.2.1)
  drop := drop_triple hmode
  member _ _ _ h _ := h
  told _ _ := X.never
  reset _ := X.never
  lagging _ _ := X.never
  donorLost _ _ _ := X.never
  fetched _ _ := X.never
  copied _ := X.never
  returning _ := X.never
  joined := X.never
  setNextId addr c _ habsent _ :=
    (absent_triple hmode addr c (.SET_NEXT_ID c.nextId) habsent rfl fun _ => ⟨_, _, rfl⟩).post
      fun reply w _ h => by
        rw [h.1]
        exact h.2
  recovered _ := Triple.of_false fun _ _ h => h
  nextId addr c _ habsent _ :=
    (absent_triple hmode addr c .NEXT_ID habsent rfl fun _ => ⟨_, _, rfl⟩).post fun reply w _ h => by
      rw [h.1]
      exact h.2
  same _ _ _ h := h.elim
  prepared _ _ _ _ h := h.elim
  behind _ _ _ _ h := h.elim
  snapshot _ _ _ := Triple.of_false fun _ _ h => h
  dropDonor _ _ _ := Triple.of_false fun _ _ h => h
  recover _ _ _ := Triple.of_false fun _ _ h => h.1
  catchUp _ _ := Triple.of_false fun _ _ h => h.1
  noDonor _ _ _ h := h.elim
  insert _ := Triple.of_false fun _ _ h => h
  forget := Triple.of_false fun _ _ h => h
  copy := Triple.of_false fun _ _ h => h

end Heartbeats

theorem environment_quiet {choice : Choice} (hT : X.terms.environment w choice)
    (h : w.environment choice = some u) : Quiet w u := by
  cases choice with
  | deliver index =>
      obtain ⟨message, hmessage, rfl⟩ := Option.map_eq_some_iff.mp h
      have habsent := hT message hmessage
      refine ⟨rfl, rfl, rfl, rfl, fun addr haddr => ?_⟩
      have hneq : addr ≠ message.1 := fun heq => habsent (heq ▸ haddr)
      exact Function.update_of_ne hneq _ _
  | restart addr =>
      cases h
      refine ⟨rfl, rfl, rfl, rfl, fun other hother => ?_⟩
      have hneq : other ≠ addr := fun heq => hT (heq ▸ hother)
      exact Function.update_of_ne hneq _ _
  | _ => cases h

theorem honours (X : Refinement) : Honours X.service X.terms X.contract where
  main passes w ha hidle := by
    let J : Rejoining X.terms X.contract .leader .inside := rejoining (by decide)
    have hmain := J.heartbeatParticipants_triple (fun _ h => h) (fun _ h => h) passes
    exact Safe.congr (show cdb.exec = X.service.exec from rfl) (hmain.ends ha trivial)
  handler client w ha := by
    let V (found : World) : Serving X.terms X.contract .worker .inside :=
      serving (by decide) client found.replies
    have hhandle := Serving.handle_triple V (fun w hidle => ⟨rfl, hidle⟩) (fun found w hw => hw.2) client
      (X.asked client) fun _ => ⟨rfl, rfl⟩
    exact Safe.congr (show cdb.exec = X.service.exec from rfl) (hhandle.ends ha trivial)
  environment w choice u ha hT h := by
    have hquiet := environment_quiet hT h
    exact ⟨Withstands.keep (r := Quiet) (P := X.Agrees) ha hquiet, hquiet, trivial⟩
  effect := False.elim
  restart _ _ _ hT _ := hT.elim

theorem Idle.level (h : X.Idle w) : ∃ r, X.Answered w r ∧ w.Everyone (·.store.view = r.map) := by
  obtain ⟨r, store, nextId, hanswered, hview, -, -, hall⟩ := h
  exact ⟨r, hanswered, hall.mono fun p hp => by rw [hp.store, hview]⟩

theorem idle_start (X : Refinement) : X.Idle X.start := by
  refine ⟨⟨X.store.view, 0⟩, X.store, X.start.coordinator.nextId, ⟨fun veto _ => ?_, X.member, X.alive⟩, rfl,
    ⟨?_, ?_⟩, rfl, X.same⟩
  · rw [X.unserved]
    rfl
  · rw [World.issued, X.unlogged]
    rfl
  · rw [X.unvetoed]
    nofun

theorem kept_pool (X : Refinement) (passes : Nat) : Kept X.service X.terms X.contract (X.pool passes) := by
  have hidle := X.idle_start
  refine ⟨hidle.agrees, by simp, fun _ => hidle, nofun, fun thread program hp => ?_⟩
  have hlt : thread < 1 := (List.getElem?_eq_some_iff.mp hp).1
  obtain rfl : thread = 0 := by omega
  rw [List.mem_singleton.mp (List.mem_of_getElem? hp), Mode.of_none]
  exact X.honours.main passes X.start hidle.agrees hidle

theorem Allows.notifyIf {pick : World → Effect → Choice} (hpick : X.Allows pick)
    (hmember : X.survivor ∈ w.coordinator.participants) (dead : Bool) :
    (Coordinator.notifyIf dead).outcome cdb pick .outside w = some ((), .outside, w) := by
  cases dead with
  | false => rfl
  | true =>
      obtain ⟨-, answer, hexec⟩ := hpick w .notifyAll hmember trivial
      have hanswer : answer = ((), w) := by
        cases hchoice : pick w .notifyAll with
        | done => rw [hchoice] at hexec; exact (Option.some.inj hexec).symm
        | _ => rw [hchoice] at hexec; cases hexec
      rw [hanswer] at hexec
      show ((cdb.exec w .notifyAll (pick w .notifyAll)).bind fun answer =>
        some ((), Mode.outside, answer.2)) = _
      rw [hexec]
      rfl

-- A request that has the mutex to itself is answered once.
theorem Idle.answers {pick : World → Effect → Choice} (hidle : X.Idle w) (hpick : X.Allows pick)
    (client : Client) :
    ∃ msg t, (Coordinator.handle (client, X.asked client)).outcome cdb pick .outside w =
      some ((), .outside, t) ∧ t.replies = (client, msg) :: w.replies ∧ X.Idle t := by
  have hinside : Mode.inside ≠ .outside := by decide
  have hperforms : X.contract.Performs cdb X.terms pick := fun _ u effect ha hissue => by
    obtain ⟨_, hanswered, -⟩ := id ha
    exact hpick u effect hanswered.2.1 hissue
  let V : Serving X.terms X.contract .worker .inside := serving hinside client w.replies
  cases hasked : X.asked client with
  | get cmd =>
      have hbody := V.handleGet_triple hinside client cmd ⟨rfl, hasked.symm⟩
      obtain ⟨answered, t, hrun, hat, ⟨⟨msg, hreplies⟩, hsettled⟩, hanswered⟩ :=
        hbody.outcome hperforms hidle.agrees ⟨rfl, hidle⟩ nofun
      refine ⟨msg, t, ?_, hreplies, hsettled⟩
      obtain ⟨_, _, _, hmember, -⟩ := id hsettled
      have hcritical := Program.outcome_critical hrun
      show (Program.bind _ _).outcome cdb pick .outside w = _
      rw [Program.outcome_bind, hcritical, Option.bind_some]
      match answered with
      | none => rfl
      | some (true, dead) => exact hpick.notifyIf hmember.2.1 dead
      | some (false, dead) => exact (hanswered dead rfl).elim
  | set cmd =>
      have hbody := V.handleUpdate_triple hinside client (.set cmd) (fun id => .PREPARE_SET { cmd with id })
        ⟨rfl, hasked.symm⟩ rfl (fun _ => rfl) (fun _ => rfl) (.ret ()) fun id =>
          Triple.ret ((V.replied _ _).stable hinside) (V.finishSet client { cmd with id })
      obtain ⟨_, t, hrun, -, ⟨msg, hreplies⟩, hsettled⟩ :=
        hbody.outcome hperforms hidle.agrees ⟨rfl, hidle⟩ nofun
      exact ⟨msg, t, Program.outcome_critical hrun, hreplies, hsettled⟩
  | del cmd =>
      have hbody := V.handleUpdate_triple hinside client (.del cmd) (fun id => .PREPARE_DEL { cmd with id })
        ⟨rfl, hasked.symm⟩ rfl (fun _ => rfl) (fun _ => rfl) (Coordinator.rememberDelKeys cmd.keys) fun id =>
          V.finishDel client { cmd with id }
      obtain ⟨_, t, hrun, -, ⟨msg, hreplies⟩, hsettled⟩ :=
        hbody.outcome hperforms hidle.agrees ⟨rfl, hidle⟩ nofun
      exact ⟨msg, t, Program.outcome_critical hrun, hreplies, hsettled⟩

-- Every member is as far as the reference or one request ahead of it, and all
-- that has been answered is what the reference answers. Between two requests the
-- members hold the map of the reference, and the next request is answered.
theorem refines (X : Refinement) {passes : Nat} {pool : System}
    (hreach : X.service.Reachable X.terms (X.pool passes) pool) :
    X.Agrees pool.shared ∧ (pool.unlocked →
      (∃ r, X.Answered pool.shared r ∧ pool.shared.Everyone (·.store.view = r.map)) ∧
      ∀ pick, X.Allows pick → ∀ client, ∃ msg t r,
        (Coordinator.handle (client, X.asked client)).outcome cdb pick .outside pool.shared =
          some ((), .outside, t) ∧
        t.replies = (client, msg) :: pool.shared.replies ∧ X.Answered t r ∧
          t.Everyone (·.store.view = r.map)) := by
  have hkept := hreach.kept X.honours (X.kept_pool passes)
  refine ⟨hkept.1, fun hfree => ?_⟩
  have hidle := hkept.idle hfree
  refine ⟨hidle.level, fun pick hpick client => ?_⟩
  obtain ⟨msg, t, hrun, hreplies, hidle'⟩ := Idle.answers hidle hpick client
  obtain ⟨r, hanswered, hall⟩ := hidle'.level
  exact ⟨msg, t, r, hrun, hreplies, hanswered, hall⟩

-- Two members; the first client puts a value and the others ask for it.
def pair : Refinement where
  start := { World.initial [[0], [1]] ⟨[], [], 0, ∅, ∅⟩ fun _ => ⟨⟨∅, 5, [], ⟨[], [], 0, ∅, ∅⟩⟩, true⟩ with
    coordinator := { Coordinator.start [[0], [1]] ⟨[], [], 0, ∅, ∅⟩ with
      nextId := 5, participants := Std.ExtTreeSet.ofList ([[0], [1]] : List Addr) } }
  store := ∅
  survivor := [0]
  asked client := if client = 0 then .set ⟨0, bytes "k", bytes "v"⟩ else .get ⟨bytes "k"⟩
  member := by decide
  alive := rfl
  same _ _ := ⟨rfl, rfl, rfl⟩
  unlogged := rfl
  unvetoed := rfl
  unserved := rfl

-- A call to the survivor is answered, and no other call is.
def pair.pick (_ : World) (effect : Effect) : Choice :=
  match effect with
  | .call addr _ => if addr = [0] then .done else .lost
  | _ => .done

theorem pair_allows : pair.Allows pair.pick := by
  intro w effect hmember hissue
  cases effect with
  | call addr request =>
      by_cases haddr : addr = [0]
      · subst haddr
        exact ⟨⟨fun _ => .inl rfl, fun habsent => absurd hmember habsent⟩, _, rfl⟩
      · have hpick : pair.pick w (.call addr request) = .lost := if_neg haddr
        rw [hpick]
        exact ⟨⟨fun heq => absurd heq haddr, fun _ => nofun⟩, _, rfl⟩
  | rand => exact hissue.elim
  | assertFalse => exact hissue.elim
  | _ => exact ⟨trivial, _, rfl⟩

def pair.allowed (pool : System) (move : Move Choice Client) : Bool :=
  match move with
  | .advance thread choice => match pool.next? thread, choice with
      | some (.call addr _), .done => decide (addr ∈ pool.shared.coordinator.participants)
      | some (.call addr _), _ => decide (addr ≠ [0])
      | _, _ => true
  | .arrive _ => true
  | _ => false

theorem pair_permits (pool : System) (move : Move Choice Client) (h : pair.allowed pool move = true) :
    pair.terms.permits pool move := by
  cases move with
  | advance thread choice =>
      intro effect hnext
      cases effect with
      | call addr request =>
          simp only [pair.allowed, hnext] at h
          cases choice with
          | done => exact ⟨fun _ => .inl rfl, fun habsent => absurd (of_decide_eq_true h) habsent⟩
          | _ => exact ⟨fun heq => absurd heq (of_decide_eq_true h), fun _ => nofun⟩
      | _ => trivial
  | arrive request => trivial
  | _ => cases h

set_option maxRecDepth 10000 in
-- The second member dies before it has prepared the update.
theorem refines_pair : ∃ pool : System, pool.unlocked ∧ pool.shared.replies = [(0, updateOkString)] ∧
    pair.Agrees pool.shared ∧ ∃ msg t,
      (Coordinator.handle (1, pair.asked 1)).outcome cdb pair.pick .outside pool.shared = some ((), .outside, t) ∧
        t.replies = [(1, msg), (0, updateOkString)] := by
  have hrun : (Transition.run (Transition.guard pair.allowed pair.service.step) (pair.pool 1) (.arrive 0 ::
      (List.replicate 7 Choice.done ++ [Choice.lost] ++ List.replicate 10 Choice.done).map (.advance 1))).any
        (fun pool => pool.unlocked && pool.shared.replies = [(0, updateOkString)]) = true := by
    decide
  obtain ⟨pool, hpool, hend⟩ := (Option.any_eq_true _ _).mp hrun
  simp only [Bool.and_eq_true, decide_eq_true_eq] at hend
  obtain ⟨hagrees, hserves⟩ := refines pair (Service.Reachable.of_guard pair.service pair_permits hpool)
  obtain ⟨msg, t, -, houtcome, hreplies, -⟩ := (hserves hend.1).2 pair.pick pair_allows 1
  rw [hend.2] at hreplies
  exact ⟨pool, hend.1, hend.2, hagrees, msg, t, houtcome, hreplies⟩

end CloudLabs.Cdb.Refinement
