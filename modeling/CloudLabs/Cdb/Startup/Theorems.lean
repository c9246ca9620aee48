import CloudLabs.Cdb.Replicas.Theorems
import CloudLabs.Cdb.Startup.Updates

namespace CloudLabs.Cdb

open Interaction Coordinator RecordManager

namespace Startup

variable {m : RecordManager} {role : Role} {mode : Mode} {w : World} {id : UInt32}

section Handlers

-- The update has been logged, and nothing has been decided yet.
def Undecided (m : RecordManager) (id : UInt32) (w : World) : Prop :=
  Agrees m w RECORD_COMMIT id ∧ Agrees m w RECORD_ABORT id

theorem Entitled.inside : Entitled role .inside := fun h => absurd rfl h

-- Whoever holds the mutex may resolve any update.
theorem left_inside : Mode.inside ≠ .inside → id ∈ m.records := fun h => absurd rfl h

theorem Undecided.stable : (contract m).Stable role .inside (Undecided m id) :=
  fun _ _ h hrely hu => ⟨h.1.rely left_inside hrely hu, h.2.rely left_inside hrely hu⟩

-- A handler has only its own update to resolve.
theorem owes_nil (m : RecordManager) (w : World) : Owes m mode [] w :=
  ⟨List.nodup_nil, fun _ hr => absurd hr List.not_mem_nil, fun _ _ hr => absurd hr List.not_mem_nil⟩

-- A new update has an id of its own.
theorem undecided_of_fresh (ha : Fair m w) (hleft : id ∉ m.records) (hfresh : ∀ r ∈ w.logged, r.id ≠ id) :
    Fair m (w.log RECORD_UNRESOLVED id) ∧ Undecided m id (w.log RECORD_UNRESOLVED id) := by
  have hnone : ∀ status, ¬ w.Decided status id := by
    rintro status ⟨r, hr, -, hid⟩
    exact hfresh r hr hid
  have hagrees : ∀ status, Agrees m w status id := fun status =>
    ⟨⟨fun hc => absurd hc (hnone _), fun ha => absurd ha (hnone _)⟩,
      fun r hr => absurd (Std.ExtTreeMap.mem_iff_isSome_getElem?.mpr (by rw [hr]; rfl)) hleft⟩
  have hkeep : ∀ status, Agrees m (w.log RECORD_UNRESOLVED id) status id := fun status =>
    (hagrees status).log (fun _ hnew => absurd hnew (by decide)) fun _ hnew => absurd hnew (by decide)
  exact ⟨ha.log (fun _ _ => hagrees _) fun _ => hleft, hkeep _, hkeep _⟩

theorem logUnresolved_triple (id : UInt32) :
    Triple cdb (undisturbed m) (contract m) role .inside (fun _ => True) (Coordinator.log RECORD_UNRESOLVED id)
      fun _ => Undecided m id := by
  refine Coordinator.log_triple (.const _) Undecided.stable fun w ha _ =>
    ⟨fun h => absurd rfl h, fun hT => ?_⟩
  obtain ⟨hleft, hfresh⟩ := hT rfl
  obtain ⟨hfair, hundecided⟩ := undecided_of_fresh ha hleft hfresh
  exact ⟨hfair, give_of_log left_inside, hundecided⟩

theorem resolveUpdate_triple {request : Request} (hrequest : request.isDecision = false) (client : Client)
    {finish : Code Unit} (hfinish : finish.Within Effect.Upkeep) :
    Triple cdb (undisturbed m) (contract m) role .inside (Undecided m id)
      (resolveUpdate request client id finish) fun _ _ => True := by
  have hnone : ∀ r ∈ ([] : List Record), r.id ≠ id := fun r hr => absurd hr List.not_mem_nil
  have hget : Triple cdb (undisturbed m) (contract m) role .inside (Undecided m id) Coordinator.get
      fun _ => Undecided m id := upkeep_triple get_upkeep Undecided.stable
  have hprepare := forEachParticipant_within (fun _ h => h.passive) (fun _ => hrequest) judgePrepare
  refine Triple.bind hget fun c => ?_
  refine Triple.bind (passive_triple (hprepare _ _) Undecided.stable) fun phase => ?_
  refine Triple.bind hget fun c => ?_
  split
  · exact (passive_triple (sendError_within client _) (.const True)).pre fun _ _ _ => trivial
  split
  · refine Triple.bind ((commitDbRequest_triple .inside (some client) phase.2 hnone left_inside).pre
      fun w _ hw => ⟨hw.1, owes_nil m w⟩) fun dead => ?_
    refine Triple.bind (upkeep_triple hfinish (Owes.stable [])) fun _ => ?_
    exact (upkeep_triple (notifyIf_upkeep dead) (Owes.stable [])).post fun _ _ _ _ => trivial
  · refine Triple.bind ((abortDbRequest_triple .inside (some client) phase.2 hnone left_inside).pre
      fun w _ hw => ⟨hw.2, owes_nil m w⟩) fun dead => ?_
    exact (upkeep_triple (notifyIf_upkeep dead) (Owes.stable [])).post fun _ _ _ _ => trivial

theorem handleUpdate_triple {request : UInt32 → Request} (hrequest : ∀ id, (request id).isDecision = false)
    (client : Client) {finish : Code Unit} (hfinish : finish.Within Effect.Upkeep) :
    Triple cdb (undisturbed m) (contract m) role .inside (fun _ => True) (handleUpdate request client finish)
      fun _ _ => True := by
  refine Triple.bind (upkeep_triple get_upkeep (.const True)) fun c => ?_
  split
  · exact passive_triple (sendError_within client none) (.const True)
  · refine Triple.bind (upkeep_triple fetchAddNextId_upkeep (.const True)) fun id => ?_
    refine Triple.bind (logUnresolved_triple id) fun _ => ?_
    exact resolveUpdate_triple (hrequest id) client hfinish

-- A scope under the lock guard.
theorem critical_triple {α : Type} {body : Code α}
    (h : Triple cdb (undisturbed m) (contract m) role .inside (fun _ => True) body fun _ _ => True) :
    Triple cdb (undisturbed m) (contract m) role .outside (fun _ => True) (Program.critical body)
      fun _ _ => True :=
  Triple.critical (.const _) (h.imp (fun _ _ _ => trivial) fun _ _ _ _ => ⟨trivial, trivial⟩)
    (fun _ _ _ _ _ _ => trivial) fun _ => .const _

theorem handle_triple (request : Client × Command) :
    Triple cdb (undisturbed m) (contract m) role .outside (fun _ => True) (Coordinator.handle request)
      fun _ _ => True := by
  obtain ⟨client, cmd⟩ := request
  cases cmd with
  | get cmd =>
      have hbody : Program.Within Effect.Passive (do
          if (← Coordinator.get).participants.isEmpty then
            sendError client none
            return none
          else
            return some (← getFromParticipants client cmd (← Coordinator.get).participants.toList false)) := by
        have hget : Program.Within Effect.Passive Coordinator.get := get_upkeep.mono fun _ => Effect.Upkeep.passive
        refine hget.bind fun c => ?_
        split
        · exact (sendError_within client none).bind fun _ => trivial
        · exact hget.bind fun c => (getFromParticipants_within client cmd _ false).bind fun _ => trivial
      refine Triple.bind (critical_triple (passive_triple hbody (.const True))) fun answered => ?_
      match answered with
      | none => exact Triple.ret (.const _) fun _ _ h => h
      | some (true, dead) => exact upkeep_triple (notifyIf_upkeep dead) (.const True)
      | some (false, dead) =>
          refine Triple.bind (passive_triple (sendError_within client none) (.const True)) fun _ => ?_
          exact upkeep_triple (notifyIf_upkeep dead) (.const True)
  | set cmd =>
      simp only [Coordinator.handle, handleDbSetRequest_eq]
      exact critical_triple (handleUpdate_triple (fun _ => rfl) client trivial)
  | del cmd =>
      simp only [Coordinator.handle, handleDbDelRequest_eq]
      exact critical_triple (handleUpdate_triple (fun _ => rfl) client (rememberDelKeys_upkeep cmd.keys))

end Handlers

section Main

theorem readmitParticipant_triple (addr : Addr) :
    Triple cdb (undisturbed m) (contract m) role .inside (fun _ => True) (readmitParticipant addr)
      fun _ _ => True := by
  refine Triple.bind (upkeep_triple get_upkeep (.const True)) fun c => ?_
  split
  · exact Triple.ret (.const _) fun _ _ h => h
  refine Triple.bind (upkeep_triple (recoverParticipant_upkeep addr) (.const True)) fun recovered => ?_
  match recovered with
  | none => exact Triple.ret (.const _) fun _ _ h => h
  | some false => exact Triple.ret (.const _) fun _ _ h => h
  | some true =>
      refine Triple.bind (upkeep_triple (insertParticipant_upkeep addr) (.const True)) fun _ => ?_
      refine Triple.bind (upkeep_triple forgetDelKeys_upkeep (.const True)) fun _ => ?_
      refine Triple.bind (handleUnfinishedRecords_triple .inside) fun _ => ?_
      exact Triple.ret (.const _) fun _ _ h => h

theorem heartbeatParticipant_triple (addr : Addr) :
    Triple cdb (undisturbed m) (contract m) role .outside (fun _ => True) (heartbeatParticipant addr)
      fun _ _ => True := by
  have hdrop : Triple cdb (undisturbed m) (contract m) role .outside (fun _ => True)
      (Program.critical (eraseParticipant addr)) fun _ _ => True :=
    critical_triple (upkeep_triple (eraseParticipant_upkeep addr) (.const True))
  refine Triple.bind (upkeep_triple (call_upkeep addr rfl rfl) (.const True)) fun reply => ?_
  cases reply with
  | none => exact hdrop
  | some _ =>
      refine Triple.bind (critical_triple (readmitParticipant_triple addr)) fun ok => ?_
      split
      · exact Triple.ret (.const _) fun _ _ h => h
      · exact hdrop

theorem heartbeatParticipants_triple (passes : Nat) :
    Triple cdb (undisturbed m) (contract m) role .outside (fun _ => True) (heartbeatParticipants passes)
      fun _ _ => True := by
  have hlist : ∀ addrs : List Addr, Triple cdb (undisturbed m) (contract m) role .outside (fun _ => True)
      (heartbeatList addrs) fun _ _ => True := by
    intro addrs
    induction addrs with
    | nil => exact Triple.ret (.const _) fun _ _ h => h
    | cons addr rest ih => exact Triple.bind (heartbeatParticipant_triple addr) fun _ => ih
  induction passes with
  | zero => exact Triple.ret (.const _) fun _ _ h => h
  | succ passes ih =>
      refine Triple.bind (upkeep_triple get_upkeep (.const True)) fun c => ?_
      exact Triple.bind (hlist _) fun _ => ih

theorem recovery_triple
    (hinit : Triple cdb (undisturbed m) (contract m) .leader mode (fun _ => True) initParticipants fun _ _ => True) :
    Triple cdb (undisturbed m) (contract m) .leader mode (fun _ => True) recovery fun _ _ => True :=
  Triple.bind (upkeep_triple initNextId_upkeep (.const True)) fun _ =>
    Triple.bind hinit fun _ => handleUnfinishedRecords_triple fun _ => rfl

-- recovery() before the first request, and among the handlers.
theorem boots (ha : Fair m w) : Boots cdb (undisturbed m) (contract m) false Coordinator.recovery w := by
  have hbody := get_upkeep.bind fun c => initParticipantList_upkeep c.participantAddrs
  have halone : Triple cdb (undisturbed m) (contract m) .leader .alone (fun _ => True) recovery fun _ _ => True :=
    recovery_triple (Triple.critical_alone (upkeep_triple hbody (.const True)) fun _ => .const True)
  have hshared : Triple cdb (undisturbed m) (contract m) .leader .outside (fun _ => True) recovery
      fun _ _ => True :=
    recovery_triple (critical_triple (upkeep_triple hbody (.const True)))
  refine ⟨recovery_balanced, (halone w ha trivial).mono fun _ _ _ _ _ => trivial, fun _ => ⟨fun _ => trivial, ?_⟩⟩
  exact fun passes => (Triple.bind hshared fun _ => heartbeatParticipants_triple passes).ends ha trivial

theorem honours (m : RecordManager) : Honours cdb (undisturbed m) (contract m) where
  main passes w ha _ := (heartbeatParticipants_triple passes).ends ha trivial
  handler request w ha := (handle_triple request).ends ha trivial
  effect _ mode w effect choice hT := by
    cases effect with
    | copyRecords => exact fun _ => hT (by decide)
    | _ => exact hT
  environment w choice u ha _ henvironment := by
    have hframe : u.coordinator = w.coordinator ∧ u.logged = w.logged ∧ u.sent = w.sent := by
      cases choice with
      | deliver index =>
          obtain ⟨message, -, rfl⟩ := Option.map_eq_some_iff.mp henvironment
          exact ⟨rfl, rfl, rfl⟩
      | restart addr =>
          obtain rfl := (Option.some.inj henvironment).symm
          exact ⟨rfl, rfl, rfl⟩
      | _ => cases henvironment
    obtain ⟨hcoordinator, hlogged, hsent⟩ := hframe
    have hq : (contract m).quiet w u := quiet_of_logged hlogged
    exact ⟨ha.frame (by rw [hcoordinator]) hlogged fun message hm => .inl (hsent ▸ hm), hq, hq.1⟩
  restart _ _ _ hT _ := hT.elim

end Main

section Start

-- What is read back from a log bears its id.
theorem replay_id {state : UInt32 × IdMap Record} (h : ∀ (id : UInt32) (r : Record), state.2[id]? = some r → r.id = id)
    (r : Record) : ∀ (id : UInt32) (s : Record), (replay state r).2[id]? = some s → s.id = id := by
  intro id s hs
  simp only [replay] at hs
  split at hs
  · rw [Std.ExtTreeMap.getElem?_erase] at hs
    split at hs
    · cases hs
    · exact h id s hs
  · rw [Std.ExtTreeMap.getElem?_insert] at hs
    split at hs
    · rename_i heq
      cases hs
      exact Std.LawfulEqCmp.eq_of_compare heq
    · exact h id s hs

theorem id_of_load {content cmdContent : Bytes} (hload : RecordManager.load content cmdContent = .ok m) (id : UInt32)
    (r : Record) (hr : m.records[id]? = some r) : r.id = id := by
  obtain ⟨rs, -, -, -, hreplay⟩ := exists_of_load hload
  have hfold : ∀ (rs : List Record) (state : UInt32 × IdMap Record),
      (∀ (id : UInt32) (r : Record), state.2[id]? = some r → r.id = id) →
        ∀ (id : UInt32) (r : Record), (rs.foldl replay state).2[id]? = some r → r.id = id := by
    intro rs
    induction rs with
    | nil => exact fun _ h => h
    | cons r rest ih => exact fun state h => ih _ (replay_id h r)
  have hrecords := hfold rs (0, ∅) (fun id r h => by simp at h)
  rw [hreplay] at hrecords
  exact hrecords id r hr

theorem fair_initial {content cmdContent : Bytes} (hload : RecordManager.load content cmdContent = .ok m)
    (participantAddrs : List Addr) (node : Addr → Node) : Fair m (World.initial participantAddrs m node) := by
  have hnone : ∀ status id, ¬ (World.initial participantAddrs m node).Decided status id := by
    rintro status id ⟨r, hr, -⟩
    exact List.not_mem_nil hr
  have hconforms : ∀ status id, (World.initial participantAddrs m node).Conforms status id := fun status id =>
    ⟨fun hc => absurd hc (hnone _ _), fun ha => absurd ha (hnone _ _)⟩
  refine ⟨fun id h => hnone _ _ h.1, fun id r _ => hconforms _ _, fun id r hr => ?_, fun id r hr => .inl hr,
    fun message hm => absurd hm List.not_mem_nil, fun r hr => absurd hr List.not_mem_nil⟩
  refine ⟨id_of_load hload id r hr, hconforms _ _, fun s hs => ?_⟩
  cases hs.symm.trans hr
  exact Iff.rfl

end Start

end Startup

-- What the log has left and what the clients of this run ask for are resolved
-- apart from each other.
structure System.Separated (m : RecordManager) (pool : System) : Prop where
  recovery : ∀ thread effect id, pool.mode thread ≠ .inside → pool.next? thread = some effect →
    effect.resolves = some id → id ∈ m.records
  requests : ∀ r ∈ pool.shared.logged, r.status = RECORD_UNRESOLVED → r.id ∉ m.records
  logged : ∀ id, ¬ (pool.shared.Decided RECORD_COMMIT id ∧ pool.shared.Decided RECORD_ABORT id)
  sent : ∀ id addr addr', (addr, .COMMIT id) ∈ pool.shared.sent → (addr', .ABORT id) ∉ pool.shared.sent

theorem separated_of_reachable (participantAddrs : List Addr) (content cmdContent : Bytes) (m : RecordManager)
    (node : Addr → Node) (pool : System) (hload : RecordManager.load content cmdContent = .ok m)
    (hreach : cdb.Reachable (Startup.undisturbed m) (System.boot (World.initial participantAddrs m node)) pool) :
    pool.Separated m := by
  have hfair := Startup.fair_initial hload participantAddrs node
  have hkept : Kept cdb (Startup.undisturbed m) (Startup.contract m) pool :=
    hreach.kept (Startup.honours m) ⟨hfair, Startup.boots hfair⟩
  refine ⟨fun thread effect id hmode hnext hid => ?_, hkept.1.fresh, hkept.1.exclusive, ?_⟩
  · exact hkept.issue hnext hmode id hid
  · intro id addr addr' hcommit habort
    have hcommitted : pool.shared.Decided RECORD_COMMIT id := hkept.1.sent _ hcommit
    have haborted : pool.shared.Decided RECORD_ABORT id := hkept.1.sent _ habort
    exact hkept.1.exclusive id ⟨hcommitted, haborted⟩

namespace Startup

section Runs

-- The records and copies that a run may make.
def allows (m : RecordManager) (mode : Mode) (w : World) (effect : Effect) : Bool :=
  match effect with
  | .log status id => status ≠ RECORD_UNRESOLVED || (id ∉ m.records && w.logged.all fun r => r.id ≠ id)
  | .copyRecords => mode = .inside || w.coordinator.rManager.records.values.all fun r => r ∉ w.logged
  | _ => true

def allowed (m : RecordManager) (pool : System) (move : SystemMove) : Bool :=
  match move with
  | .advance thread _ => (pool.next? thread).all fun effect => allows m (pool.mode thread) pool.shared effect
  | .crash => false
  | _ => true

theorem undisturbed_of_allows {effect : Effect} {choice : Choice} (h : allows m mode w effect) :
    (undisturbed m).effect mode w effect choice := by
  cases effect with
  | log status id =>
      intro hstatus
      simp only [allows, Bool.or_eq_true, Bool.and_eq_true, decide_eq_true_eq, List.all_eq_true] at h
      exact h.resolve_left fun hne => hne hstatus
  | copyRecords =>
      intro hmode id r hr
      simp only [allows, Bool.or_eq_true, decide_eq_true_eq, List.all_eq_true] at h
      exact h.resolve_left hmode r (IdMap.mem_values.mpr ⟨id, hr⟩)
  | _ => trivial

theorem undisturbed_permits (pool : System) (move : SystemMove) (h : allowed m pool move = true) :
    (undisturbed m).permits pool move := by
  cases move with
  | advance thread choice =>
      intro effect hnext
      simp only [allowed, hnext, Option.all_some] at h
      exact undisturbed_of_allows h
  | crash => cases h
  | _ => trivial

-- The decision that a thread is about to log, and whether it holds the mutex.
def logging (pool : System) (thread : Nat) : Option (RecordStatus × UInt32 × Bool) :=
  match pool.next? thread with
  | some (.log status id) => some (status, id, pool.mode thread = .inside)
  | _ => none

-- An update that the log has left open.
def unfinished : RecordManager where
  file := fileOf [⟨RECORD_UNRESOLVED, 4, 5⟩]
  cmdFile := []
  nextId := 5
  records := (∅ : IdMap Record).insert 4 ⟨RECORD_UNRESOLVED, 4, 5⟩
  cmds := ∅

end Runs

end Startup

set_option maxRecDepth 10000 in
-- recovery() is about to abort what the log has left, while a client asks for a
-- SET.
theorem separated_of_reachable_set : ∃ pool : System,
    Startup.logging pool 0 = some (RECORD_ABORT, 4, false) ∧ pool.Separated Startup.unfinished := by
  have hrun : (Transition.run (Transition.guard (Startup.allowed Startup.unfinished) cdb.step)
      (System.boot (World.initial [[0]] Startup.unfinished fun _ => Replicas.upToDate))
      (System.advance 0 (List.replicate 9 .done) ++ [.early 1 (0, .set ⟨0, bytes "k", bytes "v"⟩)] ++
        System.advance 1 (List.replicate 5 .done))).any (fun pool =>
        Startup.logging pool 0 = some (RECORD_ABORT, 4, false)) = true := by
    decide
  obtain ⟨pool, hpool, hend⟩ := (Option.any_eq_true _ _).mp hrun
  refine ⟨pool, of_decide_eq_true hend, ?_⟩
  exact separated_of_reachable [[0]] Startup.unfinished.file [] Startup.unfinished (fun _ => Replicas.upToDate) pool
    (RecordManager.load_fileOf _ _) (Service.Reachable.of_guard cdb Startup.undisturbed_permits hpool)

set_option maxRecDepth 10000 in
-- A SET is logged before recovery() copies records_. It is aborted by the main
-- thread and then committed by its handler.
theorem raced_not_separated : ∃ pool : System,
    cdb.Reachable .any (System.boot (World.initial [[0]] Replicas.resolved fun _ => Replicas.upToDate)) pool ∧
      ¬ pool.Separated Replicas.resolved := by
  obtain ⟨pool, hreach, hpool⟩ := cdb.exists_of_run
    (System.boot (World.initial [[0]] Replicas.resolved fun _ => Replicas.upToDate))
    (System.advance 0 (List.replicate 8 .done) ++ [.early 1 (0, .set ⟨0, bytes "k", bytes "v"⟩)] ++
      System.advance 1 (List.replicate 7 .done) ++ System.advance 0 (List.replicate 6 .done) ++
      System.advance 1 (List.replicate 4 .done))
    (fun pool => pool.shared.logged.map fun r => (r.status, r.id))
    [(RECORD_COMMIT, 5), (RECORD_ABORT_DONE, 5), (RECORD_ABORT, 5), (RECORD_UNRESOLVED, 5)] (by decide)
    fun pool next move _ _ => Terms.any_permits pool move
  have hdecided : ∀ status, (status, (5 : UInt32)) ∈ [(RECORD_COMMIT, (5 : UInt32)), (RECORD_ABORT, 5)] →
      pool.shared.Decided status 5 := by
    intro status hstatus
    have hlogged : (status, (5 : UInt32)) ∈ pool.shared.logged.map fun r => (r.status, r.id) := by
      rw [hpool]
      simp only [List.mem_cons, List.not_mem_nil, or_false] at hstatus ⊢
      exact hstatus.elim .inl fun h => .inr (.inr (.inl h))
    obtain ⟨r, hr, heq⟩ := List.mem_map.mp hlogged
    exact ⟨r, hr, (Prod.mk.inj heq).1, (Prod.mk.inj heq).2⟩
  refine ⟨pool, hreach, fun hseparated => hseparated.logged 5 ⟨hdecided _ (by simp), hdecided _ (by simp)⟩⟩

end CloudLabs.Cdb
