import CloudLabs.Cdb.Unanimity
import CloudLabs.Interaction.Contract.Theorems

namespace CloudLabs.Cdb

open Interaction Coordinator World

namespace Unanimity

variable {role : Role} {mode : Mode} {w u : World} {P : World → Prop} {α : Type}

theorem stable [hP : Counted P] (hmode : mode ≠ .outside) : unanimity.Stable role mode P :=
  .of_quiet hmode fun s t hs hq _ => by
    refine hP.keep hs ⟨?_, hq.2.1⟩
    rw [issued_eq, issued_eq, hq.1]

theorem give (hmode : mode ≠ .outside) (w u : World) : unanimity.give role mode w u :=
  ⟨fun h => absurd h hmode, fun _ => trivial⟩

theorem harmless_step {effect : Effect} {choice : Choice} {answer : effect.Answer} (h : w.Unanimity)
    (heffect : effect.Harmless) (hexec : cdb.exec w effect choice = some (answer, u)) :
    u.Unanimity ∧ u.issued = w.issued ∧ u.vetoed = w.vetoed := by
  have hsame : ∀ {t : World}, t.logged = w.logged → t.vetoed = w.vetoed →
      t.coordinator.rManager.records = w.coordinator.rManager.records →
      t.Unanimity ∧ t.issued = w.issued ∧ t.vetoed = w.vetoed := fun hlogged hvetoed hrecords =>
    ⟨h.frame hlogged hvetoed hrecords, by rw [issued_eq, issued_eq, hlogged], hvetoed⟩
  cases effect with
  | log status id =>
      cases choice with
      | done =>
          cases hexec
          exact ⟨h.log heffect.1 fun hcommit => absurd hcommit heffect.2, issued_log heffect.1, rfl⟩
      | _ => cases hexec
  | call addr request =>
      obtain ⟨hc, hlogged, -⟩ := call_frame hexec
      rcases call_vetoed hexec with hvetoed | ⟨-, ⟨cmd, hcmd⟩, -⟩
      · exact hsame hlogged hvetoed (by rw [hc])
      · cases hcmd.symm.trans heffect
  | modify change =>
      cases choice with
      | done =>
          cases hexec
          exact hsame rfl rfl (congrArg RecordManager.records (heffect w.coordinator))
      | _ => cases hexec
  | rand =>
      cases choice with
      | draw value =>
          have hdraw : (if value ≤ RAND_MAX then some (value, w) else none) = some (answer, u) := hexec
          split at hdraw
          · rw [← (Prod.mk.inj (Option.some.inj hdraw)).2]
            exact hsame rfl rfl rfl
          · cases hdraw
      | _ => cases hexec
  | assertFalse => cases choice <;> cases hexec
  | _ =>
      cases choice with
      | done => cases hexec; exact hsame rfl rfl rfl
      | _ => cases hexec

theorem harmless_keeps [hP : Counted P] (hmode : mode ≠ .outside) {program : Code α}
    (hprogram : program.Within Effect.Harmless) :
    Triple cdb voting unanimity role mode P program fun _ => P :=
  Triple.of_within hprogram (stable hmode) fun effect heffect w ha hw => ⟨trivial, fun choice answer u _ hexec => by
    obtain ⟨hu, hissued, hvetoed⟩ := harmless_step ha heffect hexec
    exact ⟨hu, give hmode w u, hP.keep hw ⟨hissued, hvetoed⟩⟩⟩

theorem upkeep_harmless (effect : Effect) (h : effect.Upkeep) : effect.Harmless := by
  cases effect with
  | log status id => exact h.elim
  | call addr request => exact h.2
  | modify change => exact h
  | _ => trivial

theorem upkeep_keeps [Counted P] (hmode : mode ≠ .outside) {program : Code α}
    (hprogram : program.Within Effect.Upkeep) :
    Triple cdb voting unanimity role mode P program fun _ => P :=
  harmless_keeps hmode (hprogram.mono upkeep_harmless)

section Outside

-- What a thread does while it does not hold the mutex.
def Still : Effect → Prop
  | .log _ _ | .modify _ => False
  | .call _ request => request.prepares = none
  | _ => True

theorem still_quiet {effect : Effect} {choice : Choice} {answer : effect.Answer} (heffect : Still effect)
    (hexec : cdb.exec w effect choice = some (answer, u)) : unanimity.quiet w u := by
  cases effect with
  | log status id => exact heffect.elim
  | modify change => exact heffect.elim
  | call addr request =>
      obtain ⟨hc, hlogged, -⟩ := call_frame hexec
      rcases call_vetoed hexec with hvetoed | ⟨-, ⟨cmd, hcmd⟩, -⟩
      · exact ⟨hlogged, hvetoed, by rw [hc]⟩
      · cases hcmd.symm.trans heffect
  | rand =>
      cases choice with
      | draw value =>
          have hdraw : (if value ≤ RAND_MAX then some (value, w) else none) = some (answer, u) := hexec
          split at hdraw
          · rw [← (Prod.mk.inj (Option.some.inj hdraw)).2]
            exact unanimity.quiet_refl w
          · cases hdraw
      | _ => cases hexec
  | assertFalse => cases choice <;> cases hexec
  | _ =>
      cases choice with
      | done => cases hexec; exact ⟨rfl, rfl, rfl⟩
      | _ => cases hexec

theorem still_keeps {program : Code α} (hprogram : program.Within Still) :
    Triple cdb voting unanimity role .outside (fun _ => True) program fun _ _ => True :=
  Triple.of_within hprogram (.const _) fun effect heffect w ha _ => ⟨trivial, fun choice answer u _ hexec => by
    have hquiet := still_quiet heffect hexec
    exact ⟨ha.frame hquiet.1 hquiet.2.1 (congrArg RecordManager.records hquiet.2.2), ⟨fun _ => hquiet, fun _ => trivial⟩,
      trivial⟩⟩

theorem notifyIf_still (dead : Bool) : (notifyIf dead).Within Still := by
  cases dead with
  | false => trivial
  | true => exact ⟨trivial, fun _ => trivial⟩

theorem critical_keeps {body : Code α}
    (h : Triple cdb voting unanimity role .inside (fun _ => True) body fun _ _ => True) :
    Triple cdb voting unanimity role .outside (fun _ => True) (Program.critical body) fun _ _ => True :=
  Triple.critical (.const _) (h.imp (fun _ _ _ => trivial) fun _ _ _ _ => ⟨trivial, trivial⟩)
    (fun _ _ _ _ _ _ => trivial) fun _ => .const _

end Outside

section Decisions

theorem commitDbRequest_keeps (hmode : mode ≠ .outside) (client : Option Client) (id : UInt32) (dead : Bool) :
    Triple cdb voting unanimity role mode Accepted (commitDbRequest client id dead) fun _ => Accepted := by
  rw [commitDbRequest_eq]
  have hlog : Triple cdb voting unanimity role mode Accepted (log RECORD_COMMIT id) fun _ => Accepted :=
    log_triple (stable hmode) (stable hmode) fun w ha hw => ⟨trivial, fun _ =>
      have hsame : SameVotes w (w.log RECORD_COMMIT id) := ⟨issued_log (by decide), rfl⟩
      ⟨ha.log (by decide) fun _ => hw, give hmode _ _, Withstands.keep hw hsame⟩⟩
  refine Triple.bind hlog fun _ => harmless_keeps hmode ?_
  refine (carryCommit_within upkeep_harmless (fun _ => rfl) ⟨by decide, by decide⟩ dead).bind fun result => ?_
  cases client with
  | none => trivial
  | some client => exact ⟨trivial, fun _ => trivial⟩

theorem abortDbRequest_harmless (client : Option Client) (id : UInt32) (dead : Bool) :
    (abortDbRequest client id dead).Within Effect.Harmless := by
  rw [abortDbRequest_eq]
  refine Program.Within.bind ⟨⟨by decide, by decide⟩, fun _ => trivial⟩ fun _ => ?_
  refine (carryAbort_within upkeep_harmless (fun _ => rfl) ⟨by decide, by decide⟩ dead).bind fun dead => ?_
  cases client with
  | none => trivial
  | some client => exact ⟨trivial, fun _ => trivial⟩

-- A record that says COMMIT is that of the last update, which nobody has refused.
theorem resolveRecords_keeps (hmode : mode ≠ .outside) (rs : List Record) :
    Triple cdb voting unanimity role mode (fun w => (∃ r ∈ rs, r.status = RECORD_COMMIT) → w.Accepted)
      (resolveRecords rs) fun _ _ => True := by
  induction rs with
  | nil => exact Triple.ret (stable hmode) fun _ _ _ => trivial
  | cons r rest ih =>
      refine Triple.seq (fun _ w => (∃ r ∈ rest, r.status = RECORD_COMMIT) → w.Accepted) ?_ fun _ => ih
      have hrest : ∀ w : World, ((∃ s ∈ r :: rest, s.status = RECORD_COMMIT) → w.Accepted) →
          (∃ s ∈ rest, s.status = RECORD_COMMIT) → w.Accepted :=
        fun w hw ⟨s, hs, hstatus⟩ => hw ⟨s, List.mem_cons_of_mem r hs, hstatus⟩
      unfold resolveRecord
      split
      · refine (harmless_keeps hmode ?_).pre fun w _ hw => hrest w hw
        exact (abortDbRequest_harmless none r.id false).bind fun _ => trivial
      split
      · rename_i hcommit
        refine (Triple.bind (commitDbRequest_keeps hmode none r.id false) fun _ =>
          Triple.ret (stable hmode) fun _ _ h => h).imp (fun w _ hw => hw ⟨r, by simp, hcommit⟩)
          fun _ w _ hw _ => hw
      · have hassert : assertFalse.Within Effect.Harmless := ⟨trivial, fun _ => trivial⟩
        exact (harmless_keeps hmode hassert).pre fun w _ hw => hrest w hw

theorem handleUnfinishedRecords_keeps (hmode : mode ≠ .outside) :
    Triple cdb voting unanimity role mode (fun _ => True) handleUnfinishedRecords fun _ _ => True := by
  refine Triple.bind (copyRecords_triple (stable hmode) (fun _ => stable hmode) fun w ha _ =>
    ⟨trivial, fun hT => ⟨give hmode w w, ?_⟩⟩) fun rs => resolveRecords_keeps hmode rs
  obtain ⟨-, ⟨last, hsound⟩, -⟩ := hT
  rintro ⟨r, hr, hcommit⟩
  rcases hsound.oneOpen with hempty | ⟨id, status, ⟨s, -, -, hrecords⟩, -⟩
  · rw [hempty] at hr
    cases hr
  · rw [hrecords] at hr
    obtain rfl : r = s := List.mem_singleton.mp hr
    exact ha.opened id r (by rw [hrecords]; simp) hcommit

end Decisions

section Requests

theorem undecided_stable (hmode : mode ≠ .outside) :
    unanimity.Stable role mode fun w => w.Accepted ∧ w.Undecided :=
  .and (stable hmode) <| .of_quiet hmode fun s t ⟨hcommitted, hopened⟩ hq _ => by
    refine ⟨fun newer r older hlogged hr => ?_, ?_⟩
    · rw [hq.1] at hlogged
      rw [issued_eq, hq.1]
      exact hcommitted newer r older hlogged hr
    · rw [hq.2.2]
      exact hopened

-- What a call leaves of an update that is not decided yet.
theorem Undecided.call {addr : Addr} {request : Request} {choice : Choice} {reply : Option Reply}
    (h : w.Undecided) (hcall : w.call addr request choice = some (reply, u)) : u.Undecided := by
  obtain ⟨hc, hlogged, -⟩ := call_frame hcall
  refine ⟨fun newer r older hsplit hr => ?_, ?_⟩
  · rw [hlogged] at hsplit
    rw [issued_eq, hlogged]
    exact h.committed newer r older hsplit hr
  · rw [hc]
    exact h.opened

-- While the update is prepared it is accepted as long as nobody has refused it.
theorem prepare_keeps (hmode : mode ≠ .outside) {request : Request} (addrs : List Addr) (state : Bool × Bool) :
    Triple cdb voting unanimity role mode (fun w => w.Accepted ∧ w.Undecided)
      (forEachParticipant request judgePrepare addrs state) fun state w => state.1 = true → w.Accepted := by
  have hpost : ∀ state : Bool × Bool, unanimity.Stable role mode fun w => state.1 = true → w.Accepted :=
    fun _ => stable hmode
  refine forEachParticipant_triple (fun _ _ w => w.Accepted ∧ w.Undecided)
    (fun _ _ _ w => w.Accepted ∧ w.Undecided) hpost
    (fun _ _ _ h _ => h.1) (fun addr rest state => ?_) (fun addr rest state => ?_)
    (fun _ => undecided_stable hmode) addrs state
  · refine call_triple (undecided_stable hmode) (fun reply => ?_) fun w ha hw => ⟨trivial, fun choice reply u _ hcall => ?_⟩
    · cases judgePrepare reply state with
      | keep state => exact undecided_stable hmode
      | drop state => exact undecided_stable hmode
      | stop state => exact stable hmode
    · obtain ⟨hc, hlogged, -⟩ := call_frame hcall
      obtain ⟨ok, dead⟩ := state
      have hrecords : u.coordinator.rManager.records = w.coordinator.rManager.records := by rw [hc]
      have hundecided := Undecided.call hw.2 hcall
      rcases call_vetoed hcall with hvetoed | ⟨-, -, hfalse, hvetoed⟩
      · have haccepted : u.Accepted :=
          have hsame : SameVotes w u := ⟨by rw [issued_eq, issued_eq, hlogged], hvetoed⟩
          Withstands.keep hw.1 hsame
        refine ⟨ha.frame hlogged hvetoed hrecords, give hmode w u, ?_⟩
        match reply with
        | some (.bool true) => exact ⟨haccepted, hundecided⟩
        | some (.bool false) => exact nofun
        | none | some (.uint32 _) | some (.string _) | some (.vector _) | some .void =>
            exact ⟨haccepted, hundecided⟩
      · rw [hfalse]
        exact ⟨ha.veto hw.2 hlogged hrecords hvetoed, give hmode w u, nofun⟩
  · refine modify_triple (undecided_stable hmode) (undecided_stable hmode) fun w ha hw =>
      ⟨trivial, ha.frame rfl rfl rfl, give hmode _ _, hw.1, hw.2.committed, hw.2.opened⟩

theorem handleUpdate_keeps (hmode : mode ≠ .outside) (request : UInt32 → Request) (client : Client)
    {finish : Code Unit} (hfinish : finish.Within Effect.Upkeep) :
    Triple cdb voting unanimity role mode (fun _ => True) (handleUpdate request client finish) fun _ _ => True := by
  have hnotify : ∀ dead, Triple cdb voting unanimity role mode (fun _ => True) (notifyIf dead) fun _ _ => True :=
    fun dead => upkeep_keeps hmode (notifyIf_upkeep dead)
  have hsend : ∀ id, Triple cdb voting unanimity role mode (fun _ => True) (sendError client id) fun _ _ => True :=
    fun id => harmless_keeps hmode ⟨trivial, fun _ => trivial⟩
  have hbegin : ∀ id, Triple cdb voting unanimity role mode (fun _ => True) (log RECORD_UNRESOLVED id)
      fun _ w => w.Accepted ∧ w.Undecided := fun id =>
    log_triple (stable hmode) (undecided_stable hmode) fun w ha _ => ⟨trivial, fun hT => by
      obtain ⟨-, -, hsound⟩ := hT
      obtain ⟨last, hlast⟩ := hsound () (w.log RECORD_UNRESOLVED id) rfl
      obtain ⟨hnew, haccepted, hundecided⟩ := ha.begin hlast
      exact ⟨hnew, give hmode _ _, haccepted, hundecided⟩⟩
  refine Triple.bind (upkeep_keeps hmode get_upkeep) fun c => ?_
  split
  · exact hsend none
  refine Triple.bind (upkeep_keeps hmode fetchAddNextId_upkeep) fun id => Triple.bind (hbegin id) fun _ => ?_
  refine Triple.seq (fun _ w => w.Accepted ∧ w.Undecided)
    (get_triple (undecided_stable hmode) (fun _ => undecided_stable hmode) fun w _ hw =>
      ⟨trivial, give hmode w w, hw⟩) fun c => ?_
  refine Triple.bind (prepare_keeps hmode _ (true, false)) fun phase => ?_
  refine Triple.seq (fun _ w => phase.1 = true → w.Accepted) (upkeep_keeps hmode get_upkeep) fun c => ?_
  split
  · exact (hsend (some id)).pre fun _ _ _ => trivial
  split
  · rename_i hok
    refine Triple.seq (fun _ _ => True) ((commitDbRequest_keeps hmode (some client) id phase.2).imp
      (fun w _ hw => hw hok) fun _ _ _ _ => trivial) fun dead => ?_
    exact Triple.bind (upkeep_keeps hmode hfinish) fun _ => hnotify dead
  · refine Triple.seq (fun _ _ => True) ((harmless_keeps hmode
      (abortDbRequest_harmless (some client) id phase.2)).pre fun _ _ _ => trivial) hnotify

theorem getFromParticipants_harmless (client : Client) (cmd : GetCommand) (addrs : List Addr) (dead : Bool) :
    (getFromParticipants client cmd addrs dead).Within Effect.Harmless := by
  induction addrs generalizing dead with
  | nil => trivial
  | cons addr rest ih =>
      refine Program.Within.bind ⟨rfl, fun _ => trivial⟩ fun reply => ?_
      split
      · exact Program.Within.bind ⟨trivial, fun _ => trivial⟩ fun _ => trivial
      · exact ((eraseParticipant_upkeep addr).mono upkeep_harmless).bind fun _ => ih true

theorem handler_keeps (request : Client × Command) :
    Triple cdb voting unanimity .worker .outside (fun _ => True) (handle request) fun _ _ => True := by
  obtain ⟨client, cmd⟩ := request
  have hinside : Mode.inside ≠ .outside := by decide
  cases cmd with
  | get cmd =>
      refine Triple.bind (critical_keeps (harmless_keeps hinside ?_)) fun answered => ?_
      · refine Program.Within.bind ⟨trivial, fun _ => trivial⟩ fun c => ?_
        split
        · exact Program.Within.bind ⟨trivial, fun _ => trivial⟩ fun _ => trivial
        · refine Program.Within.bind ⟨trivial, fun _ => trivial⟩ fun c => ?_
          exact (getFromParticipants_harmless client cmd _ false).bind fun _ => trivial
      · match answered with
        | none => exact Triple.ret (.const _) fun _ _ h => h
        | some (true, dead) => exact still_keeps (notifyIf_still dead)
        | some (false, dead) =>
            exact still_keeps (Program.Within.bind ⟨trivial, fun _ => trivial⟩ fun _ => notifyIf_still dead)
  | set cmd =>
      have hfinish : (Program.ret () : Code Unit).Within Effect.Upkeep := trivial
      simp only [handle, handleDbSetRequest_eq]
      exact critical_keeps (handleUpdate_keeps hinside _ client hfinish)
  | del cmd =>
      simp only [handle, handleDbDelRequest_eq]
      exact critical_keeps (handleUpdate_keeps hinside _ client (rememberDelKeys_upkeep cmd.keys))

end Requests

section Heartbeats

theorem readmitParticipant_keeps (hmode : mode ≠ .outside) (addr : Addr) :
    Triple cdb voting unanimity role mode (fun _ => True) (readmitParticipant addr) fun _ _ => True := by
  refine Triple.bind (upkeep_keeps hmode get_upkeep) fun c => ?_
  split
  · exact Triple.ret (stable hmode) fun _ _ h => h
  refine Triple.bind (upkeep_keeps hmode (recoverParticipant_upkeep addr)) fun recovered => ?_
  match recovered with
  | none => exact Triple.ret (stable hmode) fun _ _ h => h
  | some false => exact Triple.ret (stable hmode) fun _ _ h => h
  | some true =>
      refine Triple.bind (upkeep_keeps hmode (insertParticipant_upkeep addr)) fun _ => ?_
      refine Triple.bind (upkeep_keeps hmode forgetDelKeys_upkeep) fun _ => ?_
      exact Triple.bind (handleUnfinishedRecords_keeps hmode) fun _ => Triple.ret (stable hmode) fun _ _ h => h

theorem heartbeatParticipant_keeps (addr : Addr) :
    Triple cdb voting unanimity role .outside (fun _ => True) (heartbeatParticipant addr) fun _ _ => True := by
  have hinside : Mode.inside ≠ .outside := by decide
  have herase : Triple cdb voting unanimity role .outside (fun _ => True)
      (Program.critical (eraseParticipant addr)) fun _ _ => True :=
    critical_keeps (upkeep_keeps hinside (eraseParticipant_upkeep addr))
  have hbeat : (call addr .HEARTBEAT).Within Still := ⟨rfl, fun _ => trivial⟩
  refine Triple.bind (still_keeps hbeat) fun reply => ?_
  cases reply with
  | none => exact herase
  | some _ =>
      refine Triple.bind (critical_keeps (readmitParticipant_keeps hinside addr)) fun ok => ?_
      split
      · exact Triple.ret (.const _) fun _ _ h => h
      · exact herase

theorem heartbeatList_keeps (addrs : List Addr) :
    Triple cdb voting unanimity role .outside (fun _ => True) (heartbeatList addrs) fun _ _ => True := by
  induction addrs with
  | nil => exact Triple.ret (.const _) fun _ _ h => h
  | cons addr rest ih => exact Triple.bind (heartbeatParticipant_keeps addr) fun _ => ih

theorem heartbeatParticipants_keeps (passes : Nat) :
    Triple cdb voting unanimity role .outside (fun _ => True) (heartbeatParticipants passes) fun _ _ => True := by
  induction passes with
  | zero => exact Triple.ret (.const _) fun _ _ h => h
  | succ passes ih =>
      have hget : get.Within Still := ⟨trivial, fun _ => trivial⟩
      exact Triple.bind (still_keeps hget) fun c => Triple.bind (heartbeatList_keeps _) fun _ => ih

end Heartbeats

theorem recovery_keeps :
    Triple cdb voting unanimity role .alone (fun _ => True) recovery fun _ _ => True := by
  have halone := Mode.alone_ne_outside
  refine Triple.bind (upkeep_keeps halone initNextId_upkeep) fun _ => Triple.bind ?_ fun _ =>
    handleUnfinishedRecords_keeps halone
  refine Triple.critical_alone (upkeep_keeps halone ?_) fun _ => stable halone
  exact get_upkeep.bind fun c => initParticipantList_upkeep c.participantAddrs

theorem honours : Honours cdb voting unanimity where
  main passes s ha _ := (heartbeatParticipants_keeps passes).ends ha trivial
  handler request s ha := (handler_keeps request).ends ha trivial
  environment s choice t ha _ henv := by
    cases choice with
    | deliver index =>
        obtain ⟨message, -, rfl⟩ := Option.map_eq_some_iff.mp henv
        exact ⟨ha.frame rfl rfl rfl, ⟨rfl, rfl, rfl⟩, trivial⟩
    | restart addr =>
        cases henv
        exact ⟨ha.frame rfl rfl rfl, ⟨rfl, rfl, rfl⟩, trivial⟩
    | _ => cases henv
  effect := False.elim
  restart s t ha hT hrestart := by
    -- What the log holds is what is loaded from it.
    obtain ⟨-, last, hsound⟩ := hT
    simp only [cdb, World.restart, hsound.recoverable.load] at hrestart
    cases hrestart
    have hstart := ha.frame (u := { s with
      coordinator := .start s.coordinator.participantAddrs
        { s.coordinator.rManager with nextId := last, cmds := ∅ } }) rfl rfl rfl
    exact ⟨hstart, recovery_keeps.boots Coordinator.recovery_balanced not_false hstart trivial fun _ _ h => h⟩

theorem unanimity_initial (addrs : List Addr) (m : RecordManager) (node : Addr → Node) :
    (World.initial addrs m node).Unanimity :=
  ⟨fun newer r older hlogged => absurd hlogged (by simp [World.initial]), nofun, fun _ _ _ _ => nofun⟩

-- One update that the only participant refuses, and one that it prepares.
def twice : List SystemMove :=
  System.advance 0 (List.replicate 9 .done) ++ [.serve 1, .arrive (0, .set ⟨0, bytes "k", bytes "v"⟩)] ++
    System.advance 1 (List.replicate 6 .done ++ [.refuse .insert] ++ List.replicate 8 .done) ++
    [.arrive (1, .set ⟨0, bytes "k", bytes "v"⟩)] ++ System.advance 2 (List.replicate 9 .done)

end Unanimity

end CloudLabs.Cdb
