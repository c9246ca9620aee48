import CloudLabs.Cdb.Pending.Requests

namespace CloudLabs.Cdb

open Interaction RecordManager Participant

theorem Participant.recover_frame {p q : Participant} {data : Bytes} {delKeys : KeySet} {ok : Bool}
    (h : p.recover data delKeys = .ok (ok, q)) : q.nextId = p.nextId ∧ q.dbRequests = p.dbRequests := by
  obtain ⟨⟨ok', store⟩, -, hq⟩ := ok_of_bind h
  rw [← (Prod.mk.inj (Except.ok.inj hq)).2]
  exact ⟨rfl, rfl⟩

namespace Pending

-- The participant is at the present number, or at that of an update which is not
-- decided.
def Current (c : Coordinator) (p : Participant) : Prop :=
  p.nextId = c.nextId ∨ c.rManager.Opens p.nextId RECORD_UNRESOLVED

def AllCurrent (w : World) : Prop := w.Everyone (Current w.coordinator)

instance {c : Coordinator} : Seen (Current c) :=
  ⟨fun h hsame => by
    unfold Current
    rwa [hsame.nextId]⟩

instance {addr : Addr} : Visible fun w => Current w.coordinator (w.node addr).participant :=
  ⟨fun h hq => by
    rw [hq.coordinator]
    exact Withstands.keep h (hq.alike addr)⟩

instance : Visible AllCurrent :=
  ⟨fun h hq addr haddr => by
    rw [hq.coordinator] at haddr ⊢
    exact Withstands.keep (h addr haddr) (hq.alike addr)⟩

section Assertions

variable (addrs : List Addr)

def told (addr : Addr) (pNextId : UInt32) : (contract addrs).Assertion := known addrs fun w =>
  addr ∈ addrs ∧ Idle addrs w ∧ (w.node addr).participant.nextId = pNextId

def returning (addr : Addr) : (contract addrs).Assertion := known addrs fun w =>
  addr ∈ addrs ∧ Idle addrs w ∧ Current w.coordinator (w.node addr).participant

-- The participant is being brought up to date.
def lagging (addr : Addr) : (contract addrs).Assertion := known addrs fun w => addr ∈ addrs ∧ Idle addrs w

-- The members are back, and an update may be open still.
def joined : (contract addrs).Assertion := known addrs fun w =>
  ∃ next, w.coordinator.nextId = next ∧ Sound addrs w next ∧ AllCurrent w

end Assertions

variable {addrs : List Addr} {role : Role} {mode : Mode} {w u : World} {addr : Addr} {next : UInt32}

section Rejoin

-- Those that have not resolved the open update are one number behind.
theorem waits_of_joined (h : joined addrs w) : w.Waits := by
  obtain ⟨next, hnext, hsound, hall⟩ := h
  refine hsound.waits hnext fun addr haddr => ?_
  rcases hall addr haddr with hlevel | hopens
  · exact .inl (hlevel.trans hnext)
  · exact .inr (hsound.oneOpen.of_opens hopens).1

-- SET_NEXT_ID is lost, or nothing waits where it goes.
theorem setNextId_cases {val : UInt32} {choice : Choice} {reply : Option Reply}
    (hT : orderly.effect mode w (.call addr (.SET_NEXT_ID val)) choice)
    (hcall : w.call addr (.SET_NEXT_ID val) choice = some (reply, u)) :
    Quiet w u ∧ reply = none ∨ (∀ answer q, (w.node addr).participant.handle (.SET_NEXT_ID val) = .ok (answer, q) →
      q.dbRequests = [] ∧ q.nextId = val) ∧ (reply = none ∨ (u.node addr).participant.nextId = val) := by
  by_cases hlost : choice = .lost
  · subst hlost
    cases hcall
    exact .inl ⟨⟨World.send_coordinator, fun _ => by rw [World.send_node], fun _ => by rw [World.send_node]⟩, rfl⟩
  have hnone : (w.node addr).participant.dbRequests = [] := by
    cases choice with
    | lost => exact absurd rfl hlost
    | _ => exact hT.2
  refine .inr ⟨fun answer q hhandle => ?_, ?_⟩
  · cases hhandle
    exact ⟨hnone, rfl⟩
  · obtain ⟨-, ⟨-, hfailed⟩ | ⟨answer, hhandle, -⟩ | ⟨stage, cmd, hprepares, -⟩⟩ := World.call_participant hcall
    · exact .inl hfailed
    · right
      rw [← (Prod.mk.inj (Except.ok.inj hhandle)).2]
    · cases hprepares

-- A participant at which nothing waits is told the number.
theorem Idle.setNextId {choice : Choice} {reply : Option Reply} (h : Idle addrs w)
    (hT : orderly.effect mode w (.call addr (.SET_NEXT_ID w.coordinator.nextId)) choice)
    (hcall : w.call addr (.SET_NEXT_ID w.coordinator.nextId) choice = some (reply, u)) :
    Idle addrs u ∧ (reply = none ∨ Current u.coordinator (u.node addr).participant) := by
  rcases setNextId_cases hT hcall with ⟨hq, hfailed⟩ | ⟨hhandled, htold⟩
  · exact ⟨Withstands.keep h hq, .inl hfailed⟩
  · refine ⟨h.call hcall fun answer q hhandle => ?_, htold.imp_right fun hnext => .inl ?_⟩
    · obtain ⟨hrequests, hnumber⟩ := hhandled answer q hhandle
      exact ⟨.inr hrequests, .inr ⟨hnumber, hrequests⟩⟩
    · rw [hnext, (World.call_touches hcall).coordinator]

theorem setNextId_triple (hmode : mode ≠ .outside) (addr : Addr) (c : Coordinator)
    (A : (contract addrs).Assertion) (hA : ∀ w, A w → addr ∈ addrs ∧ Idle addrs w) :
    Triple cdb orderly (contract addrs) role mode (fun w => A w ∧ w.coordinator = c)
      (Coordinator.call addr (.SET_NEXT_ID c.nextId)) fun reply w => match reply with
        | none => settled addrs w
        | some _ => returning addrs addr w := by
  refine call_knows hmode ((A.stable hmode).and (stable_coordinator hmode (· = c)))
    (fun reply => ?_) (fun w hw => ⟨trivial, fun _ => (hA w hw.1).2.waits⟩) fun w choice reply u hw hT hcall => ?_
  · split <;> exact Contract.Assertion.stable _ hmode
  obtain ⟨hw, rfl⟩ := hw
  obtain ⟨hknown, hidle⟩ := hA w hw
  obtain ⟨hidle', hcurrent⟩ := hidle.setNextId hT hcall
  refine ⟨hidle'.always, ?_⟩
  cases reply with
  | none => exact hidle'
  | some answer => exact ⟨hknown, hidle', hcurrent.resolve_left (by simp)⟩

theorem recovered_triple (hmode : mode ≠ .outside) (addr : Addr) :
    Triple cdb orderly (contract addrs) role mode (returning addrs addr)
      (Coordinator.modify fun c => { c with isRecovered := true }) fun _ => returning addrs addr := by
  refine modify_knows hmode ((returning addrs addr).stable hmode) ((returning addrs addr).stable hmode)
    (fun w hw _ => Idle.waits hw.2.1) fun w hw => ?_
  obtain ⟨hknown, hidle, hcurrent⟩ := hw
  have hidle' := hidle.change (c := { w.coordinator with isRecovered := true }) rfl rfl (fun _ ha => ha) rfl
  exact ⟨hidle'.always, hknown, hidle', hcurrent⟩

theorem nextId_triple (hmode : mode ≠ .outside) (addr : Addr) (c : Coordinator) (hknown : addr ∈ addrs) :
    Triple cdb orderly (contract addrs) role mode (fun w => settled addrs w ∧ w.coordinator = c)
      (Coordinator.call addr .NEXT_ID) fun reply w => match reply with
        | some (.uint32 pNextId) => told addrs addr pNextId w ∧ w.coordinator = c
        | _ => settled addrs w := by
  refine call_knows hmode (((settled addrs).stable hmode).and (stable_coordinator hmode (· = c)))
    (fun reply => ?_) (fun w hw => ⟨trivial, fun _ => Idle.waits hw.1⟩) fun w choice reply u hw _ hcall => ?_
  · split
    · exact (Contract.Assertion.stable _ hmode).and (stable_coordinator hmode (· = c))
    · exact (settled addrs).stable hmode
  obtain ⟨hsettled, hc⟩ := hw
  have hq : Quiet w u := quiet_of_ask (K := contract addrs) rfl hcall
  have hidle : Idle addrs u := Withstands.keep hsettled hq
  refine ⟨hidle.always, ?_⟩
  obtain ⟨-, ⟨-, rfl⟩ | ⟨answer, hhandle, rfl | rfl⟩ | ⟨stage, cmd, hprepares, -⟩⟩ := World.call_participant hcall
  · exact hidle
  · obtain ⟨rfl, -⟩ := Prod.mk.inj (Except.ok.inj hhandle)
    exact ⟨⟨hknown, hidle, hq.nextId addr⟩, hq.coordinator.trans hc⟩
  · exact hidle
  · cases hprepares

theorem returning_of_prepared {pNextId : UInt32} (h : told addrs addr pNextId w)
    (hstatus : (w.coordinator.rManager.records[pNextId]?.map Record.status) = some RECORD_UNRESOLVED) :
    returning addrs addr w := by
  obtain ⟨hknown, hidle, rfl⟩ := h
  obtain ⟨next, -, hsound, -⟩ := id hidle
  exact ⟨hknown, hidle, .inr (hsound.oneOpen.opens_of_getElem? hstatus)⟩

theorem snapshot_triple (hmode : mode ≠ .outside) (addr donor : Addr) :
    Triple cdb orderly (contract addrs) role mode (lagging addrs addr) (Coordinator.call donor .GET_SNAPSHOT)
      fun _ => lagging addrs addr :=
  ask_keeps hmode (lagging addrs addr) donor rfl fun _ hw => ⟨trivial, fun _ => Idle.waits hw.2⟩

theorem dropDonor_triple (hmode : mode ≠ .outside) (addr donor : Addr) :
    Triple cdb orderly (contract addrs) role mode (lagging addrs addr) (Coordinator.eraseParticipant donor)
      fun _ => lagging addrs addr := by
  refine modify_knows hmode ((lagging addrs addr).stable hmode) ((lagging addrs addr).stable hmode)
    (fun w hw _ => Idle.waits hw.2) fun w hw => ?_
  have hidle' := hw.2.erase donor
  exact ⟨hidle'.always, hw.1, hidle'⟩

theorem recover_triple (hmode : mode ≠ .outside) (addr : Addr) (data : Bytes) (c : Coordinator) :
    Triple cdb orderly (contract addrs) role mode (fun w => lagging addrs addr w ∧ w.coordinator = c)
      (Coordinator.call addr (.RECOVER data c.delKeys)) fun reply w => match reply with
        | none => settled addrs w
        | some _ => lagging addrs addr w ∧ w.coordinator = c := by
  refine call_knows hmode (((lagging addrs addr).stable hmode).and (stable_coordinator hmode (· = c)))
    (fun reply => ?_) (fun w hw => ⟨trivial, fun _ => Idle.waits hw.1.2⟩) fun w choice reply u hw _ hcall => ?_
  · split
    · exact (settled addrs).stable hmode
    · exact ((lagging addrs addr).stable hmode).and (stable_coordinator hmode (· = c))
  obtain ⟨⟨hknown, hidle⟩, hc⟩ := hw
  have hidle' : Idle addrs u := hidle.call hcall fun answer q hhandle => by
    obtain ⟨⟨ok, p⟩, hrecover, hanswer⟩ := ok_of_bind hhandle
    obtain ⟨-, rfl⟩ := Prod.mk.inj (Except.ok.inj hanswer)
    obtain ⟨hnext, hrequests⟩ := recover_frame hrecover
    exact ⟨.inl hrequests, .inl hnext⟩
  refine ⟨hidle'.always, ?_⟩
  cases reply with
  | none => exact hidle'
  | some answer => exact ⟨⟨hknown, hidle'⟩, (World.call_touches hcall).coordinator.trans hc⟩

theorem insert_triple (hmode : mode ≠ .outside) (addr : Addr) :
    Triple cdb orderly (contract addrs) role mode (returning addrs addr)
      (Coordinator.insertParticipant addr) fun _ => joined addrs := by
  refine modify_knows hmode ((returning addrs addr).stable hmode) ((joined addrs).stable hmode)
    (fun w hw _ => Idle.waits hw.2.1) fun w hw => ?_
  obtain ⟨hknown, ⟨next, hnext, hsound, -, hall⟩, hcurrent⟩ := hw
  have hsound' := hsound.insert hknown
  refine ⟨hsound'.always, next, hnext, hsound', fun a ha => ?_⟩
  rcases Std.ExtTreeSet.mem_insert.mp ha with heq | ha
  · rw [← Std.LawfulEqCmp.eq_of_compare heq]
    exact hcurrent
  · exact .inl ((hall a ha).trans hnext.symm)

theorem forget_triple (hmode : mode ≠ .outside) :
    Triple cdb orderly (contract addrs) role mode (joined addrs) Coordinator.forgetDelKeys
      fun _ => joined addrs := by
  refine Triple.bind (get_knows hmode ((joined addrs).stable hmode)) fun c => ?_
  have hstable : (contract addrs).Stable role mode fun w => joined addrs w ∧ w.coordinator = c :=
    ((joined addrs).stable hmode).and (stable_coordinator hmode (· = c))
  split
  · refine modify_knows hmode hstable ((joined addrs).stable hmode) (fun w hw _ => waits_of_joined hw.1) fun w hw => ?_
    obtain ⟨⟨next, hnext, hsound, hall⟩, -⟩ := hw
    have hsound' := hsound.change (c := { w.coordinator with delKeys := ∅ }) rfl hsound.members rfl
    exact ⟨hsound'.always, next, hnext, hsound', hall⟩
  · exact Triple.ret hstable fun _ _ h => h.1

-- An open update that the members are to resolve.
theorem resolves_of_joined {id : UInt32} {status : RecordStatus} (hnext : w.coordinator.nextId = next)
    (hsound : Sound addrs w next) (hall : AllCurrent w) (hopens : w.coordinator.rManager.Opens id status) :
    ((status = RECORD_UNRESOLVED ∨ status = RECORD_ABORT) ∧ toAbort addrs id w) ∨
      (status = RECORD_COMMIT ∧ toCommit addrs id w) := by
  obtain ⟨rfl, hstatus⟩ := hsound.oneOpen.of_opens hopens
  have hnear : w.Everyone (Near id) := fun addr haddr => by
    rcases hall addr haddr with hlevel | hopen
    · exact .inr (hlevel.trans hnext)
    · exact .inl (hopens.unique hopen).1.symm
  have hrunning : Running addrs id status w := ⟨hnext, hsound, hopens, hnear⟩
  by_cases hcommit : status = RECORD_COMMIT
  · right
    subst hcommit
    refine ⟨rfl, _, hrunning, fun addr haddr hid => ?_⟩
    -- All members have gone beyond an update whose COMMIT is logged.
    rcases hall addr haddr with hlevel | hopen
    · rw [hid, hnext] at hlevel
      exact absurd hlevel (by grind)
    · exact absurd (hopens.unique hopen).2 (by decide)
  · left
    refine ⟨?_, status, hrunning⟩
    rcases hstatus with h | h | h
    · exact .inl h
    · exact absurd h hcommit
    · exact .inr h

theorem copy_triple (hmode : mode ≠ .outside) :
    Triple cdb orderly (contract addrs) role mode (joined addrs) Coordinator.copyRecords
      fun rs w => (rs = [] ∧ settled addrs w) ∨ ∃ r : Record, rs = [r] ∧
        ((r.status = RECORD_UNRESOLVED ∨ r.status = RECORD_ABORT) ∧ toAbort addrs r.id w ∨
          r.status = RECORD_COMMIT ∧ toCommit addrs r.id w) := by
  refine Coordinator.copyRecords_triple ((joined addrs).stable hmode) (fun rs => ?_) fun w _ hw => ?_
  · refine .of_quiet hmode fun s t h hq ha => ?_
    rcases h with ⟨hrs, hs⟩ | ⟨r, hrs, ⟨hstatus, hs⟩ | ⟨hstatus, hs⟩⟩
    · exact .inl ⟨hrs, (settled addrs).quiet hs hq ha⟩
    · exact .inr ⟨r, hrs, .inl ⟨hstatus, (toAbort addrs r.id).quiet hs hq ha⟩⟩
    · exact .inr ⟨r, hrs, .inr ⟨hstatus, (toCommit addrs r.id).quiet hs hq ha⟩⟩
  refine ⟨fun _ => waits_of_joined hw, fun _ => ⟨give_inside hmode w w, ?_⟩⟩
  obtain ⟨next, hnext, hsound, hall⟩ := hw
  rcases hsound.oneOpen with hempty | ⟨id, status, hopens, -⟩
  · left
    refine ⟨by rw [hempty]; rfl, next, hnext, hsound, fun _ => hempty, fun addr haddr => ?_⟩
    rcases hall addr haddr with hlevel | hopen
    · exact hlevel.trans hnext
    · exact absurd hempty hopen.ne_empty
  · right
    obtain ⟨r, rfl, rfl, hvalues⟩ := hopens.values
    exact ⟨r, hvalues, resolves_of_joined hnext hsound hall hopens⟩

end Rejoin

def rejoining (hmode : mode ≠ .outside) : Rejoining orderly (contract addrs) role mode where
  toDeciding := deciding hmode
  gone _ := True
  known addr := addr ∈ addrs
  configured := fun _ ⟨_, hsound⟩ _ haddr => hsound.configured ▸ haddr
  beat addr := Triple.post (ask_outside addr rfl fun _ _ => ⟨trivial, nofun⟩) fun _ _ _ _ _ => trivial
  ready := settled addrs
  absent _ _ _ _ _ := trivial
  drop addr _ := dropMember_triple hmode addr
  member _ _ _ h _ := h
  told := told addrs
  reset := returning addrs
  lagging addr _ := lagging addrs addr
  donorLost addr _ _ := lagging addrs addr
  fetched addr _ := lagging addrs addr
  copied := lagging addrs
  returning := returning addrs
  joined := joined addrs
  setNextId addr c hknown _ _ := setNextId_triple hmode addr c (settled addrs) fun _ h => ⟨hknown, h⟩
  recovered := recovered_triple hmode
  nextId addr c hknown _ _ := nextId_triple hmode addr c hknown
  same := fun _ _ _ ⟨hknown, hidle, hnumber⟩ => ⟨hknown, hidle, .inl hnumber⟩
  prepared _ _ _ _ h _ hstatus := returning_of_prepared h hstatus
  behind := fun _ _ _ _ ⟨hknown, hidle, _⟩ _ => ⟨hknown, hidle⟩
  snapshot addr donor _ := (snapshot_triple hmode addr donor).post fun _ _ _ h => by split <;> exact h
  dropDonor addr donor _ := dropDonor_triple hmode addr donor
  recover := recover_triple hmode
  catchUp addr c := setNextId_triple hmode addr c (lagging addrs addr) fun _ h => h
  noDonor := fun _ _ _ ⟨_, hidle⟩ => hidle
  insert := insert_triple hmode
  forget := forget_triple hmode
  copy := copy_triple hmode

end Pending

end CloudLabs.Cdb
