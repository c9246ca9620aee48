import CloudLabs.Cdb.Replicas.Requests

namespace CloudLabs.Cdb.Replicas

open Interaction RecordManager Participant

-- The snapshot of a participant that holds the store.
def IsSnapshot (data : Bytes) (store : Store) : Prop :=
  ∃ donor : Participant, donor.store = store ∧ donor.getSnapshot = data

-- The members are as far as the log.
def AllCurrent (next : UInt32) (w : World) : Prop :=
  ∀ addr ∈ w.coordinator.participants, w.coordinator.Current next (w.node addr).participant

instance {next : UInt32} : Visible (AllCurrent next) :=
  ⟨fun h hq addr haddr => by
    rw [hq.coordinator] at haddr ⊢
    rw [hq.participant]
    exact h addr haddr⟩

instance : Visible fun w => w.coordinator.participants ≠ ∅ := ⟨fun h hq => by rwa [hq.coordinator]⟩

section Assertions

variable (addrs : List Addr)

def told (addr : Addr) (pNextId : UInt32) : (contract addrs).Assertion := known addrs fun w =>
  addr ∈ addrs ∧ Idle addrs [] w ∧ (w.node addr).participant.nextId = pNextId

def returning (addr : Addr) : (contract addrs).Assertion := known addrs fun w =>
  ∃ next store, addr ∈ addrs ∧ Level addrs next store [] w ∧
    w.coordinator.Current next (w.node addr).participant

-- The donors that are left are members.
def lagging (addr : Addr) (donors : List Addr) : (contract addrs).Assertion := known addrs fun w =>
  addr ∈ addrs ∧ Idle addrs [] w ∧ w.Turn donors (fun _ => True) fun _ => True

def donorLost (addr donor : Addr) (donors : List Addr) : (contract addrs).Assertion := known addrs fun w =>
  addr ∈ addrs ∧ Idle addrs [] w ∧ w.Dropping donor donors (fun _ => True) fun _ => True

def fetched (addr : Addr) (data : Bytes) : (contract addrs).Assertion := known addrs fun w =>
  ∃ next store, (addr ∈ addrs ∧ IsSnapshot data store) ∧ Level addrs next store [] w ∧
    w.coordinator.participants ≠ ∅

def copied (addr : Addr) : (contract addrs).Assertion := known addrs fun w =>
  ∃ next store, addr ∈ addrs ∧ Level addrs next store [] w ∧ (w.node addr).participant.store = store

-- The members are back, and an update may be open still.
def joined : (contract addrs).Assertion := known addrs fun w =>
  ∃ next store, w.coordinator.nextId = next ∧ Synced addrs w next store [] ∧ AllCurrent next w

end Assertions

variable {addrs : List Addr} {role : Role} {mode : Mode} {w u : World} {addr : Addr} {next : UInt32} {store : Store}

section Rejoin

-- A participant that has the store is told the number.
theorem Level.setNextId {choice : Choice} {reply : Option Reply} (h : Level addrs next store [] w)
    (hstore : addr ∈ addrs → (w.node addr).participant.store = store)
    (hcall : w.call addr (.SET_NEXT_ID next) choice = some (reply, u)) :
    Level addrs next store [] u ∧
      (reply = none ∨ u.coordinator.Current next (u.node addr).participant) := by
  refine ⟨h.call hcall rfl fun answer q hhandle => ?_, ?_⟩
  · cases hhandle
    exact ⟨fun haddr => .of_store (hstore haddr) h.2.1.short, fun _ => rfl⟩
  · obtain ⟨-, ⟨-, hnone⟩ | ⟨answer, hhandle, -⟩ | ⟨stage, cmd, hprepares, -⟩⟩ := World.call_participant hcall
    · exact .inl hnone
    · right
      left
      rw [← (Prod.mk.inj (Except.ok.inj hhandle)).2]
    · cases hprepares

theorem setNextId_triple (hmode : mode ≠ .outside) (addr : Addr) (c : Coordinator) (hknown : addr ∈ addrs)
    (hfresh : c.isRecovered = false) :
    Triple cdb agreeing (contract addrs) role mode (fun w => settled addrs w ∧ w.coordinator = c)
      (Coordinator.call addr (.SET_NEXT_ID c.nextId)) fun reply w => match reply with
        | none => settled addrs w
        | some _ => returning addrs addr w := by
  refine call_knows hmode (((settled addrs).stable hmode).and (stable_coordinator hmode (· = c)))
    (fun reply => ?_) (fun _ _ => trivial) fun w choice reply u hw hT hcall => ?_
  · split <;> exact Contract.Assertion.stable _ hmode
  obtain ⟨⟨next, store, hlevel⟩, rfl⟩ := hw
  have hstore : (w.node addr).participant.store = store := by
    rcases hT.2.2 hfresh with hempty | ⟨other, hother, hnumber, hsame⟩
    · exact (hlevel.2.1.tracks addr hknown).fresh hempty
    · rw [hlevel.2.1.configured] at hother
      rw [← hsame]
      exact hlevel.store_eq hother (.inl (hnumber.trans hlevel.1))
  rw [hlevel.1] at hcall
  obtain ⟨hlevel', hcurrent⟩ := hlevel.setNextId (fun _ => hstore) hcall
  refine ⟨hlevel'.idle.always, ?_⟩
  cases reply with
  | none => exact hlevel'.idle
  | some answer => exact ⟨next, store, hknown, hlevel', hcurrent.resolve_left (by simp)⟩

theorem Level.recovered (h : Level addrs next store [] w) :
    Level addrs next store [] { w with coordinator := { w.coordinator with isRecovered := true } } := by
  obtain ⟨hnext, hsynced, hclosed, hall⟩ := h
  exact ⟨hnext, hsynced.change rfl hsynced.members rfl rfl, hclosed, hall⟩

theorem recovered_triple (hmode : mode ≠ .outside) (addr : Addr) :
    Triple cdb agreeing (contract addrs) role mode (returning addrs addr)
      (Coordinator.modify fun c => { c with isRecovered := true }) fun _ => returning addrs addr := by
  refine modify_knows hmode ((returning addrs addr).stable hmode) ((returning addrs addr).stable hmode)
    (fun _ _ => trivial) fun w hw => ?_
  obtain ⟨next, store, hknown, hlevel, hcurrent⟩ := hw
  exact ⟨hlevel.recovered.idle.always, next, store, hknown, hlevel.recovered, hcurrent⟩

theorem nextId_triple (hmode : mode ≠ .outside) (addr : Addr) (c : Coordinator) (hknown : addr ∈ addrs) :
    Triple cdb agreeing (contract addrs) role mode (fun w => settled addrs w ∧ w.coordinator = c)
      (Coordinator.call addr .NEXT_ID) fun reply w => match reply with
        | some (.uint32 pNextId) => told addrs addr pNextId w ∧ w.coordinator = c
        | _ => settled addrs w := by
  refine call_knows hmode (((settled addrs).stable hmode).and (stable_coordinator hmode (· = c)))
    (fun reply => ?_) (fun _ _ => trivial) fun w choice reply u hw _ hcall => ?_
  · split
    · exact (Contract.Assertion.stable _ hmode).and (stable_coordinator hmode (· = c))
    · exact (settled addrs).stable hmode
  obtain ⟨hsettled, hc⟩ := hw
  have hq : Quiet w u := quiet_of_ask (K := contract addrs) rfl hcall
  have hidle : Idle addrs [] u := Withstands.keep hsettled hq
  refine ⟨hidle.always, ?_⟩
  obtain ⟨-, ⟨-, rfl⟩ | ⟨answer, hhandle, rfl | rfl⟩ | ⟨stage, cmd, hprepares, -⟩⟩ := World.call_participant hcall
  · exact hidle
  · obtain ⟨rfl, -⟩ := Prod.mk.inj (Except.ok.inj hhandle)
    exact ⟨⟨hknown, hidle, by rw [hq.participant]⟩, hq.coordinator.trans hc⟩
  · exact hidle
  · cases hprepares

theorem returning_of_same (h : told addrs addr w.coordinator.nextId w) : returning addrs addr w := by
  obtain ⟨hknown, ⟨next, store, hlevel⟩, hnumber⟩ := h
  exact ⟨next, store, hknown, hlevel, .inl (hnumber.trans hlevel.1)⟩

theorem returning_of_prepared {pNextId : UInt32} (h : told addrs addr pNextId w)
    (hstatus : (w.coordinator.rManager.records[pNextId]?.map Record.status) = some RECORD_UNRESOLVED) :
    returning addrs addr w := by
  obtain ⟨hknown, ⟨next, store, hlevel⟩, rfl⟩ := h
  exact ⟨next, store, hknown, hlevel, .inr (hlevel.2.1.oneOpen.opens_of_getElem? hstatus)⟩

theorem snapshot_triple (hmode : mode ≠ .outside) (addr donor : Addr) (rest : List Addr) :
    Triple cdb agreeing (contract addrs) role mode (lagging addrs addr (donor :: rest))
      (Coordinator.call donor .GET_SNAPSHOT) fun reply w => match reply with
        | some (.vector data) => fetched addrs addr data w
        | _ => donorLost addrs addr donor rest w := by
  refine call_knows hmode ((lagging addrs addr (donor :: rest)).stable hmode) (fun reply => ?_)
    (fun _ _ => trivial) fun w choice reply u hw _ hcall => ?_
  · split <;> exact Contract.Assertion.stable _ hmode
  obtain ⟨hknown, ⟨next, store, hlevel⟩, hturn⟩ := hw
  have hq : Quiet w u := quiet_of_ask (K := contract addrs) rfl hcall
  have hlevel' : Level addrs next store [] u := Withstands.keep hlevel hq
  have hmember := hturn.member donor List.mem_cons_self
  refine ⟨hlevel'.idle.always, ?_⟩
  have hfail := hturn.fail (World.call_touches hcall)
  obtain ⟨-, ⟨-, rfl⟩ | ⟨answer, hhandle, rfl | rfl⟩ | ⟨stage, cmd, hprepares, -⟩⟩ := World.call_participant hcall
  · exact ⟨hknown, hlevel'.idle, hfail⟩
  · obtain ⟨rfl, -⟩ := Prod.mk.inj (Except.ok.inj hhandle)
    refine ⟨next, store, ⟨hknown, (w.node donor).participant, ?_, rfl⟩, hlevel', fun hempty => ?_⟩
    · exact hlevel.store_eq (hlevel.2.1.members donor hmember) (.inl (hlevel.2.2.2 donor hmember))
    · rw [hq.coordinator] at hempty
      rw [hempty] at hmember
      exact Std.ExtTreeSet.not_mem_empty hmember
  · exact ⟨hknown, hlevel'.idle, hfail⟩
  · cases hprepares

theorem dropDonor_triple (hmode : mode ≠ .outside) (addr donor : Addr) (rest : List Addr) :
    Triple cdb agreeing (contract addrs) role mode (donorLost addrs addr donor rest)
      (Coordinator.eraseParticipant donor) fun _ => lagging addrs addr rest := by
  refine modify_knows hmode ((donorLost addrs addr donor rest).stable hmode)
    ((lagging addrs addr rest).stable hmode) (fun _ _ => trivial) fun w hw => ?_
  obtain ⟨hknown, hidle, hdrop⟩ := hw
  have hidle' := hidle.erase donor
  exact ⟨hidle'.always, hknown, hidle', hdrop.erase⟩

-- What a snapshot brings and the deleted keys take away is all there is.
theorem recovers_of_fetched {data : Bytes} (h : fetched addrs addr data w) :
    w.Recovers addr data w.coordinator.delKeys ∧
      ∃ next store, addr ∈ addrs ∧ Level addrs next store [] w ∧
        ∀ ok q, (w.node addr).participant.recover data w.coordinator.delKeys = .ok (ok, q) → q.store = store := by
  obtain ⟨next, store, ⟨hknown, donor, rfl, rfl⟩, hlevel, hmembers⟩ := h
  have hcovered : ∀ key ∈ (w.node addr).participant.store, key ∉ donor.store → key ∈ w.coordinator.delKeys :=
    fun key hkey hgone => ((hlevel.2.1.tracks addr hknown).covered key hkey hgone).resolve_right (by simp)
  obtain ⟨q, hrecover, hq⟩ := transfers_of_short hlevel.2.1.short (w.node addr).participant _ hcovered
  refine ⟨⟨hmembers, rfl, fun member hmember => ?_⟩, next, donor.store, hknown, hlevel, fun ok p hp => ?_⟩
  · rw [hlevel.store_eq (hlevel.2.1.members member hmember) (.inl (hlevel.2.2.2 member hmember))]
    exact ⟨hcovered, q, hrecover, hq⟩
  · rw [hrecover] at hp
    obtain ⟨-, rfl⟩ := Prod.mk.inj (Except.ok.inj hp)
    exact hq

theorem recover_nextId {p q : Participant} {data : Bytes} {delKeys : KeySet} {ok : Bool}
    (h : p.recover data delKeys = .ok (ok, q)) : q.nextId = p.nextId := by
  obtain ⟨⟨ok', store⟩, -, hq⟩ := ok_of_bind h
  rw [← (Prod.mk.inj (Except.ok.inj hq)).2]

theorem recover_triple (hmode : mode ≠ .outside) (addr : Addr) (data : Bytes) (c : Coordinator) :
    Triple cdb agreeing (contract addrs) role mode (fun w => fetched addrs addr data w ∧ w.coordinator = c)
      (Coordinator.call addr (.RECOVER data c.delKeys)) fun reply w => match reply with
        | none => settled addrs w
        | some _ => copied addrs addr w ∧ w.coordinator = c := by
  refine call_knows hmode (((fetched addrs addr data).stable hmode).and (stable_coordinator hmode (· = c)))
    (fun reply => ?_) (fun w hw => ?_) fun w choice reply u hw _ hcall => ?_
  · split
    · exact (settled addrs).stable hmode
    · exact ((copied addrs addr).stable hmode).and (stable_coordinator hmode (· = c))
  · obtain ⟨hw, rfl⟩ := hw
    exact (recovers_of_fetched hw).1
  obtain ⟨hw, rfl⟩ := hw
  obtain ⟨-, next, store, hknown, hlevel, hrecovers⟩ := recovers_of_fetched hw
  have hhandled : ∀ answer q, (w.node addr).participant.handle (.RECOVER data w.coordinator.delKeys) =
      .ok (answer, q) → q.store = store ∧ q.nextId = (w.node addr).participant.nextId := by
    intro answer q hhandle
    obtain ⟨⟨ok, p⟩, hrecover, hanswer⟩ := ok_of_bind hhandle
    obtain ⟨-, rfl⟩ := Prod.mk.inj (Except.ok.inj hanswer)
    exact ⟨hrecovers ok p hrecover, recover_nextId hrecover⟩
  have hlevel' : Level addrs next store [] u := by
    refine hlevel.call hcall rfl fun answer q hhandle => ?_
    obtain ⟨hstore, hnext⟩ := hhandled answer q hhandle
    exact ⟨fun _ => .of_store hstore hlevel.2.1.short, fun hnumber => hnext.trans hnumber⟩
  refine ⟨hlevel'.idle.always, ?_⟩
  obtain ⟨-, ⟨-, rfl⟩ | ⟨answer, hhandle, rfl | rfl⟩ | ⟨stage, cmd, hprepares, -⟩⟩ := World.call_participant hcall
  · exact hlevel'.idle
  · exact ⟨⟨next, store, hknown, hlevel', (hhandled _ _ hhandle).1⟩, (World.call_touches hcall).coordinator⟩
  · exact hlevel'.idle
  · cases hprepares

theorem catchUp_triple (hmode : mode ≠ .outside) (addr : Addr) (c : Coordinator) :
    Triple cdb agreeing (contract addrs) role mode (fun w => copied addrs addr w ∧ w.coordinator = c)
      (Coordinator.call addr (.SET_NEXT_ID c.nextId)) fun reply w => match reply with
        | none => settled addrs w
        | some _ => returning addrs addr w := by
  refine call_knows hmode (((copied addrs addr).stable hmode).and (stable_coordinator hmode (· = c)))
    (fun reply => ?_) (fun _ _ => trivial) fun w choice reply u hw _ hcall => ?_
  · split <;> exact Contract.Assertion.stable _ hmode
  obtain ⟨⟨next, store, hknown, hlevel, hstore⟩, rfl⟩ := hw
  rw [hlevel.1] at hcall
  obtain ⟨hlevel', hcurrent⟩ := hlevel.setNextId (fun _ => hstore) hcall
  refine ⟨hlevel'.idle.always, ?_⟩
  cases reply with
  | none => exact hlevel'.idle
  | some answer => exact ⟨next, store, hknown, hlevel', hcurrent.resolve_left (by simp)⟩

-- Who is as far as the log becomes a member.
theorem Level.join (h : Level addrs next store [] w)
    (hcurrent : w.coordinator.Current next (w.node addr).participant) :
    AllCurrent next { w with coordinator := { w.coordinator with
      participants := w.coordinator.participants.insert addr } } := by
  intro a ha
  rcases Std.ExtTreeSet.mem_insert.mp ha with heq | ha
  · rw [← Std.LawfulEqCmp.eq_of_compare heq]
    exact hcurrent
  · exact .inl (h.2.2.2 a ha)

theorem insert_triple (hmode : mode ≠ .outside) (addr : Addr) :
    Triple cdb agreeing (contract addrs) role mode (returning addrs addr)
      (Coordinator.insertParticipant addr) fun _ => joined addrs := by
  refine modify_knows hmode ((returning addrs addr).stable hmode) ((joined addrs).stable hmode) (fun _ _ => trivial) fun w hw => ?_
  obtain ⟨next, store, hknown, hlevel, hcurrent⟩ := hw
  have hsynced' := hlevel.2.1.insert hknown
  exact ⟨hsynced'.always, next, store, hlevel.1, hsynced', hlevel.join hcurrent⟩

-- When all are back, nobody has a key that the others lack.
theorem Synced.forget (h : Synced addrs w next store []) (hall : AllCurrent next w)
    (hback : w.coordinator.participants.size = w.coordinator.participantAddrs.length) :
    Synced addrs { w with coordinator := { w.coordinator with delKeys := ∅ } } next store [] := by
  rw [h.configured] at hback
  have hmembers := h.everyone_back (Nat.le_of_eq hback.symm)
  exact ⟨h.configured, h.members, h.recoverable, h.oneOpen, h.short, fun a ha =>
    .of_store ((h.tracks a ha).level (hall a (hmembers a ha))) h.short⟩

theorem forget_triple (hmode : mode ≠ .outside) :
    Triple cdb agreeing (contract addrs) role mode (joined addrs) Coordinator.forgetDelKeys
      fun _ => joined addrs := by
  refine Triple.bind (get_knows hmode ((joined addrs).stable hmode)) fun c => ?_
  have hstable : (contract addrs).Stable role mode fun w => joined addrs w ∧ w.coordinator = c :=
    ((joined addrs).stable hmode).and (stable_coordinator hmode (· = c))
  split
  · rename_i hback
    refine modify_knows hmode hstable ((joined addrs).stable hmode) (fun _ _ => trivial) fun w hw => ?_
    obtain ⟨⟨next, store, hnext, hsynced, hall⟩, rfl⟩ := hw
    have hsynced' := hsynced.forget hall hback
    exact ⟨hsynced'.always, next, store, hnext, hsynced', hall⟩
  · exact Triple.ret hstable fun _ _ h => h.1

section Joined

variable {id : UInt32} {status : RecordStatus}

theorem store_of_joined (hsynced : Synced addrs w next store []) (hall : AllCurrent next w)
    (haddr : addr ∈ w.coordinator.participants) : (w.node addr).participant.store = store :=
  (hsynced.tracks addr (hsynced.members addr haddr)).level (hall addr haddr)

-- An ABORT of the open update takes each member to the next number.
theorem aborts_of_joined (hsynced : Synced addrs w next store []) (hall : AllCurrent next w)
    (hopens : w.coordinator.rManager.Opens id status) : w.Everyone (Aborts id store) := by
  obtain ⟨rfl, -⟩ := hsynced.oneOpen.of_opens hopens
  intro addr haddr
  refine ⟨store_of_joined hsynced hall haddr, ?_⟩
  rcases hall addr haddr with hlevel | hopen
  · by_cases hlt : id < (w.node addr).participant.nextId
    · exact (abort_of_lt hlt).1.trans hlevel
    · refine (abort_of_gt ?_).1
      rw [hlevel] at hlt ⊢
      grind
  · exact (abort_of_eq (hopens.unique hopen).1.symm).1

-- An open update that the members are to resolve.
theorem resolves_of_joined (hnext : w.coordinator.nextId = next) (hsynced : Synced addrs w next store [])
    (hall : AllCurrent next w) (hopens : w.coordinator.rManager.Opens id status) :
    ((status = RECORD_UNRESOLVED ∨ status = RECORD_ABORT) ∧ toAbort addrs id w) ∨
      (status = RECORD_COMMIT ∧ toCommit addrs none id w) := by
  have haborts := aborts_of_joined hsynced hall hopens
  obtain ⟨rfl, hstatus⟩ := hsynced.oneOpen.of_opens hopens
  have hrunning : Running addrs id status store [] w := ⟨hnext, hsynced, hopens⟩
  by_cases hcommit : status = RECORD_COMMIT
  · right
    subst hcommit
    refine ⟨rfl, store, hrunning, fun addr haddr ret q hq => ?_⟩
    have hlevel := (Running.current_iff hopens (by decide) _).mp (hall addr haddr)
    rcases commit_ok hq with ⟨-, -, rfl⟩ | ⟨hid, -⟩
    · exact ⟨hlevel, store_of_joined hsynced hall haddr⟩
    · -- An id is not its own successor.
      rw [hlevel] at hid
      exact absurd hid (by grind)
  · left
    refine ⟨?_, status, store, hrunning, haborts⟩
    rcases hstatus with h | h | h
    · exact .inl h
    · exact absurd h hcommit
    · exact .inr h

end Joined

theorem copy_triple (hmode : mode ≠ .outside) :
    Triple cdb agreeing (contract addrs) role mode (joined addrs) Coordinator.copyRecords
      fun rs w => (rs = [] ∧ settled addrs w) ∨ ∃ r : Record, rs = [r] ∧
        ((r.status = RECORD_UNRESOLVED ∨ r.status = RECORD_ABORT) ∧ toAbort addrs r.id w ∨
          r.status = RECORD_COMMIT ∧ toCommit addrs none r.id w) := by
  refine Coordinator.copyRecords_triple ((joined addrs).stable hmode) (fun rs => ?_) fun w _ hw => ?_
  · refine .of_quiet hmode fun s t h hq ha => ?_
    rcases h with ⟨hrs, hs⟩ | ⟨r, hrs, ⟨hstatus, hs⟩ | ⟨hstatus, hs⟩⟩
    · exact .inl ⟨hrs, (settled addrs).quiet hs hq ha⟩
    · exact .inr ⟨r, hrs, .inl ⟨hstatus, (toAbort addrs r.id).quiet hs hq ha⟩⟩
    · exact .inr ⟨r, hrs, .inr ⟨hstatus, (toCommit addrs none r.id).quiet hs hq ha⟩⟩
  refine ⟨trivial, fun _ => ⟨give_inside hmode w w, ?_⟩⟩
  obtain ⟨next, store, hnext, hsynced, hall⟩ := hw
  rcases hsynced.oneOpen with hempty | ⟨id, status, hopens, -⟩
  · left
    refine ⟨by rw [hempty]; rfl, next, store, hnext, hsynced, fun _ => hempty, fun addr haddr => ?_⟩
    rcases hall addr haddr with hlevel | hopen
    · exact hlevel
    · exact absurd hempty hopen.ne_empty
  · right
    obtain ⟨r, rfl, rfl, hvalues⟩ := hopens.values
    exact ⟨r, hvalues, resolves_of_joined hnext hsynced hall hopens⟩

end Rejoin

def rejoining (hmode : mode ≠ .outside) : Rejoining agreeing (contract addrs) role mode where
  toDeciding := deciding hmode
  gone _ := True
  known addr := addr ∈ addrs
  configured := fun _ ⟨_, _, _, hsynced⟩ _ haddr => hsynced.configured ▸ haddr
  beat addr := (ask_outside addr rfl fun _ _ => trivial).post fun _ _ _ _ _ => trivial
  ready := settled addrs
  absent _ _ _ _ _ := trivial
  drop addr _ := dropMember_triple hmode addr
  member _ _ _ h _ := h
  told := told addrs
  reset := returning addrs
  lagging := lagging addrs
  donorLost := donorLost addrs
  fetched := fetched addrs
  copied := copied addrs
  returning := returning addrs
  joined := joined addrs
  setNextId addr c hknown _ hfresh := setNextId_triple hmode addr c hknown hfresh
  recovered := recovered_triple hmode
  nextId addr c hknown _ _ := nextId_triple hmode addr c hknown
  same _ _ _ h := returning_of_same h
  prepared _ _ _ _ h _ hstatus := returning_of_prepared h hstatus
  behind := fun _ _ _ _ ⟨hknown, hidle, _⟩ _ => ⟨hknown, hidle, World.Turn.start fun _ _ => trivial⟩
  snapshot := snapshot_triple hmode
  dropDonor := dropDonor_triple hmode
  recover := recover_triple hmode
  catchUp := catchUp_triple hmode
  noDonor := fun _ _ _ ⟨_, hidle, _⟩ => hidle
  insert := insert_triple hmode
  forget := forget_triple hmode
  copy := copy_triple hmode

end CloudLabs.Cdb.Replicas
