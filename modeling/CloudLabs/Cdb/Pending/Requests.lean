import CloudLabs.Cdb.Pending.Updates

namespace CloudLabs.Cdb.Pending

open Interaction RecordManager Participant

-- A member at which nothing waits, and which is at the update.
def Blank (id : UInt32) (p : Participant) : Prop := p.nextId = id ∧ p.dbRequests = []

instance {id : UInt32} : Seen (Blank id) :=
  ⟨fun h hsame => ⟨hsame.nextId.trans h.1, hsame.dbRequests.trans h.2⟩⟩

section Assertions

variable (addrs : List Addr)

-- The update has its number and is not logged yet.
def drawn (cmd : Command) (id : UInt32) : (contract addrs).Assertion := known addrs fun w =>
  cmd.isUpdate ∧ w.coordinator.nextId = id + 1 ∧ Sound addrs w id ∧ Empty w ∧ w.Everyone (Blank id)

def preparing (cmd : Command) (rest : List Addr) : (contract addrs).Assertion := known addrs fun w =>
  cmd.isUpdate ∧ Running addrs cmd.id RECORD_UNRESOLVED w ∧ w.Turn rest (Blank cmd.id) (Prepared cmd)

def unprepared (cmd : Command) (addr : Addr) (rest : List Addr) : (contract addrs).Assertion :=
  known addrs fun w => cmd.isUpdate ∧ Running addrs cmd.id RECORD_UNRESOLVED w ∧
    w.Dropping addr rest (Blank cmd.id) (Prepared cmd)

def prepared (cmd : Command) : Bool → (contract addrs).Assertion
  | true => known addrs fun w => Running addrs cmd.id RECORD_UNRESOLVED w ∧ w.Everyone (Prepared cmd)
  | false => known addrs fun w => Running addrs cmd.id RECORD_UNRESOLVED w

end Assertions

variable {addrs : List Addr} {role : Role} {mode : Mode} {w u : World} {cmd : Command} {addr : Addr}

section Prepare

theorem draw_triple (hmode : mode ≠ .outside) (cmd : Command) (c : Coordinator) (hkind : cmd.isUpdate) :
    Triple cdb orderly (contract addrs) role mode
      (fun w => settled addrs w ∧ w.coordinator = c ∧ c.participants ≠ ∅)
      (Coordinator.modify fun c => { c with nextId := c.nextId + 1 }) fun _ => drawn addrs cmd c.nextId := by
  refine modify_knows hmode (((settled addrs).stable hmode).and
    ((stable_coordinator hmode (· = c)).and (.const _))) ((drawn addrs cmd c.nextId).stable hmode)
    (fun w hw _ => Idle.waits hw.1) fun w hw => ?_
  obtain ⟨⟨next, hnext, hsound, hclosed, hall⟩, rfl, hmembers⟩ := hw
  have hsound' := hsound.change (c := { w.coordinator with nextId := w.coordinator.nextId + 1 }) rfl
    hsound.members rfl
  subst hnext
  exact ⟨hsound'.always, hkind, rfl, hsound', hclosed hmembers, fun addr haddr =>
    ⟨hall addr haddr, (hsound.holds_member haddr).level (hall addr haddr)⟩⟩

theorem logUnresolved_triple (hmode : mode ≠ .outside) (cmd : Command) (id : UInt32) :
    Triple cdb orderly (contract addrs) role mode (drawn addrs cmd id) (Coordinator.log RECORD_UNRESOLVED id)
      fun _ w => preparing addrs (cmd.setId id) w.coordinator.participants.toList w := by
  refine log_knows hmode ((drawn addrs cmd id).stable hmode)
    (stable_self (fun c => preparing addrs (cmd.setId id) c.participants.toList) hmode) ?_ fun w hw hT => ?_
  · rintro w ⟨-, -, -, -, hblank⟩ - addr haddr
    exact .inl (hblank addr haddr).2
  obtain ⟨hkind, hnext, hsound, hempty, hblank⟩ := hw
  have hdone : (⟨RECORD_UNRESOLVED, id, w.coordinator.nextId⟩ : Record).done = false := rfl
  have hopens : (w.log RECORD_UNRESOLVED id).coordinator.rManager.Opens id RECORD_UNRESOLVED :=
    log_opens hempty hdone
  have hlevel : ∀ a ∈ addrs, (w.node a).participant.nextId = id + 1 → (w.node a).participant.dbRequests = [] := by
    rw [← hsound.configured]
    exact hT rfl
  have hsound' := hsound.log hnext (.inr ⟨id, _, hopens, rfl, .inl rfl⟩) hlevel
  have hrunning : Running addrs id RECORD_UNRESOLVED (w.log RECORD_UNRESOLVED id) :=
    ⟨hnext, hsound', hopens, hblank.mono fun _ h => .inl h.1⟩
  refine ⟨hrunning.always, ?_, ?_⟩
  · rw [Command.isUpdate_setId]
    exact hkind
  · rw [Command.id_setId hkind]
    exact ⟨hrunning, World.Turn.start hblank⟩

-- A PREPARE that is executed is answered with true, and its command waits.
theorem handled_of_prepare {request : Request} {answer : Reply} {p q : Participant} (hkind : cmd.isUpdate)
    (hrequest : request.prepares = some cmd) (hblank : Blank cmd.id p) (h : p.handle request = .ok (answer, q)) :
    answer = .bool true ∧ Prepared cmd q := by
  obtain ⟨ok, rfl, hprepare⟩ := prepare_of_handle hrequest h
  obtain ⟨q', hq', -, hnext, hpending⟩ := prepare_of_empty hblank.2 hkind
  rw [hq'] at hprepare
  obtain ⟨rfl, rfl⟩ := Prod.mk.inj (Except.ok.inj hprepare)
  exact ⟨rfl, hnext.trans hblank.1, hpending⟩

theorem prepare_triple (hmode : mode ≠ .outside) (cmd : Command) (request : Request) (addr : Addr)
    (rest : List Addr) (hrequest : request.prepares = some cmd) :
    Triple cdb orderly (contract addrs) role mode (preparing addrs cmd (addr :: rest))
      (Coordinator.call addr request) fun reply w => match reply with
        | some (.bool true) => preparing addrs cmd rest w
        | some (.bool false) => prepared addrs cmd false w
        | _ => unprepared addrs cmd addr rest w := by
  refine call_knows hmode ((preparing addrs cmd (addr :: rest)).stable hmode) (fun reply => ?_) (fun w hw => ?_)
    fun w choice reply u hw _ hcall => ?_
  · split <;> exact Contract.Assertion.stable _ hmode
  · refine ⟨?_, fun _ => hw.2.1.waits⟩
    cases request with
    | PREPARE_SET set => exact trivial
    | PREPARE_DEL del => exact trivial
    | _ => cases hrequest
  obtain ⟨hkind, hrunning, hturn⟩ := hw
  have hhandled : ∀ answer q, (w.node addr).participant.handle request = .ok (answer, q) →
      answer = .bool true ∧ Prepared cmd q :=
    fun _ _ => handled_of_prepare hkind hrequest (hturn.left addr List.mem_cons_self)
  have hrunning' : Running addrs cmd.id RECORD_UNRESOLVED u := hrunning.call hcall fun answer q hq => by
    obtain ⟨-, hnext, hpending⟩ := hhandled answer q hq
    refine ⟨.inl hnext, .inr ⟨cmd, hpending, hnext.symm⟩, fun hlevel => ?_, fun hfile => ?_⟩
    · -- An id is not its own successor.
      rw [hnext] at hlevel
      exact absurd hlevel (by grind)
    · exact absurd hfile hrunning.file_ne_nil
  have htouch := World.call_touches hcall
  obtain ⟨-, ⟨-, rfl⟩ | ⟨answer, hhandle, rfl | rfl⟩ | ⟨stage, cmd', -, rfl, -⟩⟩ := World.call_participant hcall
  · exact ⟨hrunning'.always, hkind, hrunning', hturn.fail htouch⟩
  · obtain ⟨rfl, hprepared⟩ := hhandled _ _ hhandle
    exact ⟨hrunning'.always, hkind, hrunning', hturn.next htouch hprepared⟩
  · exact ⟨hrunning'.always, hkind, hrunning', hturn.fail htouch⟩
  · exact ⟨hrunning'.always, hrunning'⟩

theorem dropUnprepared_triple (hmode : mode ≠ .outside) (cmd : Command) (addr : Addr) (rest : List Addr) :
    Triple cdb orderly (contract addrs) role mode (unprepared addrs cmd addr rest)
      (Coordinator.eraseParticipant addr) fun _ => preparing addrs cmd rest := by
  refine modify_knows hmode ((unprepared addrs cmd addr rest).stable hmode)
    ((preparing addrs cmd rest).stable hmode) (fun w hw _ => hw.2.1.waits) fun w hw => ?_
  obtain ⟨hkind, hrunning, hdrop⟩ := hw
  have hrunning' := hrunning.erase addr
  exact ⟨hrunning'.always, hkind, hrunning', hdrop.erase⟩

theorem running_of_prepared (cmd : Command) (ok : Bool) (h : prepared addrs cmd ok w) :
    Running addrs cmd.id RECORD_UNRESOLVED w := by
  cases ok with
  | true => exact h.1
  | false => exact h

-- All that have prepared the update can commit it.
theorem toCommit_of_prepared (h : prepared addrs cmd true w) : toCommit addrs cmd.id w := by
  obtain ⟨hrunning, hall⟩ := h
  exact ⟨_, hrunning, hall.mono fun p hp _ => ⟨cmd, hp.2, rfl⟩⟩

theorem nobodyPrepared_triple (hmode : mode ≠ .outside) (client : Client) (cmd : Command) (ok : Bool) :
    Triple cdb orderly (contract addrs) role mode
      (fun w => prepared addrs cmd ok w ∧ w.coordinator.participants = ∅)
      (Coordinator.sendError client (some cmd.id)) fun _ => settled addrs :=
  (sendError_keeps hmode (settled addrs) client (some cmd.id) fun _ h => idle_issue (by simp) h).pre
    fun _ _ h => (running_of_prepared cmd ok h.1).idle_of_lost h.2

end Prepare

section Finish

-- A change of the coordinator that concerns neither the members nor the log.
theorem modify_keeps (hmode : mode ≠ .outside) {P : World → Prop} {change : Coordinator → Coordinator}
    (hpre : (contract addrs).Stable role mode P) (hidle : ∀ w, P w → Idle addrs w)
    (h : ∀ w : World, Idle addrs w → Idle addrs { w with coordinator := change w.coordinator }) :
    Triple cdb orderly (contract addrs) role mode P (Coordinator.modify change) fun _ => settled addrs := by
  refine modify_knows hmode hpre ((settled addrs).stable hmode) (fun w hw _ => (hidle w hw).waits) fun w hw => ?_
  have hidle' := h w (hidle w hw)
  exact ⟨hidle'.always, hidle'⟩

theorem rememberDelKeys_triple (hmode : mode ≠ .outside) (keys : List Bytes) :
    Triple cdb orderly (contract addrs) role mode (settled addrs) (Coordinator.rememberDelKeys keys)
      fun _ => settled addrs := by
  refine Triple.bind (get_knows hmode ((settled addrs).stable hmode)) fun c => ?_
  have hstable : (contract addrs).Stable role mode fun w => settled addrs w ∧ w.coordinator = c :=
    ((settled addrs).stable hmode).and (stable_coordinator hmode (· = c))
  split
  · exact modify_keeps hmode hstable (fun _ h => h.1) fun w h => h.change rfl rfl (fun _ ha => ha) rfl
  · exact Triple.ret hstable fun _ _ h => h.1

theorem dropMember_triple (hmode : mode ≠ .outside) (addr : Addr) :
    Triple cdb orderly (contract addrs) role mode (settled addrs) (Coordinator.eraseParticipant addr)
      fun _ => settled addrs :=
  modify_keeps hmode ((settled addrs).stable hmode) (fun _ h => h) fun _ h => h.erase addr

end Finish

def serving (hmode : mode ≠ .outside) : Serving orderly (contract addrs) role mode where
  toDeciding := deciding hmode
  ready := settled addrs
  asks _ _ := True
  refuse client := (sendError_keeps hmode (settled addrs) client none fun _ h => idle_issue (by simp) h).pre
    fun _ _ h => h.1
  drawn _ := drawn addrs
  preparing _ := preparing addrs
  unprepared _ := unprepared addrs
  prepared _ := prepared addrs
  draw _ cmd c _ hkind := draw_triple hmode cmd c hkind
  logUnresolved _ := logUnresolved_triple hmode
  prepare _ := prepare_triple hmode
  dropUnprepared _ := dropUnprepared_triple hmode
  allPrepared := fun _ _ _ _ ⟨_, hrunning, hturn⟩ => ⟨hrunning, hturn.finish⟩
  nobodyPrepared := nobodyPrepared_triple hmode
  accept _ _ _ _ h _ := toCommit_of_prepared h
  reject _ _ _ _ h _ := ⟨_, h⟩
  finishSet _ _ _ _ h := h
  finishDel _ cmd := rememberDelKeys_triple hmode cmd.keys
  getting _ _ _ := settled addrs
  ungot _ _ _ _ := settled addrs
  got _ _ _ := settled addrs
  unanswered := True
  startGet _ _ _ _ _ h _ := h
  get _ cmd addr rest := by
    have hask : (Request.GET cmd).asks = true := rfl
    refine (ask_keeps hmode (settled addrs) addr hask fun _ h => ⟨trivial, fun _ => Idle.waits h⟩).post
      fun reply w _ h => ?_
    split <;> exact h
  dropUngot _ _ addr _ := dropMember_triple hmode addr
  sendGot client _ value := sendResult_keeps hmode (settled addrs) client value fun _ h => idle_issue (by simp) h
  noneGot _ _ _ _ h := ⟨h, trivial⟩
  sendUnanswered client _ := sendError_outside client none fun _ _ => nofun

end CloudLabs.Cdb.Pending
