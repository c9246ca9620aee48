import CloudLabs.Cdb.Replicas.Updates
import Mathlib.Data.List.Perm.Subperm

namespace CloudLabs.Cdb

open Interaction RecordManager Participant

namespace Replicas

section Assertions

variable (addrs : List Addr)

-- The update has its number and is not logged yet.
def drawn (cmd : Command) (id : UInt32) : (contract addrs).Assertion := known addrs fun w =>
  ∃ store, cmd.isUpdate ∧ w.coordinator.nextId = id + 1 ∧ Synced addrs w id store [] ∧ Empty w ∧
    w.Everyone (·.nextId = id)

def preparing (cmd : Command) (rest : List Addr) : (contract addrs).Assertion := known addrs fun w =>
  ∃ store, cmd.isUpdate ∧ Running addrs cmd.id RECORD_UNRESOLVED store [] w ∧ Vacant addrs cmd.id w ∧
    w.Turn rest (·.nextId = cmd.id) (Ready cmd)

def unprepared (cmd : Command) (addr : Addr) (rest : List Addr) : (contract addrs).Assertion :=
  known addrs fun w => ∃ store, cmd.isUpdate ∧ Running addrs cmd.id RECORD_UNRESOLVED store [] w ∧
    Vacant addrs cmd.id w ∧ w.Dropping addr rest (·.nextId = cmd.id) (Ready cmd)

def prepared (cmd : Command) : Bool → (contract addrs).Assertion
  | true => known addrs fun w => ∃ store, cmd.isUpdate ∧ Running addrs cmd.id RECORD_UNRESOLVED store [] w ∧
      Vacant addrs cmd.id w ∧ w.Everyone (Ready cmd)
  | false => known addrs fun w => ∃ store, Running addrs cmd.id RECORD_UNRESOLVED store [] w ∧
      w.Everyone (·.nextId = cmd.id)

end Assertions

variable {addrs : List Addr} {role : Role} {mode : Mode} {w u : World} {cmd : Command} {store : Store}

section Prepare

theorem draw_triple (hmode : mode ≠ .outside) (cmd : Command) (c : Coordinator) (hkind : cmd.isUpdate) :
    Triple cdb agreeing (contract addrs) role mode
      (fun w => settled addrs w ∧ w.coordinator = c ∧ c.participants ≠ ∅)
      (Coordinator.modify fun c => { c with nextId := c.nextId + 1 }) fun _ => drawn addrs cmd c.nextId := by
  refine modify_knows hmode (((settled addrs).stable hmode).and
    ((stable_coordinator hmode (· = c)).and (.const _))) ((drawn addrs cmd c.nextId).stable hmode) (fun _ _ => trivial) fun w hw => ?_
  obtain ⟨⟨next, store, hnext, hsynced, hclosed, hall⟩, rfl, hmembers⟩ := hw
  have hsynced' := hsynced.change (c := { w.coordinator with nextId := w.coordinator.nextId + 1 }) rfl
    hsynced.members rfl rfl
  subst hnext
  exact ⟨hsynced'.always, store, hkind, rfl, hsynced', hclosed hmembers, hall⟩

-- The update is logged as open: those that have its number are current still.
theorem running_of_drawn {id : UInt32} (hnext : w.coordinator.nextId = id + 1) (hsynced : Synced addrs w id store [])
    (hempty : Empty w) (hvacant : Vacant addrs id w) :
    Running addrs id RECORD_UNRESOLVED store [] (w.log RECORD_UNRESOLVED id) := by
  have hdone : (⟨RECORD_UNRESOLVED, id, w.coordinator.nextId⟩ : Record).done = false := rfl
  have hopens : (w.log RECORD_UNRESOLVED id).coordinator.rManager.Opens id RECORD_UNRESOLVED :=
    log_opens hempty hdone
  refine ⟨hnext, hsynced.log hnext (.inr ⟨id, _, hopens, rfl, .inl rfl⟩) hsynced.short (fun a ha hcurrent => ?_)
    fun a ha => (hsynced.tracks a ha).covered, hopens⟩
  rcases hcurrent with hbeyond | hopen
  · exact absurd hbeyond (hvacant a ha)
  · exact (hsynced.tracks a ha).level (.inl (hopens.unique hopen).1.symm)

theorem logUnresolved_triple (hmode : mode ≠ .outside) (cmd : Command) (id : UInt32) :
    Triple cdb agreeing (contract addrs) role mode (drawn addrs cmd id) (Coordinator.log RECORD_UNRESOLVED id)
      fun _ w => preparing addrs (cmd.setId id) w.coordinator.participants.toList w := by
  refine log_knows hmode ((drawn addrs cmd id).stable hmode)
    (stable_self (fun c => preparing addrs (cmd.setId id) c.participants.toList) hmode) (fun _ _ => trivial) fun w hw hT => ?_
  obtain ⟨store, hkind, hnext, hsynced, hempty, hall⟩ := hw
  have hvacant : Vacant addrs id w := by
    have hreached := hT rfl
    rwa [hsynced.configured] at hreached
  have hrunning := running_of_drawn hnext hsynced hempty hvacant
  refine ⟨hrunning.always, store, ?_, ?_⟩
  · rw [Command.isUpdate_setId]
    exact hkind
  · rw [Command.id_setId hkind]
    exact ⟨hrunning, hvacant, World.Turn.start hall⟩

theorem Running.prepare {addr : Addr} {request : Request} {choice : Choice} {reply : Option Reply} {id : UInt32}
    {status : RecordStatus} {deleted : List Bytes} (hrunning : Running addrs id status store deleted w)
    (hrequest : request.prepares = some cmd) (hcall : w.call addr request choice = some (reply, u)) :
    Running addrs id status store deleted u := by
  refine hrunning.call hcall fun haddr answer q hhandle => ?_
  obtain ⟨ok, -, hprepare⟩ := prepare_of_handle hrequest hhandle
  obtain ⟨hstore, hnext, -⟩ := prepare_ok hprepare
  exact (hrunning.2.1.tracks addr haddr).keep hstore hnext

theorem prepare_triple (hmode : mode ≠ .outside) (cmd : Command) (request : Request) (addr : Addr)
    (rest : List Addr) (hrequest : request.prepares = some cmd) :
    Triple cdb agreeing (contract addrs) role mode (preparing addrs cmd (addr :: rest))
      (Coordinator.call addr request) fun reply w => match reply with
        | some (.bool true) => preparing addrs cmd rest w
        | some (.bool false) => prepared addrs cmd false w
        | _ => unprepared addrs cmd addr rest w := by
  refine call_knows hmode ((preparing addrs cmd (addr :: rest)).stable hmode) (fun reply => ?_) (fun _ _ => ?_)
    fun w choice reply u hw hT hcall => ?_
  · split <;> exact Contract.Assertion.stable _ hmode
  · cases request with
    | RECOVER data delKeys => cases hrequest
    | _ => exact trivial
  obtain ⟨store, hkind, hrunning, hvacant, hturn⟩ := hw
  obtain ⟨hfits, honly⟩ := hT.2.1 cmd hrequest
  have hsame := World.nextId_of_prepare hrequest hcall
  have hrunning' := hrunning.prepare hrequest hcall
  have hvacant' : Vacant addrs cmd.id u := fun other hother => by
    rw [hsame]
    exact hvacant other hother
  have hlevel : u.Everyone (·.nextId = cmd.id) := fun other hother => by
    rw [(World.call_touches hcall).coordinator] at hother
    rw [hsame]
    exact (hturn.either other hother).elim id fun hready => hready.1
  have htouch := World.call_touches hcall
  obtain ⟨-, ⟨-, rfl⟩ | ⟨answer, hhandle, rfl | rfl⟩ | ⟨stage, cmd', -, rfl, -⟩⟩ := World.call_participant hcall
  · exact ⟨hrunning'.always, store, hkind, hrunning', hvacant', hturn.fail htouch⟩
  · obtain ⟨ok, rfl, hprepare⟩ := prepare_of_handle hrequest hhandle
    obtain ⟨-, hnext, hpending⟩ := prepare_ok hprepare
    cases ok with
    | true =>
        refine ⟨hrunning'.always, store, hkind, hrunning', hvacant', hturn.next htouch ⟨?_, ?_, hfits⟩⟩
        · exact hnext.trans (hturn.left addr List.mem_cons_self)
        · intro other hother hid
          exact (hpending other hother).elim id fun hold => honly other hold hid
    | false => exact ⟨hrunning'.always, store, hrunning', hlevel⟩
  · exact ⟨hrunning'.always, store, hkind, hrunning', hvacant', hturn.fail htouch⟩
  · exact ⟨hrunning'.always, store, hrunning', hlevel⟩

theorem dropUnprepared_triple (hmode : mode ≠ .outside) (cmd : Command) (addr : Addr) (rest : List Addr) :
    Triple cdb agreeing (contract addrs) role mode (unprepared addrs cmd addr rest)
      (Coordinator.eraseParticipant addr) fun _ => preparing addrs cmd rest := by
  refine modify_knows hmode ((unprepared addrs cmd addr rest).stable hmode)
    ((preparing addrs cmd rest).stable hmode) (fun _ _ => trivial) fun w hw => ?_
  obtain ⟨store, hkind, hrunning, hvacant, hdrop⟩ := hw
  have hrunning' := hrunning.erase addr
  exact ⟨hrunning'.always, store, hkind, hrunning', hvacant, hdrop.erase⟩

theorem settled_of_prepared (cmd : Command) (ok : Bool) (h : prepared addrs cmd ok w)
    (hempty : w.coordinator.participants = ∅) : settled addrs w := by
  cases ok with
  | true =>
      obtain ⟨store, -, hrunning, -⟩ := h
      exact (hrunning.level_of_lost hempty).idle
  | false =>
      obtain ⟨store, hrunning, -⟩ := h
      exact (hrunning.level_of_lost hempty).idle

theorem toCommit_of_prepared (client : Client) (cmd : Command) (h : prepared addrs cmd true w)
    (hmembers : w.coordinator.participants ≠ ∅) : toCommit addrs (some (client, cmd)) cmd.id w := by
  obtain ⟨store, hkind, hrunning, hvacant, hall⟩ := h
  obtain ⟨addr, haddr⟩ := exists_member hmembers
  exact ⟨store, ⟨hkind, rfl, (hall addr haddr).2.2⟩, hrunning, hvacant, hall⟩

theorem toAbort_of_prepared (cmd : Command) (h : prepared addrs cmd false w) : toAbort addrs cmd.id w := by
  obtain ⟨store, hrunning, hall⟩ := h
  refine ⟨_, store, hrunning, fun addr haddr => ⟨?_, (abort_of_eq (hall addr haddr)).1⟩⟩
  have htracks := hrunning.2.1.tracks addr (hrunning.2.1.members addr haddr)
  apply htracks.level
  right
  rw [hall addr haddr]
  exact hrunning.2.2

end Prepare

section Finish

-- Nobody is missing when there are as many members as addresses.
theorem Synced.everyone_back {next : UInt32} {deleted : List Bytes} (h : Synced addrs w next store deleted)
    (hsize : addrs.length ≤ w.coordinator.participants.size) : ∀ a ∈ addrs, a ∈ w.coordinator.participants := by
  have hnodup : w.coordinator.participants.toList.Nodup :=
    Std.ExtTreeSet.distinct_toList.imp fun hne heq => hne (by simp [heq])
  have hsubset : w.coordinator.participants.toList ⊆ addrs :=
    fun a ha => h.members a (Std.ExtTreeSet.mem_toList.mp ha)
  have hperm := (List.subperm_of_subset hnodup hsubset).perm_of_length_le (by
    rwa [Std.ExtTreeSet.length_toList])
  intro a ha
  exact Std.ExtTreeSet.mem_toList.mp (hperm.mem_iff.mpr ha)

theorem rememberDelKeys_triple (hmode : mode ≠ .outside) (client : Client) (cmd : DelCommand) :
    Triple cdb agreeing (contract addrs) role mode (committed addrs (some (client, .del cmd)))
      (Coordinator.rememberDelKeys cmd.keys) fun _ => settled addrs := by
  refine Triple.bind (get_knows hmode ((committed addrs (some (client, .del cmd))).stable hmode)) fun c => ?_
  have hstable : (contract addrs).Stable role mode fun w =>
      committed addrs (some (client, .del cmd)) w ∧ w.coordinator = c :=
    ((committed addrs (some (client, .del cmd))).stable hmode).and (stable_coordinator hmode (· = c))
  split
  · refine modify_knows hmode hstable ((settled addrs).stable hmode) (fun _ _ => trivial) fun w hw => ?_
    obtain ⟨⟨next, store, hnext, hsynced, hclosed, hall⟩, -⟩ := hw
    have hsynced' : Synced addrs { w with coordinator := { w.coordinator with
        delKeys := w.coordinator.delKeys.insertMany cmd.keys } } next store [] := by
      refine ⟨hsynced.configured, hsynced.members, hsynced.recoverable, hsynced.oneOpen, hsynced.short,
        fun a ha => ?_⟩
      obtain ⟨hlevel, hcovered, hshort, hfresh⟩ := hsynced.tracks a ha
      refine ⟨hlevel, fun key hkey hgone => .inl ?_, hshort, hfresh⟩
      rw [Std.ExtTreeSet.mem_insertMany_list]
      exact (hcovered key hkey hgone).imp_right List.contains_iff_mem.mpr
    exact ⟨hsynced'.always, next, store, hnext, hsynced', hclosed, hall⟩
  · rename_i hback
    refine Triple.ret hstable ?_
    rintro w - ⟨⟨next, store, hnext, hsynced, hclosed, hall⟩, rfl⟩
    rw [hsynced.configured] at hback
    have hmembers := hsynced.everyone_back (Nat.le_of_not_lt hback)
    refine ⟨next, store, hnext, ⟨hsynced.configured, hsynced.members, hsynced.recoverable, hsynced.oneOpen,
      hsynced.short, fun a ha => ?_⟩, hclosed, hall⟩
    exact .of_store ((hsynced.tracks a ha).level (.inl (hall a (hmembers a ha)))) hsynced.short

theorem dropMember_triple (hmode : mode ≠ .outside) (addr : Addr) :
    Triple cdb agreeing (contract addrs) role mode (settled addrs) (Coordinator.eraseParticipant addr)
      fun _ => settled addrs := by
  refine modify_knows hmode ((settled addrs).stable hmode) ((settled addrs).stable hmode) (fun _ _ => trivial) fun w hw => ?_
  have hidle := Idle.erase hw addr
  exact ⟨hidle.always, hidle⟩

end Finish

def serving (hmode : mode ≠ .outside) : Serving agreeing (contract addrs) role mode where
  toDeciding := deciding hmode
  ready := settled addrs
  asks _ _ := True
  refuse client := (sendError_keeps hmode (settled addrs) client none fun _ _ => trivial).pre fun _ _ h => h.1
  drawn _ := drawn addrs
  preparing _ := preparing addrs
  unprepared _ := unprepared addrs
  prepared _ := prepared addrs
  draw _ cmd c _ hkind := draw_triple hmode cmd c hkind
  logUnresolved _ := logUnresolved_triple hmode
  prepare _ := prepare_triple hmode
  dropUnprepared _ := dropUnprepared_triple hmode
  allPrepared := fun _ _ _ _ ⟨store, hkind, hrunning, hvacant, hturn⟩ =>
    ⟨store, hkind, hrunning, hvacant, hturn.finish⟩
  nobodyPrepared client cmd ok := (sendError_keeps hmode (settled addrs) client (some cmd.id) fun _ _ => trivial).pre
    fun _ _ h => settled_of_prepared cmd ok h.1 h.2
  accept client cmd _ _ h hmembers := toCommit_of_prepared client cmd h hmembers
  reject _ cmd _ _ h _ := toAbort_of_prepared cmd h
  finishSet _ _ _ _ h := h
  finishDel client cmd := rememberDelKeys_triple hmode client cmd
  getting _ _ _ := settled addrs
  ungot _ _ _ _ := settled addrs
  got _ _ _ := settled addrs
  unanswered := True
  startGet _ _ _ _ _ h _ := h
  get _ cmd addr rest := by
    have hask : (Request.GET cmd).asks = true := rfl
    refine (ask_keeps hmode (settled addrs) addr hask fun _ _ => trivial).post fun reply w _ h => ?_
    split <;> exact h
  dropUngot _ _ addr _ := dropMember_triple hmode addr
  sendGot client _ value := sendResult_keeps hmode (settled addrs) client value fun _ _ => trivial
  noneGot _ _ _ _ h := ⟨h, trivial⟩
  sendUnanswered client _ := sendError_outside client none fun _ _ => trivial

end Replicas

end CloudLabs.Cdb
