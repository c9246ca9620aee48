import CloudLabs.Cdb.Pending.Rejoining

namespace CloudLabs.Cdb.Pending

open Interaction RecordManager Participant

-- The coordinator has loaded its log and nothing else has happened.
def Started (addrs : List Addr) (w : World) : Prop :=
  w.coordinator.participants = ∅ ∧ w.coordinator.rManager.Recoverable w.coordinator.rManager.nextId ∧ Always addrs w

instance {addrs : List Addr} : Visible (Started addrs) :=
  ⟨fun ⟨hempty, hrecoverable, halways⟩ hq =>
    ⟨by rw [hq.coordinator]; exact hempty, by rw [hq.coordinator]; exact hrecoverable, Withstands.keep halways hq⟩⟩

-- The number of the log is taken over; a zero stands for an empty log.
def Loaded (addrs : List Addr) (w : World) : Prop :=
  w.coordinator.participants = ∅ ∧ w.coordinator.rManager.Recoverable w.coordinator.nextId ∧ Always addrs w

instance : Visible fun w => w.coordinator.rManager.file = [] := ⟨fun h hq => by rwa [hq.coordinator]⟩

instance {addrs : List Addr} : Visible (Loaded addrs) :=
  ⟨fun ⟨hempty, hrecoverable, halways⟩ hq =>
    ⟨by rw [hq.coordinator]; exact hempty, by rw [hq.coordinator]; exact hrecoverable, Withstands.keep halways hq⟩⟩

-- The members are current, but for one that is being looked at.
def Inserted (addrs : List Addr) (addr : Addr) (w : World) : Prop :=
  ∃ next, addr ∈ addrs ∧ w.coordinator.nextId = next ∧ Sound addrs w next ∧
    ∀ other ∈ w.coordinator.participants, other ≠ addr → Current w.coordinator (w.node other).participant

instance {addrs : List Addr} {addr : Addr} : Visible (Inserted addrs addr) :=
  ⟨fun ⟨next, hknown, hnext, hsound, hall⟩ hq => by
    refine ⟨next, hknown, by rw [hq.coordinator]; exact hnext,
      Withstands.keep (r := Quiet) (P := fun w => Sound addrs w next) hsound hq, fun other hother hne => ?_⟩
    rw [hq.coordinator] at hother ⊢
    exact Withstands.keep (hall other hother hne) (hq.alike other)⟩

section Assertions

variable (addrs : List Addr)

def started : (contract addrs).Assertion := known addrs (Started addrs)

def loaded : (contract addrs).Assertion := known addrs (Loaded addrs)

def fresh : (contract addrs).Assertion := known addrs fun w =>
  Loaded addrs w ∧ w.coordinator.rManager.file = []

-- What initNextId leaves: the number of the log, or a random one.
def numbered : (contract addrs).Assertion := known addrs fun w =>
  w.coordinator.participants = ∅ ∧ ∃ next, w.coordinator.nextId = next ∧ Sound addrs w next

def inserted (addr : Addr) : (contract addrs).Assertion := known addrs (Inserted addrs addr)

def bearing (addr : Addr) (pNextId : UInt32) : (contract addrs).Assertion := known addrs fun w =>
  Inserted addrs addr w ∧ (w.node addr).participant.nextId = pNextId

end Assertions

variable {addrs : List Addr} {role : Role} {w u : World} {addr : Addr} {next : UInt32}

section Number

-- As long as nothing has been logged, the number may be any.
theorem Sound.renumber (h : Sound addrs w next) (hempty : w.coordinator.rManager.file = []) (next' : UInt32) :
    Sound addrs w next' := by
  obtain ⟨last, hrecoverable, -⟩ := h.recoverable
  exact ⟨h.configured, h.members, ⟨last, hrecoverable, fun hne => absurd hempty hne⟩,
    .inl (hrecoverable.of_empty hempty).2, fun a ha => .of_clear ((h.holds a ha).fresh hempty)⟩

theorem numbered_of_loaded (h : loaded addrs w) (hne : w.coordinator.nextId ≠ 0) : numbered addrs w := by
  obtain ⟨hempty, hrecoverable, next, hsound⟩ := h
  refine ⟨hempty, w.coordinator.nextId, rfl, ?_⟩
  by_cases hfile : w.coordinator.rManager.file = []
  · exact absurd (hrecoverable.of_empty hfile).1 hne
  · obtain ⟨last, hlast, hlevel⟩ := hsound.recoverable
    rw [hrecoverable.unique hlast, hlevel hfile]
    exact hsound

theorem loadNumber_triple :
    Triple cdb orderly (contract addrs) role .alone (started addrs)
      (Coordinator.modify fun c => { c with nextId := c.rManager.nextId }) fun _ => loaded addrs := by
  have halone := Mode.alone_ne_outside
  refine modify_knows halone ((started addrs).stable halone) ((loaded addrs).stable halone) (fun _ _ => nofun)
    fun w hw => ?_
  obtain ⟨hempty, hrecoverable, next, hsound⟩ := hw
  have hsound' := hsound.change (c := { w.coordinator with nextId := w.coordinator.rManager.nextId })
    rfl hsound.members rfl
  exact ⟨hsound'.always, hempty, hrecoverable, hsound'.always⟩

-- A random number is drawn on an empty log only.
theorem drawNumber_triple :
    Triple cdb orderly (contract addrs) role .alone (fun w => loaded addrs w ∧ w.coordinator.nextId = 0)
      Coordinator.rand fun _ => fresh addrs := by
  have halone := Mode.alone_ne_outside
  refine Coordinator.rand_triple (((loaded addrs).stable halone).and (stable_coordinator halone (·.nextId = 0)))
    (fun _ => (fresh addrs).stable halone) fun w _ hw => ⟨nofun, fun value _ hT => ?_⟩
  exact ⟨give_inside halone w w, hw.1, hT⟩

theorem takeNumber_triple (value : UInt32) :
    Triple cdb orderly (contract addrs) role .alone (fresh addrs)
      (Coordinator.modify fun c => { c with nextId := value, isRecovered := false }) fun _ => numbered addrs := by
  have halone := Mode.alone_ne_outside
  refine modify_knows halone ((fresh addrs).stable halone) ((numbered addrs).stable halone) (fun _ _ => nofun)
    fun w hw => ?_
  obtain ⟨⟨hempty, -, next, hsound⟩, hfile⟩ := hw
  have hsound' := (hsound.renumber hfile value).change
    (c := { w.coordinator with nextId := value, isRecovered := false }) rfl hsound.members rfl
  exact ⟨hsound'.always, hempty, value, rfl, hsound'⟩

end Number

section Members

theorem insertFirst_triple (addr : Addr) (hknown : addr ∈ addrs) :
    Triple cdb orderly (contract addrs) role .alone (joined addrs) (Coordinator.insertParticipant addr)
      fun _ => inserted addrs addr := by
  have halone := Mode.alone_ne_outside
  refine modify_knows halone ((joined addrs).stable halone) ((inserted addrs addr).stable halone)
    (fun _ _ => nofun) fun w hw => ?_
  obtain ⟨next, hnext, hsound, hall⟩ := hw
  have hsound' := hsound.insert hknown
  refine ⟨hsound'.always, next, hknown, hnext, hsound', fun other hother hne => ?_⟩
  rcases Std.ExtTreeSet.mem_insert.mp hother with heq | hother
  · exact absurd (Std.LawfulEqCmp.eq_of_compare heq).symm hne
  · exact hall other hother

theorem eraseFirst_triple (addr : Addr) :
    Triple cdb orderly (contract addrs) role .alone (inserted addrs addr) (Coordinator.eraseParticipant addr)
      fun _ => joined addrs := by
  have halone := Mode.alone_ne_outside
  refine modify_knows halone ((inserted addrs addr).stable halone) ((joined addrs).stable halone)
    (fun _ _ => nofun) fun w hw => ?_
  obtain ⟨next, hknown, hnext, hsound, hall⟩ := hw
  have hsound' := hsound.erase addr
  refine ⟨hsound'.always, next, hnext, hsound', fun other hother => ?_⟩
  obtain ⟨hne, hmember⟩ := Std.ExtTreeSet.mem_erase.mp hother
  exact hall other hmember fun heq => hne (by simp [heq])

-- The participant bears the number, so that it may stay.
theorem joined_of_inserted (h : inserted addrs addr w)
    (hnumber : (w.node addr).participant.nextId = w.coordinator.nextId) : joined addrs w := by
  obtain ⟨next, hknown, hnext, hsound, hall⟩ := h
  refine ⟨next, hnext, hsound, fun other hother => ?_⟩
  by_cases heq : other = addr
  · rw [heq]
    exact .inl hnumber
  · exact hall other hother heq

theorem askNumber_triple (addr : Addr) :
    Triple cdb orderly (contract addrs) role .alone (inserted addrs addr) (Coordinator.call addr .NEXT_ID)
      fun reply w => match reply with
        | some (.uint32 pNextId) => bearing addrs addr pNextId w
        | _ => inserted addrs addr w := by
  have halone := Mode.alone_ne_outside
  refine call_knows halone ((inserted addrs addr).stable halone) (fun reply => ?_) (fun _ _ => ⟨trivial, nofun⟩)
    fun w choice reply u hw _ hcall => ?_
  · split <;> exact Contract.Assertion.stable _ halone
  have hq : Quiet w u := quiet_of_ask (K := contract addrs) rfl hcall
  have hinserted : Inserted addrs addr u := Withstands.keep hw hq
  obtain ⟨_, -, -, hsound, -⟩ := id hinserted
  refine ⟨hsound.always, ?_⟩
  obtain ⟨-, ⟨-, rfl⟩ | ⟨answer, hhandle, rfl | rfl⟩ | ⟨stage, cmd, hprepares, -⟩⟩ := World.call_participant hcall
  · exact hinserted
  · obtain ⟨rfl, -⟩ := Prod.mk.inj (Except.ok.inj hhandle)
    exact ⟨hinserted, hq.nextId addr⟩
  · exact hinserted
  · cases hprepares

theorem tellNumber_triple (addr : Addr) (c : Coordinator) :
    Triple cdb orderly (contract addrs) role .alone
      (fun w => inserted addrs addr w ∧ w.coordinator = c) (Coordinator.call addr (.SET_NEXT_ID c.nextId))
      fun reply w => match reply with
        | some _ => joined addrs w
        | none => inserted addrs addr w := by
  have halone := Mode.alone_ne_outside
  refine call_knows halone (((inserted addrs addr).stable halone).and (stable_coordinator halone (· = c)))
    (fun reply => ?_) (fun _ _ => ⟨trivial, nofun⟩) fun w choice reply u hw hT hcall => ?_
  · split <;> exact Contract.Assertion.stable _ halone
  obtain ⟨hw, rfl⟩ := hw
  rcases setNextId_cases hT hcall with ⟨hq, rfl⟩ | ⟨hhandled, htold⟩
  · have hinserted : Inserted addrs addr u := Withstands.keep hw hq
    obtain ⟨_, -, -, hsound, -⟩ := id hinserted
    exact ⟨hsound.always, hinserted⟩
  obtain ⟨next, hknown, hnext, hsound, hall⟩ := hw
  have htouch := World.call_touches hcall
  have hsound' : Sound addrs u next :=
    hsound.call hcall fun _ answer q hhandle => .of_clear (hhandled answer q hhandle).1
  have hinserted : Inserted addrs addr u := by
    refine ⟨next, hknown, by rw [htouch.coordinator]; exact hnext, hsound', fun other hother hne => ?_⟩
    rw [htouch.coordinator] at hother ⊢
    rw [htouch.node other hne]
    exact hall other hother hne
  refine ⟨hsound'.always, ?_⟩
  cases reply with
  | none => exact hinserted
  | some answer =>
      refine joined_of_inserted hinserted ?_
      rw [htouch.coordinator]
      exact htold.resolve_left (by simp)

-- The record of the open update has the number before the one that is next.
theorem records_next (h : Sound addrs w next) :
    w.coordinator.rManager.records[next]?.map Record.status = none := by
  rcases h.oneOpen with hempty | ⟨id, status, hopens, rfl, -⟩
  · rw [hempty]
    rfl
  · rw [hopens.getElem?, if_neg (by grind)]

end Members

-- The record that is looked up is never there.
theorem not_behind {pNextId : UInt32} (h : bearing addrs addr pNextId w) :
    ¬ (w.coordinator.rManager.records[w.coordinator.nextId]?.map Record.status) = some RECORD_ABORT := by
  intro hstatus
  obtain ⟨⟨next, -, hnext, hsound, -⟩, -⟩ := h
  rw [hnext, records_next hsound] at hstatus
  cases hstatus

theorem joined_of_numbered (h : numbered addrs w) : joined addrs w := by
  obtain ⟨hempty, next, hnext, hsound⟩ := h
  refine ⟨next, hnext, hsound, fun addr haddr => ?_⟩
  rw [hempty] at haddr
  exact absurd haddr Std.ExtTreeSet.not_mem_empty

def booting : Booting orderly (contract addrs) role where
  toRejoining := rejoining Mode.alone_ne_outside
  started := started addrs
  loaded := loaded addrs
  fresh := fresh addrs
  numbered := numbered addrs
  inserted := inserted addrs
  bearing := bearing addrs
  loadNumber := loadNumber_triple
  drawNumber := drawNumber_triple
  takeNumber := takeNumber_triple
  goOn _ _ h hne := numbered_of_loaded h hne
  nobody _ _ h := joined_of_numbered h
  insertFirst := insertFirst_triple
  askNumber := askNumber_triple
  bears _ _ _ _ h := h.1
  tellNumber addr c _ := tellNumber_triple addr c
  stays _ _ _ h := joined_of_inserted h.1 h.2
  staysBehind _ _ _ _ h _ hstatus := (not_behind h hstatus).elim
  eraseFirst := eraseFirst_triple

-- What a crash leaves is what the next coordinator can be started from.
theorem started_of_restart (h : Always addrs w) (hrestart : w.restart = some u) : started addrs u := by
  obtain ⟨next, hsound⟩ := h
  obtain ⟨last, hlast, hfile⟩ := hsound.recoverable
  simp only [World.restart, hlast.load] at hrestart
  cases hrestart
  refine ⟨rfl, hlast, last, hsound.configured, fun a ha => absurd ha Std.ExtTreeSet.not_mem_empty,
    ⟨last, hlast, fun _ => rfl⟩, ?_, fun a ha => ?_⟩
  · by_cases hempty : w.coordinator.rManager.file = []
    · exact .inl (hlast.of_empty hempty).2
    · rw [hfile hempty]
      exact hsound.oneOpen
  · have hholds := hsound.holds a ha
    refine ⟨hholds.orderly, fun hlevel => ?_, hholds.fresh⟩
    by_cases hempty : w.coordinator.rManager.file = []
    · exact hholds.fresh hempty
    · apply hholds.level
      rw [hlevel]
      exact hfile hempty

end CloudLabs.Cdb.Pending
