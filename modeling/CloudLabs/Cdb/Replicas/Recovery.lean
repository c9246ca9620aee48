import CloudLabs.Cdb.Replicas.Rejoining

namespace CloudLabs.Cdb.Replicas

open Interaction RecordManager Participant

-- The coordinator has loaded its log and nothing else has happened.
def Started (addrs : List Addr) (w : World) : Prop :=
  w.coordinator.participants = ∅ ∧ w.coordinator.rManager.Recoverable w.coordinator.rManager.nextId ∧
    ∃ next store, Synced addrs w next store []

-- The members are current, but for one that is being looked at.
def inserted (addrs : List Addr) (addr : Addr) : (contract addrs).Assertion where
  holds w := ∃ next store, addr ∈ addrs ∧ w.coordinator.nextId = next ∧ Synced addrs w next store [] ∧
    ∀ other ∈ w.coordinator.participants, other ≠ addr →
      w.coordinator.Current next (w.node other).participant
  quiet := fun ⟨next, store, hknown, hnext, hsynced, hall⟩ hq _ => by
    refine ⟨next, store, hknown, by rw [hq.coordinator]; exact hnext,
      Withstands.keep (r := Quiet) (P := fun w => Synced addrs w next store []) hsynced hq, fun other hother hne => ?_⟩
    rw [hq.coordinator] at hother ⊢
    rw [hq.participant]
    exact hall other hother hne

instance {addrs : List Addr} : Visible (Started addrs) :=
  ⟨fun ⟨hempty, hrecoverable, next, store, hsynced⟩ hq => by
    refine ⟨by rw [hq.coordinator]; exact hempty, by rw [hq.coordinator]; exact hrecoverable, next, store, ?_⟩
    exact Withstands.keep (r := Quiet) (P := fun w => Synced addrs w next store []) hsynced hq⟩

variable {addrs : List Addr} {role : Role} {w u : World} {addr : Addr} {next : UInt32} {store : Store}

section Number

-- As long as nothing has been logged, the number may be any.
theorem Synced.renumber (h : Synced addrs w next store []) (hempty : w.coordinator.rManager.file = [])
    (next' : UInt32) : Synced addrs w next' store [] := by
  obtain ⟨last, hrecoverable, -⟩ := h.recoverable
  refine ⟨h.configured, h.members, ⟨last, hrecoverable, fun hne => absurd hempty hne⟩,
    .inl (hrecoverable.of_empty hempty).2, h.short, fun a ha => ?_⟩
  obtain ⟨-, hcovered, hshort, hfresh⟩ := h.tracks a ha
  exact ⟨fun _ => hfresh hempty, hcovered, hshort, hfresh⟩

-- What initNextId leaves: the number of the log, or a random one.
def numbered (addrs : List Addr) : (contract addrs).Assertion where
  holds w := w.coordinator.participants = ∅ ∧ ∃ next store, w.coordinator.nextId = next ∧
    Synced addrs w next store []
  quiet := fun ⟨hempty, next, store, hnext, hsynced⟩ hq _ =>
    ⟨by rw [hq.coordinator]; exact hempty, next, store, by rw [hq.coordinator]; exact hnext,
      Withstands.keep (r := Quiet) (P := fun w => Synced addrs w next store []) hsynced hq⟩

-- The number of the log is taken over; a zero stands for an empty log.
def loaded (addrs : List Addr) : (contract addrs).Assertion where
  holds w := w.coordinator.participants = ∅ ∧ w.coordinator.rManager.Recoverable w.coordinator.nextId ∧
    ∃ next store, Synced addrs w next store []
  quiet := fun ⟨hempty, hrecoverable, next, store, hsynced⟩ hq _ =>
    ⟨by rw [hq.coordinator]; exact hempty, by rw [hq.coordinator]; exact hrecoverable, next, store,
      Withstands.keep (r := Quiet) (P := fun w => Synced addrs w next store []) hsynced hq⟩

def started (addrs : List Addr) : (contract addrs).Assertion := known addrs (Started addrs)

-- The same while nothing has been logged.
def fresh (addrs : List Addr) : (contract addrs).Assertion where
  holds w := loaded addrs w ∧ w.coordinator.rManager.file = []
  quiet := fun ⟨hloaded, hfile⟩ hq ha => ⟨(loaded addrs).quiet hloaded hq ha, by rw [hq.coordinator]; exact hfile⟩

theorem numbered_of_loaded (h : loaded addrs w) (hne : w.coordinator.nextId ≠ 0) : numbered addrs w := by
  obtain ⟨hempty, hrecoverable, next, store, hsynced⟩ := h
  refine ⟨hempty, w.coordinator.nextId, store, rfl, ?_⟩
  by_cases hfile : w.coordinator.rManager.file = []
  · exact absurd (hrecoverable.of_empty hfile).1 hne
  · obtain ⟨last, hlast, hlevel⟩ := hsynced.recoverable
    rw [hrecoverable.unique hlast, hlevel hfile]
    exact hsynced

theorem loadNumber_triple :
    Triple cdb agreeing (contract addrs) role .alone (started addrs)
      (Coordinator.modify fun c => { c with nextId := c.rManager.nextId }) fun _ => loaded addrs := by
  have halone := Mode.alone_ne_outside
  refine modify_knows halone ((started addrs).stable halone) ((loaded addrs).stable halone) (fun _ _ => trivial)
    fun w hw => ?_
  obtain ⟨hempty, hrecoverable, next, store, hsynced⟩ := hw
  have hsynced' := hsynced.change (c := { w.coordinator with nextId := w.coordinator.rManager.nextId })
    rfl hsynced.members rfl rfl
  exact ⟨hsynced'.always, hempty, hrecoverable, next, store, hsynced'⟩

-- A random number is drawn on an empty log only.
theorem drawNumber_triple :
    Triple cdb agreeing (contract addrs) role .alone (fun w => loaded addrs w ∧ w.coordinator.nextId = 0)
      Coordinator.rand fun _ => fresh addrs := by
  have halone := Mode.alone_ne_outside
  refine Coordinator.rand_triple (((loaded addrs).stable halone).and (stable_coordinator halone (·.nextId = 0)))
    (fun _ => (fresh addrs).stable halone) fun w _ hw => ⟨trivial, fun value _ hT => ?_⟩
  exact ⟨give_inside halone w w, hw.1, hT⟩

theorem takeNumber_triple (value : UInt32) :
    Triple cdb agreeing (contract addrs) role .alone (fresh addrs)
      (Coordinator.modify fun c => { c with nextId := value, isRecovered := false }) fun _ => numbered addrs := by
  have halone := Mode.alone_ne_outside
  refine modify_knows halone ((fresh addrs).stable halone) ((numbered addrs).stable halone) (fun _ _ => trivial)
    fun w hw => ?_
  obtain ⟨⟨hempty, -, next, store, hsynced⟩, hfile⟩ := hw
  have hsynced' := (hsynced.renumber hfile value).change
    (c := { w.coordinator with nextId := value, isRecovered := false }) rfl hsynced.members rfl rfl
  exact ⟨hsynced'.always, hempty, value, store, rfl, hsynced'⟩

end Number

section Members

theorem insertFirst_triple (addr : Addr) (hknown : addr ∈ addrs) :
    Triple cdb agreeing (contract addrs) role .alone (joined addrs) (Coordinator.insertParticipant addr)
      fun _ => inserted addrs addr := by
  have halone := Mode.alone_ne_outside
  refine modify_knows halone ((joined addrs).stable halone) ((inserted addrs addr).stable halone) (fun _ _ => trivial) fun w hw => ?_
  obtain ⟨next, store, hnext, hsynced, hall⟩ := hw
  have hsynced' := hsynced.insert hknown
  refine ⟨hsynced'.always, next, store, hknown, hnext, hsynced', fun other hother hne => ?_⟩
  rcases Std.ExtTreeSet.mem_insert.mp hother with heq | hother
  · exact absurd (Std.LawfulEqCmp.eq_of_compare heq).symm hne
  · exact hall other hother

theorem eraseFirst_triple (addr : Addr) :
    Triple cdb agreeing (contract addrs) role .alone (inserted addrs addr) (Coordinator.eraseParticipant addr)
      fun _ => joined addrs := by
  have halone := Mode.alone_ne_outside
  refine modify_knows halone ((inserted addrs addr).stable halone) ((joined addrs).stable halone) (fun _ _ => trivial) fun w hw => ?_
  obtain ⟨next, store, hknown, hnext, hsynced, hall⟩ := hw
  have hsynced' := hsynced.erase addr
  refine ⟨hsynced'.always, next, store, hnext, hsynced', fun other hother => ?_⟩
  obtain ⟨hne, hmember⟩ := Std.ExtTreeSet.mem_erase.mp hother
  exact hall other hmember fun heq => hne (by simp [heq])

-- The participant bears the number, so that it may stay.
theorem joined_of_inserted (h : inserted addrs addr w)
    (hnumber : (w.node addr).participant.nextId = w.coordinator.nextId) : joined addrs w := by
  obtain ⟨next, store, hknown, hnext, hsynced, hall⟩ := h
  refine ⟨next, store, hnext, hsynced, fun other hother => ?_⟩
  by_cases heq : other = addr
  · rw [heq]
    exact .inl (hnumber.trans hnext)
  · exact hall other hother heq

def bearing (addrs : List Addr) (addr : Addr) (pNextId : UInt32) : (contract addrs).Assertion where
  holds w := inserted addrs addr w ∧ (w.node addr).participant.nextId = pNextId
  quiet := fun ⟨hinserted, hnumber⟩ hq ha =>
    ⟨(inserted addrs addr).quiet hinserted hq ha, by rw [hq.participant]; exact hnumber⟩

theorem always_of_inserted (h : inserted addrs addr w) : Always addrs w := by
  obtain ⟨next, store, -, -, hsynced, -⟩ := h
  exact hsynced.always

theorem askNumber_triple (addr : Addr) :
    Triple cdb agreeing (contract addrs) role .alone (inserted addrs addr) (Coordinator.call addr .NEXT_ID)
      fun reply w => match reply with
        | some (.uint32 pNextId) => bearing addrs addr pNextId w
        | _ => inserted addrs addr w := by
  have halone := Mode.alone_ne_outside
  refine call_knows halone ((inserted addrs addr).stable halone) (fun reply => ?_) (fun _ _ => trivial)
    fun w choice reply u hw _ hcall => ?_
  · split <;> exact Contract.Assertion.stable _ halone
  have hq : Quiet w u := quiet_of_ask (K := contract addrs) rfl hcall
  have halways := Withstands.keep (r := Quiet) (P := Always addrs) (always_of_inserted hw) hq
  have hinserted : inserted addrs addr u := (inserted addrs addr).quiet hw hq halways
  refine ⟨halways, ?_⟩
  obtain ⟨-, ⟨-, rfl⟩ | ⟨answer, hhandle, rfl | rfl⟩ | ⟨stage, cmd, hprepares, -⟩⟩ := World.call_participant hcall
  · exact hinserted
  · obtain ⟨rfl, -⟩ := Prod.mk.inj (Except.ok.inj hhandle)
    exact ⟨hinserted, by rw [hq.participant]⟩
  · exact hinserted
  · cases hprepares

theorem tellNumber_triple (addr : Addr) (c : Coordinator) (hfresh : c.isRecovered = false) :
    Triple cdb agreeing (contract addrs) role .alone
      (fun w => inserted addrs addr w ∧ w.coordinator = c) (Coordinator.call addr (.SET_NEXT_ID c.nextId))
      fun reply w => match reply with
        | some _ => joined addrs w
        | none => inserted addrs addr w := by
  have halone := Mode.alone_ne_outside
  refine call_knows halone (((inserted addrs addr).stable halone).and (stable_coordinator halone (· = c)))
    (fun reply => ?_) (fun _ _ => trivial) fun w choice reply u hw hT hcall => ?_
  · split <;> exact Contract.Assertion.stable _ halone
  obtain ⟨⟨next, store, hknown, hnext, hsynced, hall⟩, rfl⟩ := hw
  have hstore : (w.node addr).participant.store = store := by
    rcases hT.2.2 hfresh with hempty | ⟨other, hother, hnumber, hsame⟩
    · exact (hsynced.tracks addr hknown).fresh hempty
    · rw [hsynced.configured] at hother
      rw [← hsame]
      exact (hsynced.tracks other hother).level (.inl (hnumber.trans hnext))
  have hsynced' : Synced addrs u next store [] := by
    refine hsynced.call hcall fun _ answer q hhandle => ?_
    cases hhandle
    exact .of_store hstore hsynced.short
  have htouch := World.call_touches hcall
  have hinserted : inserted addrs addr u := by
    refine ⟨next, store, hknown, by rw [htouch.coordinator]; exact hnext, hsynced', fun other hother hne => ?_⟩
    rw [htouch.coordinator] at hother ⊢
    rw [htouch.node other hne]
    exact hall other hother hne
  refine ⟨hsynced'.always, ?_⟩
  obtain ⟨-, ⟨-, rfl⟩ | ⟨answer, hhandle, rfl | rfl⟩ | ⟨stage, cmd, hprepares, -⟩⟩ := World.call_participant hcall
  · exact hinserted
  · refine joined_of_inserted hinserted ?_
    rw [← (Prod.mk.inj (Except.ok.inj hhandle)).2, htouch.coordinator]
  · exact hinserted
  · cases hprepares

-- The record of the open update has the number before the one that is next.
theorem records_next (h : Synced addrs w next store []) :
    w.coordinator.rManager.records[next]?.map Record.status = none := by
  rcases h.oneOpen with hempty | ⟨id, status, hopens, rfl, -⟩
  · rw [hempty]
    rfl
  · rw [hopens.getElem?, if_neg (by grind)]

end Members

-- The record that is looked up is never there.
theorem not_behind {pNextId : UInt32} (h : bearing addrs addr pNextId w) :
    ¬ (w.coordinator.rManager.records[w.coordinator.nextId]?.map Record.status) = some RECORD_ABORT := by
  intro hstatus
  obtain ⟨⟨next, store, -, hnext, hsynced, -⟩, -⟩ := h
  rw [hnext, records_next hsynced] at hstatus
  cases hstatus

theorem joined_of_numbered (h : numbered addrs w) : joined addrs w := by
  obtain ⟨hempty, next, store, hnext, hsynced⟩ := h
  refine ⟨next, store, hnext, hsynced, fun addr haddr => ?_⟩
  rw [hempty] at haddr
  exact absurd haddr Std.ExtTreeSet.not_mem_empty

def booting : Booting agreeing (contract addrs) role where
  toRejoining := rejoining Mode.alone_ne_outside
  started := started addrs
  loaded := loaded addrs
  fresh := fresh addrs
  numbered := numbered addrs
  inserted := inserted addrs
  bearing := bearing addrs
  loadNumber := loadNumber_triple
  drawNumber := drawNumber_triple
  takeNumber := takeNumber_triple
  goOn _ _ h hne := numbered_of_loaded h hne
  nobody _ _ h := joined_of_numbered h
  insertFirst := insertFirst_triple
  askNumber := askNumber_triple
  bears _ _ _ _ h := h.1
  tellNumber := tellNumber_triple
  stays _ _ _ h := joined_of_inserted h.1 h.2
  staysBehind _ _ _ _ h _ hstatus := (not_behind h hstatus).elim
  eraseFirst := eraseFirst_triple

section Restart

-- A store that has all keys of the given ones.
theorem exists_cover {stores : Addr → Store} (hshort : ∀ addr ∈ addrs, ShortEntries (stores addr)) :
    ∃ cover, ShortEntries cover ∧ ∀ addr ∈ addrs, ∀ key ∈ stores addr, key ∈ cover := by
  induction addrs with
  | nil => exact ⟨∅, fun key value hfound => by simp at hfound, by simp⟩
  | cons addr rest ih =>
      obtain ⟨cover, hcover, hkeys⟩ := ih fun other hother => hshort other (List.mem_cons_of_mem _ hother)
      refine ⟨cover ∪ stores addr, fun key value hfound => ?_, fun other hother key hkey => ?_⟩
      · rw [Std.ExtTreeMap.getElem?_union] at hfound
        rcases Option.or_eq_some_iff.mp hfound with hnew | ⟨-, hold⟩
        · exact hshort addr List.mem_cons_self key value hnew
        · exact hcover key value hold
      · rcases List.mem_cons.mp hother with rfl | hother
        · exact Std.ExtTreeMap.mem_union_of_right hkey
        · exact Std.ExtTreeMap.mem_union_of_left (hkeys other hother key hkey)

-- The newest participants hold the store.
theorem Synced.newest {deleted : List Bytes} {last : UInt32} {p : Participant}
    (h : w.coordinator.Tracks next store deleted p) (hlast : w.coordinator.rManager.Recoverable last)
    (hfile : w.coordinator.rManager.file ≠ [] → last = next) (hnewest : w.coordinator.Newest p) :
    p.store = store := by
  by_cases hempty : w.coordinator.rManager.file = []
  · exact h.fresh hempty
  · apply h.level
    rcases hnewest with hrecoverable | hopen
    · left
      rw [hrecoverable.unique hlast]
      exact hfile hempty
    · exact .inr hopen

-- What a crash leaves is what the next coordinator can be started from.
theorem started_of_restart (h : Always addrs w) (hcrash : agreeing.crash w) (hrestart : w.restart = some u) :
    Started addrs u := by
  obtain ⟨next, store, deleted, hsynced⟩ := h
  obtain ⟨last, hlast, hfile⟩ := hsynced.recoverable
  simp only [World.restart, hlast.load] at hrestart
  cases hrestart
  refine ⟨rfl, hlast, last, ?_⟩
  have hone : w.coordinator.rManager.OneOpen last := by
    by_cases hempty : w.coordinator.rManager.file = []
    · exact .inl (hlast.of_empty hempty).2
    · rw [hfile hempty]
      exact hsynced.oneOpen
  -- It remains to find the store that the participants are compared with.
  suffices hstore : ∃ store', ShortEntries store' ∧ ∀ a ∈ addrs,
      (w.coordinator.Newest (w.node a).participant → (w.node a).participant.store = store') ∧
      (∀ key ∈ (w.node a).participant.store, key ∈ store') ∧
      (w.coordinator.rManager.file = [] → (w.node a).participant.store = store') by
    obtain ⟨store', hshort, hall⟩ := hstore
    refine ⟨store', hsynced.configured, fun a ha => absurd ha Std.ExtTreeSet.not_mem_empty,
      ⟨last, hlast, fun _ => rfl⟩, hone, hshort, fun a ha => ?_⟩
    obtain ⟨hlevel, hcovered, hfresh⟩ := hall a ha
    refine ⟨fun hcurrent => hlevel ?_, fun key hkey hgone => absurd (hcovered key hkey) hgone,
      (hsynced.tracks a ha).short, hfresh⟩
    rcases hcurrent with hnumber | hopen
    · left
      rw [hnumber]
      exact hlast
    · exact .inr hopen
  rw [← hsynced.configured] at *
  by_cases hempty : w.coordinator.rManager.file = []
  · have hsame := fun a ha => (hsynced.tracks a ha).fresh hempty
    refine ⟨store, hsynced.short, fun a ha => ⟨fun _ => hsame a ha, fun key hkey => ?_, fun _ => hsame a ha⟩⟩
    rw [← hsame a ha]
    exact hkey
  by_cases hnewest : ∃ a ∈ w.coordinator.participantAddrs, w.coordinator.Newest (w.node a).participant
  · obtain ⟨newest, hmember, hnew⟩ := hnewest
    have hsame : ∀ a ∈ w.coordinator.participantAddrs, w.coordinator.Newest (w.node a).participant →
        (w.node a).participant.store = store :=
      fun a ha => Synced.newest (hsynced.tracks a ha) hlast hfile
    refine ⟨store, hsynced.short, fun a ha => ⟨hsame a ha, fun key hkey => ?_, fun hnil => absurd hnil hempty⟩⟩
    rw [← hsame newest hmember hnew]
    exact hcrash a ha newest hmember hnew key hkey
  · obtain ⟨cover, hshort, hkeys⟩ := exists_cover fun a ha => (hsynced.tracks a ha).short
    exact ⟨cover, hshort, fun a ha => ⟨fun hnew => absurd ⟨a, ha, hnew⟩ hnewest, hkeys a ha,
      fun hnil => absurd hnil hempty⟩⟩

end Restart

end CloudLabs.Cdb.Replicas
