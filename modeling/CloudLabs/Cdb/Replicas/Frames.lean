import CloudLabs.Cdb.Replicas

namespace CloudLabs.Cdb

open Interaction RecordManager Participant

section Dispatch

variable {store store' : Store} {cmd : Command} {ret : Bytes}

theorem store_of_dispatch_del {cmd : DelCommand} (h : dispatch store (.del cmd) = .ok (ret, store')) :
    store' = (deleteKeys store cmd.keys).2 := by
  unfold dispatch handleDel at h
  simp only at h
  split at h <;> exact (Prod.mk.inj (Except.ok.inj h)).2.symm

-- A key that an update takes away is one that it names.
theorem mem_deleted_of_dispatch (h : dispatch store cmd = .ok (ret, store')) {key : Bytes}
    (hkey : key ∈ store) (hgone : key ∉ store') : key ∈ cmd.deleted := by
  cases cmd with
  | get cmd => cases h
  | set cmd =>
      cases h
      refine absurd ?_ hgone
      rw [Std.ExtTreeMap.mem_insert]
      exact .inr hkey
  | del cmd =>
      show key ∈ cmd.keys
      by_contra hnot
      apply hgone
      rw [store_of_dispatch_del h, ← Std.ExtTreeMap.contains_iff_mem, Std.ExtTreeMap.contains_eq_isSome_getElem?,
        deleteKeys_getElem?, if_neg hnot, ← Std.ExtTreeMap.contains_eq_isSome_getElem?]
      exact hkey

theorem short_of_dispatch (h : dispatch store cmd = .ok (ret, store')) (hfits : cmd.Fits)
    (hshort : ShortEntries store) : ShortEntries store' := by
  intro key value hfound
  cases cmd with
  | get cmd => cases h
  | set cmd =>
      cases h
      rw [Std.ExtTreeMap.getElem?_insert] at hfound
      split at hfound
      · rename_i heq
        cases hfound
        rw [← Std.LawfulEqCmp.eq_of_compare heq]
        exact hfits
      · exact hshort key value hfound
  | del cmd =>
      rw [store_of_dispatch_del h, deleteKeys_getElem?] at hfound
      split at hfound
      · cases hfound
      · exact hshort key value hfound

end Dispatch

namespace Coordinator

variable {c c' : Coordinator} {next : UInt32} {store : Store} {deleted : List Bytes} {p q : Participant}

theorem Tracks.of_store (hstore : p.store = store) (hshort : ShortEntries store) : c.Tracks next store deleted p :=
  ⟨fun _ => hstore, fun _ hkey hnot => absurd (hstore ▸ hkey) hnot, hstore ▸ hshort, fun _ => hstore⟩

theorem Tracks.keep (h : c.Tracks next store deleted p) (hstore : q.store = p.store)
    (hnext : q.nextId = p.nextId) : c.Tracks next store deleted q := by
  refine ⟨fun hcurrent => ?_, ?_, ?_, ?_⟩
  · rw [hstore]
    apply h.level
    unfold Current at *
    rwa [← hnext]
  · rw [hstore]
    exact h.covered
  · rw [hstore]
    exact h.short
  · rw [hstore]
    exact h.fresh

-- Only the log and the deleted keys matter.
theorem Tracks.frame (h : c.Tracks next store deleted p) (hmanager : c'.rManager = c.rManager)
    (hdel : c'.delKeys = c.delKeys) : c'.Tracks next store deleted p := by
  refine ⟨fun hcurrent => h.level ?_, ?_, h.short, ?_⟩
  · unfold Current at *
    rwa [← hmanager]
  · rw [hdel]
    exact h.covered
  · rw [hmanager]
    exact h.fresh

end Coordinator

namespace Replicas

variable {addrs : List Addr} {w u : World} {next id : UInt32} {status : RecordStatus} {store : Store}
  {deleted : List Bytes} {addr : Addr}

namespace Synced

theorem always (h : Synced addrs w next store deleted) : Always addrs w := ⟨next, store, deleted, h⟩

-- A call changes one participant only.
theorem call {request : Request} {choice : Choice} {reply : Option Reply}
    (h : Synced addrs w next store deleted) (hcall : w.call addr request choice = some (reply, u))
    (hhandled : addr ∈ addrs → ∀ answer q, (w.node addr).participant.handle request = .ok (answer, q) →
      w.coordinator.Tracks next store deleted q) :
    Synced addrs u next store deleted := by
  have hc := (World.call_touches hcall).coordinator
  obtain ⟨hother, hnode⟩ := World.call_participant hcall
  refine ⟨by rw [hc]; exact h.configured, by rw [hc]; exact h.members, by rw [hc]; exact h.recoverable,
    by rw [hc]; exact h.oneOpen, h.short, fun a ha => ?_⟩
  rw [hc]
  by_cases heq : a = addr
  · subst heq
    rcases hnode with ⟨hsame, -⟩ | ⟨answer, hhandle, -⟩ | ⟨stage, cmd, -, -, hrefused⟩
    · rw [hsame]
      exact h.tracks a ha
    · exact hhandled ha answer _ hhandle
    · obtain ⟨hstore, hnext, -⟩ := prepareRefused_keeps (w.node a).participant stage cmd
      rw [hrefused]
      exact (h.tracks a ha).keep hstore hnext
  · rw [hother a heq]
    exact h.tracks a ha

-- A change of the coordinator that leaves its log and the deleted keys alone.
theorem change {c : Coordinator} (h : Synced addrs w next store deleted)
    (hconfigured : c.participantAddrs = w.coordinator.participantAddrs)
    (hmembers : ∀ a ∈ c.participants, a ∈ addrs) (hmanager : c.rManager = w.coordinator.rManager)
    (hdel : c.delKeys = w.coordinator.delKeys) : Synced addrs { w with coordinator := c } next store deleted :=
  ⟨hconfigured.trans h.configured, hmembers, hmanager ▸ h.recoverable, hmanager ▸ h.oneOpen, h.short,
    fun a ha => (h.tracks a ha).frame hmanager hdel⟩

theorem erase (h : Synced addrs w next store deleted) (addr : Addr) :
    Synced addrs { w with coordinator := { w.coordinator with
      participants := w.coordinator.participants.erase addr } } next store deleted :=
  h.change rfl (fun a ha => h.members a (Std.ExtTreeSet.mem_of_mem_erase ha)) rfl rfl

theorem insert (h : Synced addrs w next store deleted) (haddr : addr ∈ addrs) :
    Synced addrs { w with coordinator := { w.coordinator with
      participants := w.coordinator.participants.insert addr } } next store deleted := by
  refine h.change rfl (fun a ha => ?_) rfl rfl
  rcases Std.ExtTreeSet.mem_insert.mp ha with heq | ha
  · rw [← Std.LawfulEqCmp.eq_of_compare heq]
    exact haddr
  · exact h.members a ha

-- The log goes on with the number that the coordinator has.
theorem log {store' : Store} {deleted' : List Bytes} (h : Synced addrs w next store deleted)
    (hnext : w.coordinator.nextId = id + 1) (hopen : (w.log status id).coordinator.rManager.OneOpen (id + 1))
    (hshort : ShortEntries store')
    (hlevel : ∀ a ∈ addrs, (w.log status id).coordinator.Current (id + 1) (w.node a).participant →
      (w.node a).participant.store = store')
    (hcovered : ∀ a ∈ addrs, ∀ key ∈ (w.node a).participant.store, key ∉ store' →
      key ∈ w.coordinator.delKeys ∨ key ∈ deleted') :
    Synced addrs (w.log status id) (id + 1) store' deleted' := by
  obtain ⟨last, hrecoverable, -⟩ := h.recoverable
  refine ⟨h.configured, h.members, ⟨id + 1, ?_, fun _ => rfl⟩, hopen, hshort, fun a ha => ?_⟩
  · rw [← hnext]
    exact hrecoverable.log _
  · exact ⟨hlevel a ha, hcovered a ha, (h.tracks a ha).short, fun hempty => absurd hempty (log_file_ne_nil _ _)⟩

end Synced

namespace Running

theorem always (h : Running addrs id status store deleted w) : Always addrs w := h.2.1.always

theorem call {request : Request} {choice : Choice} {reply : Option Reply}
    (h : Running addrs id status store deleted w) (hcall : w.call addr request choice = some (reply, u))
    (hhandled : addr ∈ addrs → ∀ answer q, (w.node addr).participant.handle request = .ok (answer, q) →
      w.coordinator.Tracks (id + 1) store deleted q) :
    Running addrs id status store deleted u := by
  have hc := (World.call_touches hcall).coordinator
  refine ⟨?_, h.2.1.call hcall hhandled, ?_⟩
  · rw [hc]
    exact h.1
  · rw [hc]
    exact h.2.2

theorem erase (h : Running addrs id status store deleted w) (addr : Addr) :
    Running addrs id status store deleted { w with coordinator := { w.coordinator with
      participants := w.coordinator.participants.erase addr } } :=
  ⟨h.1, h.2.1.erase addr, h.2.2⟩

-- While a decision is open, only those that have carried it out are current.
theorem current_iff (h : w.coordinator.rManager.Opens id status) (hstatus : status ≠ RECORD_UNRESOLVED)
    (p : Participant) : w.coordinator.Current (id + 1) p ↔ p.nextId = id + 1 := by
  refine ⟨fun hcurrent => ?_, .inl⟩
  rcases hcurrent with hnext | hopen
  · exact hnext
  · exact absurd (h.unique hopen).2 hstatus

-- The update is decided, or its decision is logged once more.
theorem logDecision (h : Running addrs id status store deleted w) {decision : RecordStatus}
    (hdecision : decision = RECORD_COMMIT ∨ decision = RECORD_ABORT) :
    Running addrs id decision store deleted (w.log decision id) := by
  obtain ⟨hnext, hsynced, hopen⟩ := h
  have hdone : (⟨decision, id, w.coordinator.nextId⟩ : Record).done = false := by
    rcases hdecision with rfl | rfl <;> rfl
  have hopens : (w.log decision id).coordinator.rManager.Opens id decision := hopen.log rfl hdone
  have hstatus : decision ≠ RECORD_UNRESOLVED := by
    rcases hdecision with rfl | rfl <;> decide
  refine ⟨hnext, hsynced.log hnext (.inr ⟨id, _, hopens, rfl, .inr hdecision⟩) hsynced.short
    (fun a ha hcurrent => ?_) fun a ha => (hsynced.tracks a ha).covered, hopens⟩
  exact (hsynced.tracks a ha).level (.inl ((current_iff hopens hstatus _).mp hcurrent))

-- Nobody is left to carry the decision out.
theorem level_of_lost (h : Running addrs id status store deleted w) (hempty : w.coordinator.participants = ∅) :
    Level addrs (id + 1) store deleted w := by
  refine ⟨h.1, h.2.1, fun hne => absurd hempty hne, fun a ha => ?_⟩
  rw [hempty] at ha
  exact absurd ha Std.ExtTreeSet.not_mem_empty

-- Everybody who is left has carried it out.
theorem level_of_done (h : Running addrs id status store deleted w) {done : RecordStatus}
    (hdone : done = RECORD_COMMIT_DONE ∨ done = RECORD_ABORT_DONE)
    (hall : w.Everyone (·.nextId = id + 1)) : Level addrs (id + 1) store deleted (w.log done id) := by
  obtain ⟨hnext, hsynced, hopen⟩ := h
  have hrecords : (w.log done id).coordinator.rManager.records = ∅ :=
    hopen.log_done rfl (by rcases hdone with rfl | rfl <;> rfl)
  refine ⟨hnext, hsynced.log hnext (.inl hrecords) hsynced.short (fun a ha hcurrent => ?_)
    fun a ha => (hsynced.tracks a ha).covered, fun _ => hrecords, hall⟩
  rcases hcurrent with hlevel | hunresolved
  · exact (hsynced.tracks a ha).level (.inl hlevel)
  · exact absurd hrecords hunresolved.ne_empty

end Running

-- A call that keeps a participant on the number, if it was there.
theorem Level.call {request : Request} {choice : Choice} {reply : Option Reply}
    (h : Level addrs next store deleted w) (hcall : w.call addr request choice = some (reply, u))
    (hprepares : request.prepares = none)
    (hhandled : ∀ answer q, (w.node addr).participant.handle request = .ok (answer, q) →
      (addr ∈ addrs → w.coordinator.Tracks next store deleted q) ∧
        ((w.node addr).participant.nextId = next → q.nextId = next)) :
    Level addrs next store deleted u := by
  obtain ⟨hnext, hsynced, hclosed, hall⟩ := h
  have hc := (World.call_touches hcall).coordinator
  have hsynced' := hsynced.call hcall fun haddr answer q hhandle => (hhandled answer q hhandle).1 haddr
  obtain ⟨hother, hnode⟩ := World.call_participant hcall
  refine ⟨by rw [hc]; exact hnext, hsynced', ?_, fun a ha => ?_⟩
  · unfold Closed Empty at *
    rwa [hc]
  rw [hc] at ha
  by_cases heq : a = addr
  · subst heq
    rcases hnode with ⟨hsame, -⟩ | ⟨answer, hhandle, -⟩ | ⟨stage, cmd, hprepares', -⟩
    · rw [hsame]
      exact hall a ha
    · exact (hhandled answer _ hhandle).2 (hall a ha)
    · cases hprepares.symm.trans hprepares'
  · rw [hother a heq]
    exact hall a ha

theorem Level.idle (h : Level addrs next store deleted w) : Idle addrs deleted w := ⟨next, store, h⟩

-- Those that have the number hold the store.
theorem Level.store_eq (h : Level addrs next store deleted w) (haddr : addr ∈ addrs)
    (hcurrent : w.coordinator.Current next (w.node addr).participant) : (w.node addr).participant.store = store :=
  (h.2.1.tracks addr haddr).level hcurrent

theorem Idle.always (h : Idle addrs deleted w) : Always addrs w := by
  obtain ⟨next, store, -, hsynced, -⟩ := h
  exact hsynced.always

theorem Idle.erase (h : Idle addrs deleted w) (addr : Addr) :
    Idle addrs deleted { w with coordinator := { w.coordinator with
      participants := w.coordinator.participants.erase addr } } := by
  obtain ⟨next, store, hnext, hsynced, hclosed, hall⟩ := h
  refine ⟨next, store, hnext, hsynced.erase addr, fun hne => hclosed fun hempty => ?_,
    fun a ha => hall a (Std.ExtTreeSet.mem_of_mem_erase ha)⟩
  apply hne
  rw [hempty]
  rfl

-- The members are current.
theorem Idle.agree (h : Idle addrs deleted w) : w.Agree := by
  obtain ⟨next, store, -, hsynced, -, hall⟩ := h
  have hstore : ∀ addr ∈ w.coordinator.participants, (w.node addr).participant.store = store :=
    fun addr haddr => (hsynced.tracks addr (hsynced.members addr haddr)).level (.inl (hall addr haddr))
  intro addr haddr other hother
  rw [hstore addr haddr, hstore other hother]

theorem exists_member (h : w.coordinator.participants ≠ ∅) : ∃ addr, addr ∈ w.coordinator.participants := by
  obtain ⟨addr, haddr⟩ := List.exists_mem_of_ne_nil w.coordinator.participants.toList fun hnil => h (by simpa using hnil)
  exact ⟨addr, Std.ExtTreeSet.mem_toList.mp haddr⟩

end Replicas

end CloudLabs.Cdb
