import CloudLabs.Cdb.Pending

namespace CloudLabs.Cdb

open Interaction RecordManager Participant

namespace Participant

variable {p q : Participant} {id : UInt32}

-- A participant that starts again goes on with what it had.
theorem restart_keeps (hdisk : ∀ m, RecordManager.load p.rManager.file p.rManager.cmdFile = .ok m → p.OnDisk m)
    (h : p.restart = .ok q) : q.nextId = p.nextId ∧ q.dbRequests = p.dbRequests := by
  obtain ⟨m, hload, hrecovery⟩ := ok_of_bind h
  obtain ⟨hnext, hrecords, hnone⟩ := hdisk m hload
  obtain ⟨⟨nextId, dbRequests⟩, hread, hq⟩ := ok_of_bind hrecovery
  obtain rfl := (Except.ok.inj hq).symm
  rw [hrecords] at hread
  cases hread
  exact ⟨hnext, hnone.symm⟩

theorem Orderly.canAbort (h : p.Orderly) (id : UInt32) : p.CanAbort id := by
  intro hid
  rcases h with hnone | ⟨cmd, hpending, hcmd⟩
  · exact .inl hnone
  · exact .inr ⟨cmd, hpending, hcmd.trans hid⟩

theorem CanCommit.heeds (h : p.CanCommit id) : p.Heeds (.COMMIT id) := by
  refine ⟨h, fun fault hfault => ?_⟩
  unfold commit at hfault
  split at hfault
  · cases hfault
  rename_i hseen
  split at hfault
  · cases hfault
    exact ⟨by simp, by simp, by simp⟩
  rename_i hahead
  -- The participant is at the update, so that its command waits.
  obtain ⟨cmd, hpending, hid⟩ := h (by grind)
  simp only [hpending] at hfault
  split at hfault
  · grind
  cases cmd with
  | set cmd => cases hfault
  | del cmd =>
      simp only [dispatch, pure_eq_ok, ok_bind] at hfault
      cases hfault
  | get cmd =>
      cases hfault
      exact ⟨by simp, by simp, by simp⟩

theorem CanAbort.heeds (h : p.CanAbort id) : p.Heeds (.ABORT id) := by
  refine ⟨h, fun cmd hmem hgone => ?_⟩
  by_cases hid : p.nextId = id
  · rcases h hid with hnone | ⟨cmd', hpending, hcmd⟩
    · rw [hnone] at hmem
      cases hmem
    · rw [hpending, List.mem_singleton] at hmem
      rw [hmem, Option.map_some, hcmd]
  · simp only [abort, if_pos hid] at hgone
    exact absurd hmem hgone

end Participant

namespace Pending

variable {addrs : List Addr} {w u : World} {next id : UInt32} {status : RecordStatus} {addr : Addr}
  {p q : Participant} {c c' : Coordinator}

section Holds

theorem Holds.of_clear (h : p.dbRequests = []) : Holds c next p := ⟨.inl h, fun _ => h, fun _ => h⟩

-- Only whether anything is logged matters.
theorem Holds.frame (h : Holds c next p) (hfile : c'.rManager.file = [] → c.rManager.file = []) :
    Holds c' next p := ⟨h.orderly, h.level, fun hempty => h.fresh (hfile hempty)⟩

theorem commit_clears (hcan : p.CanCommit id) (hholds : Holds c (id + 1) p) (hnear : Near id p) {ret : Bytes}
    (h : p.commit id = .ok (ret, q)) : q.nextId = id + 1 ∧ q.dbRequests = [] := by
  rcases commit_ok h with ⟨hlt, -, rfl⟩ | ⟨hid, cmd, rest, hpending, -, -, hnext, hrest⟩
  · have hnext : q.nextId = id + 1 := hnear.resolve_left fun heq => by simp [heq] at hlt
    exact ⟨hnext, hholds.level hnext⟩
  · obtain ⟨cmd', hpending', -⟩ := hcan hid.symm
    rw [hpending'] at hpending
    cases hpending
    exact ⟨hnext, hrest⟩

theorem abort_clears (hholds : Holds c (id + 1) p) (hnear : Near id p) :
    (p.abort id).2.nextId = id + 1 ∧ (p.abort id).2.dbRequests = [] := by
  rcases hnear with hid | hnext
  · obtain ⟨hnext, hrequests⟩ := abort_of_eq hid
    refine ⟨hnext, hrequests.trans ?_⟩
    rcases hholds.orderly with hnone | ⟨cmd, hpending, -⟩
    · rw [hnone, List.tail_nil]
    · rw [hpending, List.tail_cons]
  · have hnone := hholds.level hnext
    by_cases hlt : id < p.nextId
    · obtain ⟨hsame, hrequests⟩ := abort_of_lt hlt
      exact ⟨hsame.trans hnext, hrequests.trans hnone⟩
    · have hgt : p.nextId < id := by
        rw [hnext] at hlt ⊢
        grind
      obtain ⟨hsame, hrequests⟩ := abort_of_gt hgt
      exact ⟨hsame, hrequests.trans hnone⟩

end Holds

namespace Sound

theorem always (h : Sound addrs w next) : Always addrs w := ⟨next, h⟩

theorem holds_member (h : Sound addrs w next) (haddr : addr ∈ w.coordinator.participants) :
    Holds w.coordinator next (w.node addr).participant := h.holds addr (h.members addr haddr)

-- A call changes one participant only.
theorem call {request : Request} {choice : Choice} {reply : Option Reply} (h : Sound addrs w next)
    (hcall : w.call addr request choice = some (reply, u))
    (hhandled : addr ∈ addrs → ∀ answer q, (w.node addr).participant.handle request = .ok (answer, q) →
      Holds w.coordinator next q) : Sound addrs u next := by
  have hc := (World.call_touches hcall).coordinator
  refine ⟨by rw [hc]; exact h.configured, by rw [hc]; exact h.members, by rw [hc]; exact h.recoverable,
    by rw [hc]; exact h.oneOpen, fun a ha => ?_⟩
  rw [hc]
  have hold := h.holds a ha
  rcases World.participant_cases hcall a with hsame | ⟨rfl, ⟨answer, hhandle⟩ | ⟨stage, cmd, -, hrefused⟩⟩
  · rw [hsame]
    exact hold
  · exact hhandled ha answer _ hhandle
  · obtain ⟨-, hnext, hrequests⟩ := prepareRefused_keeps (w.node a).participant stage cmd
    rw [hrefused]
    exact Withstands.keep (r := Alike) hold ⟨hnext, hrequests⟩

-- A change of the coordinator that leaves its log alone.
theorem change (h : Sound addrs w next) (hconfigured : c.participantAddrs = w.coordinator.participantAddrs)
    (hmembers : ∀ a ∈ c.participants, a ∈ addrs) (hmanager : c.rManager = w.coordinator.rManager) :
    Sound addrs { w with coordinator := c } next := by
  refine ⟨hconfigured.trans h.configured, hmembers, hmanager ▸ h.recoverable, hmanager ▸ h.oneOpen, fun a ha => ?_⟩
  exact (h.holds a ha).frame fun hempty => by rwa [← hmanager]

theorem erase (h : Sound addrs w next) (addr : Addr) :
    Sound addrs { w with coordinator := { w.coordinator with
      participants := w.coordinator.participants.erase addr } } next :=
  h.change rfl (fun a ha => h.members a (Std.ExtTreeSet.mem_of_mem_erase ha)) rfl

theorem insert (h : Sound addrs w next) (haddr : addr ∈ addrs) :
    Sound addrs { w with coordinator := { w.coordinator with
      participants := w.coordinator.participants.insert addr } } next := by
  refine h.change rfl (fun a ha => ?_) rfl
  rcases Std.ExtTreeSet.mem_insert.mp ha with heq | ha
  · rw [← Std.LawfulEqCmp.eq_of_compare heq]
    exact haddr
  · exact h.members a ha

-- The log goes on with the number that the coordinator has.
theorem log (h : Sound addrs w next) (hnext : w.coordinator.nextId = id + 1)
    (hopen : (w.log status id).coordinator.rManager.OneOpen (id + 1))
    (hlevel : ∀ a ∈ addrs, (w.node a).participant.nextId = id + 1 → (w.node a).participant.dbRequests = []) :
    Sound addrs (w.log status id) (id + 1) := by
  obtain ⟨last, hrecoverable, -⟩ := h.recoverable
  refine ⟨h.configured, h.members, ⟨id + 1, ?_, fun _ => rfl⟩, hopen, fun a ha => ?_⟩
  · rw [← hnext]
    exact hrecoverable.log _
  · exact ⟨(h.holds a ha).orderly, hlevel a ha, fun hempty => absurd hempty (log_file_ne_nil _ _)⟩

-- What waits at a member that is as far as the coordinator, or one update behind.
theorem waits (h : Sound addrs w next) (hnext : w.coordinator.nextId = next)
    (hall : w.Everyone fun p => p.nextId = next ∨ p.nextId + 1 = next) : w.Waits := by
  intro addr haddr
  have hholds := h.holds_member haddr
  rcases hall addr haddr with hlevel | hbehind
  · exact .inl (hholds.level hlevel)
  · rcases hholds.orderly with hnone | ⟨cmd, hpending, hid⟩
    · exact .inl hnone
    · exact .inr ⟨cmd, hpending, hid, by rw [hid, hbehind, hnext]⟩

end Sound

namespace Running

theorem always (h : Running addrs id status w) : Always addrs w := h.2.1.always

theorem waits (h : Running addrs id status w) : w.Waits := by
  obtain ⟨hnext, hsound, -, hnear⟩ := h
  refine hsound.waits hnext fun addr haddr => ?_
  rcases hnear addr haddr with hid | hlevel
  · exact .inr (by rw [hid])
  · exact .inl hlevel

theorem file_ne_nil (h : Running addrs id status w) : w.coordinator.rManager.file ≠ [] := by
  intro hempty
  obtain ⟨last, hrecoverable, -⟩ := h.2.1.recoverable
  exact h.2.2.1.ne_empty (hrecoverable.of_empty hempty).2

theorem call {request : Request} {choice : Choice} {reply : Option Reply} (h : Running addrs id status w)
    (hcall : w.call addr request choice = some (reply, u))
    (hhandled : ∀ answer q, (w.node addr).participant.handle request = .ok (answer, q) →
      Near id q ∧ Holds w.coordinator (id + 1) q) : Running addrs id status u := by
  obtain ⟨hnext, hsound, hopens, hnear⟩ := h
  have hc := (World.call_touches hcall).coordinator
  refine ⟨by rw [hc]; exact hnext, hsound.call hcall fun _ answer q hq => (hhandled answer q hq).2,
    by rw [hc]; exact hopens, fun a ha => ?_⟩
  rw [hc] at ha
  rcases World.participant_cases hcall a with hsame | ⟨rfl, ⟨answer, hhandle⟩ | ⟨stage, cmd, -, hrefused⟩⟩
  · rw [hsame]
    exact hnear a ha
  · exact (hhandled answer _ hhandle).1
  · obtain ⟨-, hsame, hrequests⟩ := prepareRefused_keeps (w.node a).participant stage cmd
    rw [hrefused]
    exact Withstands.keep (r := Alike) (hnear a ha) ⟨hsame, hrequests⟩

theorem erase (h : Running addrs id status w) (addr : Addr) :
    Running addrs id status { w with coordinator := { w.coordinator with
      participants := w.coordinator.participants.erase addr } } :=
  ⟨h.1, h.2.1.erase addr, h.2.2.1, fun a ha => h.2.2.2 a (Std.ExtTreeSet.mem_of_mem_erase ha)⟩

-- The update is decided, or its decision is logged once more.
theorem logDecision (h : Running addrs id status w) {decision : RecordStatus}
    (hdecision : decision = RECORD_COMMIT ∨ decision = RECORD_ABORT) :
    Running addrs id decision (w.log decision id) := by
  obtain ⟨hnext, hsound, hopen, hnear⟩ := h
  have hdone : (⟨decision, id, w.coordinator.nextId⟩ : Record).done = false := by
    rcases hdecision with rfl | rfl <;> rfl
  have hopens : (w.log decision id).coordinator.rManager.Opens id decision := hopen.log rfl hdone
  have hone : (w.log decision id).coordinator.rManager.OneOpen (id + 1) := .inr ⟨id, _, hopens, rfl, .inr hdecision⟩
  exact ⟨hnext, hsound.log hnext hone fun a ha => (hsound.holds a ha).level, hopens, hnear⟩

-- Nobody is left to carry the decision out.
theorem idle_of_lost (h : Running addrs id status w) (hempty : w.coordinator.participants = ∅) : Idle addrs w := by
  refine ⟨id + 1, h.1, h.2.1, fun hne => absurd hempty hne, fun a ha => ?_⟩
  rw [hempty] at ha
  exact absurd ha Std.ExtTreeSet.not_mem_empty

-- Everybody who is left has carried it out.
theorem idle_of_done (h : Running addrs id status w) {done : RecordStatus}
    (hdone : done = RECORD_COMMIT_DONE ∨ done = RECORD_ABORT_DONE) (hall : w.Everyone (·.nextId = id + 1)) :
    Idle addrs (w.log done id) := by
  obtain ⟨hnext, hsound, hopen, -⟩ := h
  have hrecords : (w.log done id).coordinator.rManager.records = ∅ :=
    hopen.log_done rfl (by rcases hdone with rfl | rfl <;> rfl)
  exact ⟨id + 1, hnext, hsound.log hnext (.inl hrecords) fun a ha => (hsound.holds a ha).level,
    fun _ => hrecords, hall⟩

end Running

namespace Idle

theorem always (h : Idle addrs w) : Always addrs w := by
  obtain ⟨next, -, hsound, -⟩ := h
  exact hsound.always

theorem waits (h : Idle addrs w) : w.Waits := by
  obtain ⟨next, hnext, hsound, -, hall⟩ := h
  exact hsound.waits hnext (hall.mono fun _ => .inl)

theorem clear (h : Idle addrs w) : w.Clear := by
  obtain ⟨next, -, hsound, -, hall⟩ := h
  exact fun addr haddr => (hsound.holds_member haddr).level (hall addr haddr)

theorem change (h : Idle addrs w) (hconfigured : c.participantAddrs = w.coordinator.participantAddrs)
    (hnext : c.nextId = w.coordinator.nextId) (hmembers : ∀ a ∈ c.participants, a ∈ w.coordinator.participants)
    (hmanager : c.rManager = w.coordinator.rManager) : Idle addrs { w with coordinator := c } := by
  obtain ⟨next, hnumber, hsound, hclosed, hall⟩ := h
  refine ⟨next, hnext.trans hnumber, hsound.change hconfigured (fun a ha => hsound.members a (hmembers a ha)) hmanager,
    fun hne => ?_, fun a ha => hall a (hmembers a ha)⟩
  unfold Empty
  rw [hmanager]
  refine hclosed fun hempty => hne ?_
  apply Std.ExtTreeSet.ext_mem
  intro a
  refine ⟨fun ha => ?_, fun ha => absurd ha Std.ExtTreeSet.not_mem_empty⟩
  rw [← hempty]
  exact hmembers a ha

theorem erase (h : Idle addrs w) (addr : Addr) :
    Idle addrs { w with coordinator := { w.coordinator with
      participants := w.coordinator.participants.erase addr } } :=
  h.change rfl rfl (fun _ ha => Std.ExtTreeSet.mem_of_mem_erase ha) rfl

-- A call that leaves the participants at their numbers, with nothing more to wait.
theorem call {request : Request} {choice : Choice} {reply : Option Reply} (h : Idle addrs w)
    (hcall : w.call addr request choice = some (reply, u))
    (hhandled : ∀ answer q, (w.node addr).participant.handle request = .ok (answer, q) →
      (q.dbRequests = (w.node addr).participant.dbRequests ∨ q.dbRequests = []) ∧
        (q.nextId = (w.node addr).participant.nextId ∨ q.nextId = w.coordinator.nextId ∧ q.dbRequests = [])) :
    Idle addrs u := by
  obtain ⟨next, hnext, hsound, hclosed, hall⟩ := h
  have hc := (World.call_touches hcall).coordinator
  refine ⟨next, by rw [hc]; exact hnext, hsound.call hcall fun haddr answer q hq => ?_, ?_, fun a ha => ?_⟩
  · obtain ⟨hrequests, hnumber⟩ := hhandled answer q hq
    rcases hnumber with hsame | ⟨-, hnone⟩
    · rcases hrequests with hkept | hnone
      · exact Withstands.keep (r := Alike) (hsound.holds addr haddr) ⟨hsame, hkept⟩
      · exact .of_clear hnone
    · exact .of_clear hnone
  · unfold Empty
    rw [hc]
    exact hclosed
  rw [hc] at ha
  rcases World.participant_cases hcall a with hsame | ⟨rfl, ⟨answer, hhandle⟩ | ⟨stage, cmd, -, hrefused⟩⟩
  · rw [hsame]
    exact hall a ha
  · rcases (hhandled answer _ hhandle).2 with hsame | ⟨hnumber, -⟩
    · exact hsame.trans (hall a ha)
    · exact hnumber.trans hnext
  · rw [hrefused]
    exact (prepareRefused_keeps (w.node a).participant stage cmd).2.1.trans (hall a ha)

end Idle

end Pending

end CloudLabs.Cdb
