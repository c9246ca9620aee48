import CloudLabs.Cdb.Restoration.Passes

namespace CloudLabs.Cdb

open Interaction RecordManager Participant Coordinator Replicas
open Program (Yields)

namespace Restoration

variable {addrs : List Addr} {w u : World} {addr : Addr} {next : UInt32} {store : Store} {m : RecordManager}

variable (value : UInt32) (mode : Mode)

-- While recovery() looks at the participants, those are members that bear the
-- number.
structure Gathering (addrs : List Addr) (next : UInt32) (store : Store) (w : World) : Prop where
  nextId : w.coordinator.nextId = next
  synced : Synced addrs w next store []
  everyone : w.Everyone (·.nextId = next)
  up : ∀ addr ∈ addrs, (w.node addr).alive = true
  fresh : w.coordinator.isRecovered = false → w.coordinator.rManager.file = []

-- What looking at one participant leaves alone.
structure Gathers (w u : World) : Prop where
  isRecovered : u.coordinator.isRecovered = w.coordinator.isRecovered
  rManager : u.coordinator.rManager = w.coordinator.rManager
  node : w.coordinator.isRecovered = true → u.node = w.node
  onward : Onward w u

theorem Gathers.refl (w : World) : Gathers w w := ⟨rfl, rfl, fun _ => rfl, .refl w⟩

theorem Gathers.trans {t : World} (h : Gathers w u) (h' : Gathers u t) : Gathers w t :=
  ⟨h'.isRecovered.trans h.isRecovered, h'.rManager.trans h.rManager,
    fun hrecovered => (h'.node (h.isRecovered.trans hrecovered)).trans (h.node hrecovered), h.onward.trans h'.onward⟩

section Gather

-- A participant that bears the number becomes a member.
theorem Gathering.insert (h : Gathering addrs next store w) (haddr : addr ∈ addrs)
    (hlevel : (w.node addr).participant.nextId = next) :
    Gathering addrs next store { w with coordinator := { w.coordinator with
      participants := w.coordinator.participants.insert addr } } := by
  refine ⟨h.nextId, h.synced.insert haddr, fun a ha => ?_, h.up, h.fresh⟩
  rcases Std.ExtTreeSet.mem_insert.mp ha with heq | ha
  · rw [← Std.LawfulEqCmp.eq_of_compare heq]
    exact hlevel
  · exact h.everyone a ha

-- Nothing has been logged: the participant is told the number.
theorem initParticipant_tells (h : Gathering addrs next store w) (haddr : addr ∈ addrs)
    (hfresh : w.coordinator.isRecovered = false) :
    ∃ u, Yields cdb (responsive value) mode (initParticipant addr) w () u ∧ Gathering addrs next store u ∧
      Gathers w u ∧ addr ∈ u.coordinator.participants := by
  let joined : World := { w with coordinator := { w.coordinator with
    participants := w.coordinator.participants.insert addr } }
  have hup : (joined.node addr).alive = true := h.up addr haddr
  have hask : joined.call addr .NEXT_ID .done = some (some (.uint32 (w.node addr).participant.nextId), joined) :=
    call_of_ask hup rfl rfl
  have hhandle : (joined.node addr).participant.handle (.SET_NEXT_ID w.coordinator.nextId) =
      .ok (.void, { (w.node addr).participant with nextId := w.coordinator.nextId }) := rfl
  obtain ⟨u, hcall, hanswers⟩ := exists_call hup hhandle rfl
  have hc := hanswers.touches.coordinator
  have hstore : (w.node addr).participant.store = store := (h.synced.tracks addr haddr).fresh (h.fresh hfresh)
  have hsynced : Synced addrs u next store [] := by
    refine (h.synced.insert haddr).call hcall fun _ answer q hq => ?_
    obtain ⟨-, rfl⟩ := Prod.mk.inj (Except.ok.inj (hhandle.symm.trans hq))
    exact .of_store hstore h.synced.short
  have honward : Onward joined u := .of_answers hanswers
  have hinsert : Onward w joined := .insert w addr
  refine ⟨u, (modify_yields _).bind ((call_yields hask).bind (get_yields.bind ?_)),
    ⟨by rw [hc]; exact h.nextId, hsynced, fun a ha => ?_, fun a ha => honward.alive a (h.up a ha), ?_⟩,
    ⟨by rw [hc], by rw [hc], fun hrecovered => ?_, hinsert.trans honward⟩, ?_⟩
  · rw [if_pos (by simp [joined, hfresh])]
    exact (call_yields hcall).bind (.ret ())
  · rw [hc] at ha
    by_cases heq : a = addr
    · rw [heq, hanswers.node]
      exact h.nextId
    · rw [hanswers.touches.node a heq]
      rcases Std.ExtTreeSet.mem_insert.mp ha with heq' | ha
      · exact absurd (Std.LawfulEqCmp.eq_of_compare heq').symm heq
      · exact h.everyone a ha
  · rw [hc]
    exact h.fresh
  · rw [hfresh] at hrecovered
    cases hrecovered
  · rw [hc]
    exact Std.ExtTreeSet.mem_insert.mpr (.inl (by simp))

-- The log has a number: the participant stays if it bears it.
theorem initParticipant_compares (h : Gathering addrs next store w) (haddr : addr ∈ addrs)
    (hrecovered : w.coordinator.isRecovered = true) :
    ∃ u, Yields cdb (responsive value) mode (initParticipant addr) w () u ∧ Gathering addrs next store u ∧
      Gathers w u ∧ ((w.node addr).participant.nextId = next → addr ∈ u.coordinator.participants) := by
  let joined : World := { w with coordinator := { w.coordinator with
    participants := w.coordinator.participants.insert addr } }
  have hask : joined.call addr .NEXT_ID .done = some (some (.uint32 (w.node addr).participant.nextId), joined) :=
    call_of_ask (h.up addr haddr) rfl rfl
  have hnot : ¬ (!joined.coordinator.isRecovered) = true := by simp [joined, hrecovered]
  by_cases hlevel : (w.node addr).participant.nextId = next
  · refine ⟨joined, (modify_yields _).bind ((call_yields hask).bind (get_yields.bind ?_)),
      h.insert haddr hlevel, ⟨rfl, rfl, fun _ => rfl, .insert w addr⟩, fun _ => ?_⟩
    · rw [if_neg hnot, if_pos (hlevel.trans h.nextId.symm)]
      exact .ret ()
    · exact Std.ExtTreeSet.mem_insert.mpr (.inl (by simp))
  · -- The record that is looked up is never there.
    have hnone := records_next h.synced
    rw [← h.nextId] at hnone
    have hne : ¬ (w.node addr).participant.nextId = joined.coordinator.nextId := by
      show ¬ _ = w.coordinator.nextId
      rwa [h.nextId]
    have hmembers : ∀ a ∈ w.coordinator.participants, a ∈ (w.coordinator.participants.insert addr).erase addr := by
      intro a ha
      refine Std.ExtTreeSet.mem_erase.mpr ⟨fun heq => ?_, Std.ExtTreeSet.mem_insert.mpr (.inr ha)⟩
      apply hlevel
      rw [Std.LawfulEqCmp.eq_of_compare heq]
      exact h.everyone a ha
    let dropped : World := { joined with coordinator := { joined.coordinator with
      participants := joined.coordinator.participants.erase addr } }
    refine ⟨dropped, (modify_yields _).bind ((call_yields hask).bind (get_yields.bind ?_)),
      ⟨h.nextId, (h.synced.insert haddr).erase addr, fun a ha => ?_, h.up, h.fresh⟩,
      ⟨rfl, rfl, fun _ => rfl, hmembers, fun _ ha => ha, rfl⟩, fun heq => absurd heq hlevel⟩
    · rw [if_neg hnot, if_neg hne, if_neg]
      · exact modify_yields _
      · rintro ⟨-, habort⟩
        cases hnone.symm.trans habort
    · obtain ⟨hne', ha⟩ := Std.ExtTreeSet.mem_erase.mp ha
      rcases Std.ExtTreeSet.mem_insert.mp ha with heq | ha
      · exact absurd heq hne'
      · exact h.everyone a ha

theorem initParticipantList_yields {rest : List Addr} (h : Gathering addrs next store w)
    (hrest : ∀ addr ∈ rest, addr ∈ addrs) :
    ∃ u, Yields cdb (responsive value) mode (initParticipantList rest) w () u ∧ Gathering addrs next store u ∧
      Gathers w u ∧ ∀ addr ∈ rest, w.coordinator.isRecovered = false ∨ (w.node addr).participant.nextId = next →
        addr ∈ u.coordinator.participants := by
  induction rest generalizing w with
  | nil => exact ⟨w, .ret (), h, .refl w, fun addr haddr => absurd haddr (by simp)⟩
  | cons addr rest ih =>
      have haddr := hrest addr List.mem_cons_self
      obtain ⟨v, hinit, hgathering, hgathers, hjoined⟩ : ∃ v, Yields cdb (responsive value) mode
          (initParticipant addr) w () v ∧ Gathering addrs next store v ∧ Gathers w v ∧
          (w.coordinator.isRecovered = false ∨ (w.node addr).participant.nextId = next →
            addr ∈ v.coordinator.participants) := by
        cases hrecovered : w.coordinator.isRecovered with
        | false =>
            obtain ⟨v, hinit, hgathering, hgathers, hjoined⟩ := initParticipant_tells value mode h haddr hrecovered
            exact ⟨v, hinit, hgathering, hgathers, fun _ => hjoined⟩
        | true =>
            obtain ⟨v, hinit, hgathering, hgathers, hjoined⟩ := initParticipant_compares value mode h haddr hrecovered
            exact ⟨v, hinit, hgathering, hgathers, fun hwho => hjoined (hwho.resolve_left (by decide))⟩
      obtain ⟨u, hlist, hgathering', hgathers', hback⟩ :=
        ih hgathering fun other hother => hrest other (List.mem_cons_of_mem _ hother)
      refine ⟨u, hinit.bind hlist, hgathering', hgathers.trans hgathers', fun other hother hwho => ?_⟩
      rcases List.mem_cons.mp hother with rfl | hother
      · exact hgathers'.onward.members other (hjoined hwho)
      · apply hback other hother
        cases hrecovered : w.coordinator.isRecovered with
        | false => exact .inl (hgathers.isRecovered.trans hrecovered)
        | true =>
            right
            rw [hgathers.node hrecovered]
            exact hwho.resolve_left (by simp [hrecovered])

end Gather

section Recovery

-- The process has loaded its log and nothing else has happened.
structure Begun (addrs : List Addr) (m : RecordManager) (store : Store) (w : World) : Prop where
  coordinator : w.coordinator = Coordinator.start addrs m
  recoverable : m.Recoverable m.nextId
  synced : Synced addrs w m.nextId store []
  up : ∀ addr ∈ addrs, (w.node addr).alive = true

-- A number that the log does not give is drawn.
def startNumber (m : RecordManager) : UInt32 := if m.file = [] then value else m.nextId

theorem initNextId_yields (h : Begun addrs m store w) (hdraw : m.nextId = 0 → m.file = []) (hvalue : value ≤ RAND_MAX) :
    ∃ u, Yields cdb (responsive value) mode initNextId w () u ∧ Gathering addrs (startNumber value m) store u ∧
      u.coordinator.rManager = m ∧ (u.coordinator.isRecovered = false ↔ m.file = []) ∧ u.node = w.node ∧ u.applied = w.applied := by
  let loaded : World := { w with coordinator := { w.coordinator with nextId := w.coordinator.rManager.nextId } }
  have hload : Yields cdb (responsive value) mode
      (Coordinator.modify fun c => { c with nextId := c.rManager.nextId }) w () loaded := modify_yields _
  have hmanager : w.coordinator.rManager = m := by rw [h.coordinator]; rfl
  have hempty : w.coordinator.participants = ∅ := by rw [h.coordinator]; rfl
  have hnobody : ∀ u : World, u.coordinator.participants = ∅ → u.Everyone (·.nextId = startNumber value m) := by
    intro u hu addr haddr
    rw [hu] at haddr
    exact absurd haddr Std.ExtTreeSet.not_mem_empty
  by_cases hfile : m.file = []
  · let drawn : World := { loaded with coordinator := { loaded.coordinator with nextId := value, isRecovered := false } }
    have hrand : Yields cdb (responsive value) mode Coordinator.rand loaded value loaded := by
      apply Yields.op
      exact if_pos hvalue
    have hnumber : startNumber value m = value := if_pos hfile
    have hsynced : Synced addrs drawn value store [] :=
      (h.synced.renumber (by rw [hmanager]; exact hfile) value).change rfl h.synced.members rfl rfl
    refine ⟨drawn, hload.bind (get_yields.bind ?_), ⟨hnumber.symm, by rw [hnumber]; exact hsynced,
      hnobody drawn hempty, h.up, fun _ => by rw [← hmanager] at hfile; exact hfile⟩, hmanager,
      ⟨fun _ => hfile, fun _ => rfl⟩, rfl, rfl⟩
    have hzero : loaded.coordinator.nextId = 0 := by
      show w.coordinator.rManager.nextId = 0
      rw [hmanager]
      exact (h.recoverable.of_empty hfile).1
    rw [if_pos hzero]
    exact hrand.bind (modify_yields _)
  · have hnumber : startNumber value m = m.nextId := if_neg hfile
    have hsynced : Synced addrs loaded m.nextId store [] := h.synced.change rfl h.synced.members rfl rfl
    have hrecovered : loaded.coordinator.isRecovered = true := by
      show w.coordinator.isRecovered = true
      rw [h.coordinator]
      rfl
    have hnext : loaded.coordinator.nextId = m.nextId := by
      show w.coordinator.rManager.nextId = _
      rw [hmanager]
    refine ⟨loaded, hload.bind (get_yields.bind ?_), ⟨hnext.trans hnumber.symm, by rw [hnumber]; exact hsynced,
      hnobody loaded hempty, h.up, fun hfresh => ?_⟩, hmanager, ⟨fun hfresh => ?_, fun h => absurd h hfile⟩, rfl, rfl⟩
    · rw [hnext, if_neg fun hzero => hfile (hdraw hzero)]
      exact .ret ()
    · rw [hrecovered] at hfresh
      cases hfresh
    · rw [hrecovered] at hfresh
      cases hfresh

theorem initParticipants_yields (h : Gathering addrs next store w) :
    ∃ u, Yields cdb (responsive value) .alone initParticipants w () u ∧ Gathering addrs next store u ∧ Gathers w u ∧
      ∀ addr ∈ addrs, w.coordinator.isRecovered = false ∨ (w.node addr).participant.nextId = next →
        addr ∈ u.coordinator.participants := by
  obtain ⟨u, hlist, hgathered, hgathers, hback⟩ := initParticipantList_yields value .alone h fun _ haddr => haddr
  have hgather : Yields cdb (responsive value) .alone (do initParticipantList (← Coordinator.get).participantAddrs)
      w () u := by
    refine get_yields.bind ?_
    rw [h.synced.configured]
    exact hlist
  exact ⟨u, hgather.critical_alone, hgathered, hgathers, hback⟩

-- A number of the log is not 0.
theorem Begun.round (h : Begun addrs m store w) (hdraw : m.nextId = 0 → m.file = []) (id : UInt32)
    (hid : m.Opens id RECORD_COMMIT) : id + 1 ≠ 0 := by
  intro hzero
  have hone := h.synced.oneOpen
  rw [h.coordinator] at hone
  have hfile := hdraw ((hone.of_opens hid).1.symm.trans hzero)
  exact hid.ne_empty (h.recoverable.of_empty hfile).2

-- Nobody bears the number, so that nobody has become a member.
theorem Gathering.deserted (h : Gathering addrs next store w) (hresolves : Resolves addrs next store w u)
    (hrecovered : u.coordinator.isRecovered = true)
    (hnobody : ∀ addr ∈ addrs, (w.node addr).participant.nextId ≠ next) (haddr : addr ∈ addrs) :
    ¬ Welcome next u addr := by
  have hnone : w.coordinator.participants = ∅ := by
    by_contra hmembers
    obtain ⟨member, hmember⟩ := exists_member hmembers
    exact hnobody member (h.synced.members member hmember) (h.everyone member hmember)
  intro hwelcome
  rcases hwelcome with hmembers | hfresh | hlevel | hopen
  · exact hmembers (hresolves.participants.trans hnone)
  · rw [hrecovered] at hfresh
    cases hfresh
  · rw [hresolves.nobody hnone] at hlevel
    exact hnobody addr haddr hlevel
  · exact hresolves.decided _ hopen

-- recovery() leaves the members at rest.
theorem recovery_yields (h : Begun addrs m store w) (hdraw : m.nextId = 0 → m.file = []) (hvalue : value ≤ RAND_MAX) :
    ∃ u, Yields cdb (responsive value) .alone recovery w () u ∧ Resting addrs (startNumber value m) store u ∧
      u.applied = w.applied ∧
      (∀ addr ∈ addrs, m.file = [] ∨ (w.node addr).participant.nextId = m.nextId → addr ∈ u.coordinator.participants) ∧
      (m.file ≠ [] → (∀ addr ∈ addrs, (w.node addr).participant.nextId ≠ m.nextId) →
        ∀ addr ∈ addrs, ¬ Welcome (startNumber value m) u addr) := by
  obtain ⟨v, hnumber, hgathering, hmanager, hfresh, hnode, happlied⟩ := initNextId_yields value .alone h hdraw hvalue
  obtain ⟨g, hinit, hgathered, hgathers, hback⟩ := initParticipants_yields value hgathering
  have hround : ∀ id, g.coordinator.rManager.Opens id RECORD_COMMIT → id + 1 ≠ 0 := by
    rw [hgathers.rManager, hmanager]
    exact h.round hdraw
  obtain ⟨u, hresolve, hresolves⟩ := handleUnfinishedRecords_yields value .alone hgathered.nextId hgathered.synced
    (fun addr haddr => .inl (hgathered.everyone addr haddr)) hgathered.up hround
  have hrecovered : u.coordinator.isRecovered = false ↔ m.file = [] := by
    rw [hresolves.isRecovered, hgathers.isRecovered]
    exact hfresh
  have hjoined : ∀ addr ∈ addrs, m.file = [] ∨ (w.node addr).participant.nextId = m.nextId →
      addr ∈ u.coordinator.participants := by
    intro addr haddr hwho
    apply hresolves.onward.members
    apply hback addr haddr
    by_cases hfile : m.file = []
    · exact .inl (hfresh.mpr hfile)
    · right
      rw [hnode, startNumber, if_neg hfile]
      exact hwho.resolve_left hfile
  refine ⟨u, hnumber.bind (hinit.bind hresolve), ⟨hresolves.level,
    fun a ha => hresolves.onward.alive a (hgathered.up a ha), fun hfresh' addr haddr hmember => ?_,
    fun id hid => hround id (hresolves.committed id hid)⟩, ?_, hjoined, fun hfile hnobody addr haddr => ?_⟩
  · exact absurd (hjoined addr haddr (.inl (hrecovered.mp hfresh'))) hmember
  · exact hresolves.onward.applied.trans (hgathers.onward.applied.trans happlied)
  · have hknows : ∀ c : World, ¬ c.coordinator.isRecovered = false → c.coordinator.isRecovered = true :=
      fun c hnot => by simpa using hnot
    have hsame : g.node = w.node :=
      (hgathers.node (hknows v fun heq => hfile (hfresh.mp heq))).trans hnode
    refine hgathered.deserted hresolves (hknows u fun heq => hfile (hrecovered.mp heq)) (fun other hother => ?_) haddr
    rw [hsame, startNumber, if_neg hfile]
    exact hnobody other hother

end Recovery

end Restoration

end CloudLabs.Cdb
