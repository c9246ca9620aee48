import CloudLabs.Cdb.Restoration.Rejoining

namespace CloudLabs.Cdb

open Interaction RecordManager Coordinator Replicas
open Program (Yields)

namespace Restoration

variable {addrs : List Addr} {w u t : World} {next : UInt32} {store : Store}

variable (value : UInt32)

section Lists

theorem ne_empty_of_mem {addr : Addr} (h : addr ∈ w.coordinator.participants) : w.coordinator.participants ≠ ∅ := by
  intro hempty
  rw [hempty] at h
  exact Std.ExtTreeSet.not_mem_empty h

-- One pass takes back everybody who is welcome when it begins.
theorem heartbeatList_yields {rest : List Addr} (h : Resting addrs next store w) (hrest : ∀ addr ∈ rest, addr ∈ addrs) :
    ∃ u, Yields cdb (responsive value) .outside (heartbeatList rest) w () u ∧ Resting addrs next store u ∧
      Onward w u ∧ ∀ addr ∈ rest, Welcome next w addr → addr ∈ u.coordinator.participants := by
  induction rest generalizing w with
  | nil => exact ⟨w, .ret (), h, .refl w, fun addr haddr => absurd haddr (by simp)⟩
  | cons addr rest ih =>
      have haddr := hrest addr List.mem_cons_self
      have hrest' : ∀ other ∈ rest, other ∈ addrs := fun other hother => hrest other (List.mem_cons_of_mem _ hother)
      by_cases hwelcome : Welcome next w addr
      · obtain ⟨v, hturn, hresting, hjoined, honward⟩ := heartbeatParticipant_yields value h haddr hwelcome
        obtain ⟨u, hlist, hresting', honward', hback⟩ := ih hresting hrest'
        refine ⟨u, hturn.bind hlist, hresting', honward.trans honward', fun other hother _ => ?_⟩
        rcases List.mem_cons.mp hother with rfl | hother
        · exact honward'.members other hjoined
        · -- Somebody is a member by now.
          exact hback other hother (.inl (ne_empty_of_mem hjoined))
      · obtain ⟨u, hlist, hresting, honward, hback⟩ := ih h hrest'
        refine ⟨u, (heartbeatParticipant_refuses value h haddr hwelcome).bind hlist, hresting, honward,
          fun other hother hother' => ?_⟩
        rcases List.mem_cons.mp hother with rfl | hother
        · exact absurd hother' hwelcome
        · exact hback other hother hother'

theorem heartbeatList_refuses {rest : List Addr} (h : Resting addrs next store w)
    (hrest : ∀ addr ∈ rest, addr ∈ addrs) (hnobody : ∀ addr ∈ rest, ¬ Welcome next w addr) :
    Yields cdb (responsive value) .outside (heartbeatList rest) w () w := by
  induction rest with
  | nil => exact .ret ()
  | cons addr rest ih =>
      have hturn := heartbeatParticipant_refuses value h (hrest addr List.mem_cons_self)
        (hnobody addr List.mem_cons_self)
      exact hturn.bind (ih (fun other hother => hrest other (List.mem_cons_of_mem _ hother))
        fun other hother => hnobody other (List.mem_cons_of_mem _ hother))

end Lists

section Passes

theorem pass_yields (h : Resting addrs next store w) :
    ∃ u, Yields cdb (responsive value) .outside (heartbeatList w.coordinator.participantAddrs) w () u ∧
      Resting addrs next store u ∧ Onward w u ∧
      ∀ addr ∈ addrs, Welcome next w addr → addr ∈ u.coordinator.participants := by
  rw [h.level.2.1.configured]
  exact heartbeatList_yields value h fun _ haddr => haddr

-- As long as somebody is a member, one pass is enough.
theorem heartbeatParticipants_yields (passes : Nat) (h : Resting addrs next store w)
    (hmembers : w.coordinator.participants ≠ ∅) :
    ∃ u, Yields cdb (responsive value) .outside (heartbeatParticipants passes) w () u ∧
      Resting addrs next store u ∧ Onward w u ∧ (passes ≠ 0 → ∀ addr ∈ addrs, addr ∈ u.coordinator.participants) := by
  induction passes generalizing w with
  | zero => exact ⟨w, .ret (), h, .refl w, fun hzero => absurd rfl hzero⟩
  | succ passes ih =>
      obtain ⟨v, hpass, hresting, honward, hback⟩ := pass_yields value h
      obtain ⟨addr, haddr⟩ := exists_member hmembers
      obtain ⟨u, hpasses, hresting', honward', -⟩ := ih hresting (ne_empty_of_mem (honward.members addr haddr))
      exact ⟨u, get_yields.bind (hpass.bind hpasses), hresting', honward.trans honward',
        fun _ other hother => honward'.members other (hback other hother (.inl hmembers))⟩

-- The first pass takes somebody back, and the second takes all others.
theorem allBack_yields (h : Resting addrs next store w) (hwelcome : ∃ addr ∈ addrs, Welcome next w addr) :
    ∃ u, Yields cdb (responsive value) .outside (heartbeatParticipants addrs.length) w () u ∧
      Resting addrs next store u ∧ Onward w u ∧ ∀ addr ∈ addrs, addr ∈ u.coordinator.participants := by
  obtain ⟨addr, haddr, hfirst⟩ := hwelcome
  obtain ⟨v, hpass, hresting, honward, hback⟩ := pass_yields value h
  have hjoined := hback addr haddr hfirst
  obtain ⟨u, hpasses, hresting', honward', hall⟩ :=
    heartbeatParticipants_yields value (addrs.length - 1) hresting (ne_empty_of_mem hjoined)
  have hlength : addrs.length = addrs.length - 1 + 1 := by
    have hpos := List.length_pos_of_mem haddr
    omega
  refine ⟨u, ?_, hresting', honward.trans honward', fun other hother => ?_⟩
  · rw [hlength]
    exact get_yields.bind (hpass.bind hpasses)
  · by_cases hone : addrs.length - 1 = 0
    · -- There is only one.
      obtain ⟨only, honly⟩ := List.length_eq_one_iff.mp (by omega : addrs.length = 1)
      rw [honly, List.mem_singleton] at haddr hother
      rw [hother, ← haddr]
      exact honward'.members addr hjoined
    · exact hall hone other hother

theorem heartbeatParticipants_refuses (passes : Nat) (h : Resting addrs next store w)
    (hnobody : ∀ addr ∈ addrs, ¬ Welcome next w addr) :
    Yields cdb (responsive value) .outside (heartbeatParticipants passes) w () w := by
  induction passes with
  | zero => exact .ret ()
  | succ passes ih =>
      have hpass : Yields cdb (responsive value) .outside (heartbeatList w.coordinator.participantAddrs) w () w := by
        rw [h.level.2.1.configured]
        exact heartbeatList_refuses value h (fun _ haddr => haddr) hnobody
      exact get_yields.bind (hpass.bind ih)

end Passes

-- What holds when all are back.
theorem Resting.restored (h : Resting addrs next store t) (hconfigured : w.coordinator.participantAddrs = addrs)
    (hsome : addrs ≠ []) (hback : ∀ addr ∈ addrs, addr ∈ t.coordinator.participants)
    (happlied : t.applied = w.applied)
    (hcommitted : ∀ id, w.coordinator.rManager.Opens id RECORD_COMMIT →
      ∃ source ∈ addrs, w.Carried id source ∧ (w.node source).participant.store = store)
    (haborted : ∀ id status, w.coordinator.rManager.Opens id status → status ≠ RECORD_COMMIT →
      ∀ addr, (addr, id) ∉ w.applied) : w.Restored t := by
  have hlevel : ∀ addr ∈ addrs, (t.node addr).participant.nextId = next :=
    fun addr haddr => h.level.2.2.2 addr (hback addr haddr)
  obtain ⟨addr, haddr⟩ := List.exists_mem_of_ne_nil addrs hsome
  refine ⟨by rwa [hconfigured], fun other hother => ?_, h.level.2.2.1 (ne_empty_of_mem (hback addr haddr)),
    fun id hid => ?_, fun id status hid hstatus other _ => ?_⟩
  · rw [hconfigured] at hother
    rw [h.level.1]
    exact hlevel other hother
  · obtain ⟨source, hsource, hcarried, hstore⟩ := hcommitted id hid
    rw [hconfigured]
    refine ⟨source, hsource, hcarried, fun other hother => ?_⟩
    rw [hstore]
    exact h.level.store_eq hother (.inl (hlevel other hother))
  · rw [happlied]
    exact haborted id status hid hstatus other

end Restoration

end CloudLabs.Cdb
