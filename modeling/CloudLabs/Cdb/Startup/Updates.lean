import CloudLabs.Cdb.Startup

namespace CloudLabs.Cdb.Startup

open Interaction Coordinator RecordManager

variable {m : RecordManager} {role : Role} {mode : Mode} {w u : World} {id : UInt32} {status : RecordStatus}

section Effects

theorem resolves_of_passive {effect : Effect} (h : effect.Passive) : effect.resolves = none := by
  cases effect with
  | log status id => exact h.elim
  | call addr request =>
      cases request with
      | COMMIT id => cases h
      | ABORT id => cases h
      | _ => rfl
  | _ => rfl

-- What an effect leaves as it is that does not log.
theorem logged_of_passive {effect : Effect} {choice : Choice} {answer : effect.Answer} (h : effect.Passive)
    (hexec : w.exec effect choice = some (answer, u)) :
    u.logged = w.logged ∧ u.coordinator.rManager = w.coordinator.rManager ∧ u.sent = w.sent := by
  cases effect with
  | log status id => exact h.elim
  | call addr request =>
      have hframe := World.call_frame hexec
      exact ⟨hframe.2.1, by rw [hframe.1], World.call_sent hexec h⟩
  | modify change =>
      cases choice with
      | done => cases hexec; exact ⟨rfl, h _, rfl⟩
      | _ => cases hexec
  | rand =>
      cases choice with
      | draw value =>
          have hdraw : (if value ≤ RAND_MAX then some (value, w) else none) = some (answer, u) := hexec
          split at hdraw
          · cases hdraw; exact ⟨rfl, rfl, rfl⟩
          · cases hdraw
      | _ => cases hexec
  | assertFalse => cases choice <;> cases hexec
  | _ =>
      cases choice with
      | done => cases hexec; exact ⟨rfl, rfl, rfl⟩
      | _ => cases hexec

theorem quiet_of_logged (h : u.logged = w.logged) : (contract m).quiet w u :=
  ⟨fun _ hr => h ▸ hr, fun _ hr => .inl (h ▸ hr)⟩

theorem rely_of_logged (h : u.logged = w.logged) : (contract m).rely role mode w u := by
  have hq : (contract m).quiet w u := quiet_of_logged h
  cases role <;> cases mode
  case worker.outside => exact trivial
  case leader.outside => exact hq.1
  all_goals exact hq

theorem give_of_logged (h : u.logged = w.logged) : (contract m).give role mode w u :=
  ⟨fun _ => quiet_of_logged h, fun _ => (quiet_of_logged (m := m) h).1⟩

-- A program that neither logs nor decides.
theorem passive_triple {α : Type} {program : Code α} {pre : World → Prop} (hprogram : program.Within Effect.Passive)
    (hpre : (contract m).Stable role mode pre) :
    Triple cdb (undisturbed m) (contract m) role mode pre program fun _ => pre := by
  refine Triple.of_within hprogram hpre fun effect heffect w ha hw => ⟨fun _ id hid => ?_, ?_⟩
  · rw [resolves_of_passive heffect] at hid
    cases hid
  · intro choice answer u _ hexec
    obtain ⟨hlogged, hmanager, hsent⟩ := logged_of_passive heffect hexec
    have hu : Fair m u := ha.frame hmanager hlogged fun message hm => .inl (hsent ▸ hm)
    exact ⟨hu, give_of_logged hlogged, hpre w u hw (rely_of_logged hlogged) hu⟩

theorem upkeep_triple {α : Type} {program : Code α} {pre : World → Prop} (hprogram : program.Within Effect.Upkeep)
    (hpre : (contract m).Stable role mode pre) :
    Triple cdb (undisturbed m) (contract m) role mode pre program fun _ => pre :=
  passive_triple (hprogram.mono fun _ => Effect.Upkeep.passive) hpre

end Effects

section Resolving

-- The handlers resolve updates only while they hold the mutex.
def Entitled (role : Role) (mode : Mode) : Prop := mode ≠ .inside → role = .leader

-- The updates that are still to be resolved, each as its record says.
structure Owes (m : RecordManager) (mode : Mode) (rs : List Record) (w : World) : Prop where
  nodup : (rs.map Record.id).Nodup
  agrees : ∀ r ∈ rs, Agrees m w r.status r.id
  left : mode ≠ .inside → ∀ r ∈ rs, r.id ∈ m.records

theorem grown_of_rely (hentitled : Entitled role mode) (hrely : (contract m).rely role mode w u) :
    w.logged ⊆ u.logged := by
  cases role <;> cases mode
  case worker.outside => cases hentitled (by decide)
  case leader.outside => exact hrely
  all_goals exact hrely.1

theorem Agrees.rely (h : Agrees m w status id) (hleft : mode ≠ .inside → id ∈ m.records)
    (hrely : (contract m).rely role mode w u) (hu : Fair m u) : Agrees m u status id := by
  by_cases hmode : mode = .inside
  · exact h.quiet ((Contract.rely_iff_quiet (hmode ▸ Mode.inside_ne_outside)).mp hrely) hu
  · obtain ⟨r, hr⟩ := Option.isSome_iff_exists.mp (Std.ExtTreeMap.mem_iff_isSome_getElem?.mp (hleft hmode))
    exact .of_left hu hr (h.2 r hr)

theorem Owes.stable (rs : List Record) : (contract m).Stable role mode (Owes m mode rs) := by
  intro w u h hrely hu
  exact ⟨h.nodup, fun r hr => (h.agrees r hr).rely (fun hmode => h.left hmode r hr) hrely hu, h.left⟩

theorem Owes.logDone {rs : List Record} (h : Owes m mode rs w)
    (hdone : status = RECORD_COMMIT_DONE ∨ status = RECORD_ABORT_DONE) : Owes m mode rs (w.log status id) := by
  have hcommit : status ≠ RECORD_COMMIT := by rcases hdone with rfl | rfl <;> decide
  have habort : status ≠ RECORD_ABORT := by rcases hdone with rfl | rfl <;> decide
  exact ⟨h.nodup, fun r hr => (h.agrees r hr).log (fun _ hnew => absurd hnew hcommit) fun _ hnew => absurd hnew habort,
    h.left⟩

-- A decision has been logged, and the other records wait.
def Carrying (m : RecordManager) (mode : Mode) (decision : Request) (id : UInt32) (rs : List Record) (w : World) :
    Prop :=
  w.Backed decision ∧ (mode ≠ .inside → id ∈ m.records) ∧ Owes m mode rs w

theorem Carrying.stable (hentitled : Entitled role mode) (decision : Request) (rs : List Record) :
    (contract m).Stable role mode (Carrying m mode decision id rs) :=
  fun w u h hrely hu => ⟨Backed.grow h.1 (grown_of_rely hentitled hrely), h.2.1, Owes.stable rs w u h.2.2 hrely hu⟩

theorem give_of_log (hleft : mode ≠ .inside → id ∈ m.records) :
    (contract m).give role mode w (w.log status id) := by
  have hgrown : w.logged ⊆ (w.log status id).logged := List.subset_cons_self _ _
  refine ⟨fun hmode => ⟨hgrown, fun r hr => ?_⟩, fun _ => hgrown⟩
  rcases List.mem_cons.mp hr with rfl | hr
  · exact .inr (hleft (hmode ▸ Mode.inside_ne_outside.symm))
  · exact .inl hr

-- What follows once a decision has been logged.
theorem carries_triple {α : Type} {program : Code α} {decision : Request} {done : RecordStatus} {rs : List Record}
    (hentitled : Entitled role mode) (hdone : done = RECORD_COMMIT_DONE ∨ done = RECORD_ABORT_DONE)
    (hdecision : ∀ addr id', (Effect.call addr decision).resolves = some id' → id' = id)
    (hprogram : program.Within (Effect.Carries decision done id)) :
    Triple cdb (undisturbed m) (contract m) role mode (Carrying m mode decision id rs) program
      fun _ => Owes m mode rs := by
  have hstable : (contract m).Stable role mode (Carrying m mode decision id rs) := Carrying.stable hentitled decision rs
  refine (Triple.of_within hprogram hstable ?_).post fun _ _ _ h => h.2.2
  intro effect heffect w ha hw
  rcases heffect with hpassive | rfl | ⟨addr, rfl⟩
  · refine ⟨fun _ id hid => ?_, fun choice answer u _ hexec => ?_⟩
    · rw [resolves_of_passive hpassive] at hid
      cases hid
    · obtain ⟨hlogged, hmanager, hsent⟩ := logged_of_passive hpassive hexec
      have hu : Fair m u := ha.frame hmanager hlogged fun message hm => .inl (hsent ▸ hm)
      exact ⟨hu, give_of_logged hlogged, hstable w u hw (rely_of_logged hlogged) hu⟩
  · refine ⟨fun hmode id' hid => ?_, fun choice answer u _ hexec => ?_⟩
    · cases hid
      exact hw.2.1 hmode
    · cases choice with
      | done =>
          cases hexec
          have hu : Fair m (w.log done id) := by
            refine ha.log (fun hne hne' => (hdone.elim hne hne').elim) ?_
            rintro rfl
            exact absurd hdone (by decide)
          exact ⟨hu, give_of_log hw.2.1, hw.1.log, hw.2.1, hw.2.2.logDone hdone⟩
      | _ => cases hexec
  · refine ⟨fun hmode id' hid => ?_, fun choice answer u _ hexec => ?_⟩
    · rw [hdecision addr id' hid]
      exact hw.2.1 hmode
    · obtain ⟨hcoordinator, hlogged, -, -, hsent, -⟩ := World.call_frame hexec
      have hu : Fair m u := by
        refine ha.frame (by rw [hcoordinator]) hlogged fun message hm => ?_
        rcases hsent message hm with hm | rfl
        · exact .inl hm
        · exact .inr hw.1
      exact ⟨hu, give_of_logged hlogged, hstable w u hw (rely_of_logged hlogged) hu⟩

-- The decision itself is logged. The other records are those of other updates.
theorem logDecision_triple {decision : RecordStatus} {request : Request} {rs : List Record}
    (hentitled : Entitled role mode)
    (hdecision : decision = RECORD_COMMIT ∧ request = .COMMIT id ∨ decision = RECORD_ABORT ∧ request = .ABORT id)
    (hother : ∀ r ∈ rs, r.id ≠ id) (hleft : mode ≠ .inside → id ∈ m.records) :
    Triple cdb (undisturbed m) (contract m) role mode (fun w => Agrees m w decision id ∧ Owes m mode rs w)
      (Coordinator.log decision id) fun _ => Carrying m mode request id rs := by
  have hagrees : (contract m).Stable role mode fun w => Agrees m w decision id :=
    fun w u h hrely hu => h.rely hleft hrely hu
  refine Coordinator.log_triple (hagrees.and (Owes.stable rs)) (Carrying.stable hentitled request rs) ?_
  rintro w ha ⟨hw, howes⟩
  refine ⟨fun hmode id' hid => ?_, fun _ => ⟨?_, give_of_log hleft, ?_, hleft, ?_⟩⟩
  · cases hid
    exact hleft hmode
  · refine ha.log (fun _ _ => hw) ?_
    rintro rfl
    exact absurd hdecision (by simp [RECORD_UNRESOLVED, RECORD_COMMIT, RECORD_ABORT])
  · have hdecided : (w.log decision id).Decided decision id := World.log_decided.mpr (.inl ⟨rfl, rfl⟩)
    rcases hdecision with ⟨rfl, rfl⟩ | ⟨rfl, rfl⟩
    · exact hdecided
    · exact hdecided
  · refine ⟨howes.nodup, fun r hr => ?_, howes.left⟩
    have hne := hother r hr
    exact (howes.agrees r hr).log (fun heq => absurd heq.symm hne) fun heq => absurd heq.symm hne

theorem commitDbRequest_triple {rs : List Record} (hentitled : Entitled role mode) (client : Option Client)
    (dead : Bool) (hother : ∀ r ∈ rs, r.id ≠ id) (hleft : mode ≠ .inside → id ∈ m.records) :
    Triple cdb (undisturbed m) (contract m) role mode (fun w => Agrees m w RECORD_COMMIT id ∧ Owes m mode rs w)
      (commitDbRequest client id dead) fun _ => Owes m mode rs := by
  rw [commitDbRequest_eq]
  refine Triple.bind (logDecision_triple hentitled (.inl ⟨rfl, rfl⟩) hother hleft) fun _ => ?_
  refine carries_triple hentitled (.inl rfl) (fun addr id' hid => ?_) (commitDbRequest_carries client id dead)
  exact (Option.some.inj hid).symm

theorem abortDbRequest_triple {rs : List Record} (hentitled : Entitled role mode) (client : Option Client)
    (dead : Bool) (hother : ∀ r ∈ rs, r.id ≠ id) (hleft : mode ≠ .inside → id ∈ m.records) :
    Triple cdb (undisturbed m) (contract m) role mode (fun w => Agrees m w RECORD_ABORT id ∧ Owes m mode rs w)
      (abortDbRequest client id dead) fun _ => Owes m mode rs := by
  rw [abortDbRequest_eq]
  refine Triple.bind (logDecision_triple hentitled (.inr ⟨rfl, rfl⟩) hother hleft) fun _ => ?_
  refine carries_triple hentitled (.inr rfl) (fun addr id' hid => ?_) (abortDbRequest_carries client id dead)
  exact (Option.some.inj hid).symm

-- One record of the copy.
theorem resolveRecord_triple (hentitled : Entitled role mode) (r : Record) (rest : List Record) :
    Triple cdb (undisturbed m) (contract m) role mode (Owes m mode (r :: rest)) (resolveRecord r)
      fun _ => Owes m mode rest := by
  refine Triple.of_forall fun s hs => ?_
  have hleft : mode ≠ .inside → r.id ∈ m.records := fun hmode => hs.left hmode r List.mem_cons_self
  have hother : ∀ other ∈ rest, other.id ≠ r.id := by
    intro other hother heq
    apply (List.nodup_cons.mp hs.nodup).1
    exact heq ▸ List.mem_map_of_mem hother
  have hret : Triple cdb (undisturbed m) (contract m) role mode (Owes m mode rest) (.ret () : Code Unit)
      fun _ => Owes m mode rest := Triple.ret (Owes.stable rest) fun _ _ h => h
  have hsplit : ∀ {w status}, (r.status = RECORD_COMMIT ↔ status = RECORD_COMMIT) → Owes m mode (r :: rest) w →
      Agrees m w status r.id ∧ Owes m mode rest w := fun hstatus hw =>
    ⟨(hw.agrees r List.mem_cons_self).of_eq hstatus, (List.nodup_cons.mp hw.nodup).2,
      fun other hother => hw.agrees other (List.mem_cons_of_mem _ hother),
      fun hmode other hother => hw.left hmode other (List.mem_cons_of_mem _ hother)⟩
  unfold resolveRecord
  split
  · rename_i habort
    refine Triple.bind ((abortDbRequest_triple hentitled none false hother hleft).pre fun w _ hw => ?_) fun _ => hret
    apply hsplit ?_ hw
    rcases habort with heq | heq
    · rw [heq]
      decide
    · rw [heq]
  split
  · rename_i hcommit
    refine Triple.bind ((commitDbRequest_triple hentitled none false hother hleft).pre fun w _ hw => ?_) fun _ => hret
    apply hsplit ?_ hw
    rw [hcommit]
  · have hfail : (assertFalse : Code Unit).Within Effect.Upkeep := ⟨trivial, fun _ => trivial⟩
    exact (upkeep_triple hfail (Owes.stable (r :: rest))).post fun _ _ _ hw => (hsplit Iff.rfl hw).2

theorem resolveRecords_triple (hentitled : Entitled role mode) (rs : List Record) :
    Triple cdb (undisturbed m) (contract m) role mode (Owes m mode rs) (resolveRecords rs) fun _ _ => True := by
  induction rs with
  | nil => exact Triple.ret (Owes.stable []) fun _ _ _ => trivial
  | cons r rest ih => exact Triple.bind (resolveRecord_triple hentitled r rest) fun _ => ih

-- records_ holds one record of each update.
theorem nodup_values {records : IdMap Record} (hid : ∀ (id : UInt32) (r : Record), records[id]? = some r → r.id = id) :
    (records.values.map Record.id).Nodup := by
  have hkeys : records.values.map Record.id = records.toList.map Prod.fst := by
    rw [IdMap.values_eq, List.map_map]
    refine List.map_congr_left fun entry hentry => ?_
    exact hid entry.1 entry.2 (Std.ExtTreeMap.mem_toList_iff_getElem?_eq_some.mp hentry)
  rw [hkeys, Std.ExtTreeMap.map_fst_toList_eq_keys]
  exact Std.ExtTreeMap.nodup_keys

-- Of what recovery() copies without the mutex, this run has logged nothing.
theorem handleUnfinishedRecords_triple (hentitled : Entitled role mode) :
    Triple cdb (undisturbed m) (contract m) role mode (fun _ => True) handleUnfinishedRecords fun _ _ => True := by
  refine Triple.bind (Coordinator.copyRecords_triple (.const _) (fun rs => Owes.stable rs) fun w ha _ => ?_)
    fun rs => resolveRecords_triple hentitled rs
  refine ⟨fun _ id hid => ?_, fun hT => ⟨give_of_logged rfl, ?_, fun r hr => ?_, fun hmode r hr => ?_⟩⟩
  · cases hid
  · exact nodup_values fun id r hr => (ha.opened id r hr).1
  · obtain ⟨id, hr⟩ := IdMap.mem_values.mp hr
    obtain ⟨rfl, hagrees⟩ := ha.opened id r hr
    exact hagrees
  · obtain ⟨id, hr⟩ := IdMap.mem_values.mp hr
    rcases ha.origin id r hr with hleft | hlogged
    · rw [(ha.opened id r hr).1, Std.ExtTreeMap.mem_iff_isSome_getElem?, hleft]
      rfl
    · exact absurd hlogged (hT hmode id r hr)

end Resolving

end CloudLabs.Cdb.Startup
