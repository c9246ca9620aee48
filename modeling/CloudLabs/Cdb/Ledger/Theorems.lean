import CloudLabs.Cdb.Coordinator.Rules
import CloudLabs.Cdb.Ledger
import CloudLabs.Cdb.System.Lemmas
import CloudLabs.Interaction.Contract.Theorems

namespace CloudLabs.Cdb

open Interaction RecordManager

namespace World

variable {w u : World} {last id : UInt32} {status : RecordStatus}

theorem Sound.frame (h : w.Sound last) (hmanager : ∃ nextId cmds,
      u.coordinator.rManager = { w.coordinator.rManager with nextId, cmds })
    (hlogged : u.logged = w.logged) (hrefused : ∀ id ∈ u.refused, id ∈ w.refused ∨
      w.Decided RECORD_ABORT id ∨ w.coordinator.rManager.Opens id RECORD_UNRESOLVED)
    (hsent : ∀ message ∈ u.sent, message ∈ w.sent ∨ w.Backed message.2)
    (hinFlight : ∀ message ∈ u.inFlight, message ∈ w.inFlight ∨ w.Backed message.2)
    (happlied : ∀ entry ∈ u.applied, entry ∈ w.applied ∨
      (w.issued < 2 ^ 32 → w.Decided RECORD_COMMIT entry.2)) :
    u.Sound last := by
  have hdecided : u.Decided = w.Decided := by
    funext status id
    simp only [Decided, hlogged]
  have hissued : u.issued = w.issued := by simp only [issued, hlogged]
  have hbacked : u.Backed = w.Backed := by
    funext request
    simp only [Backed, hdecided]
  obtain ⟨nextId, cmds, hmanager⟩ := hmanager
  obtain ⟨hrec, hone, hempty, hledger⟩ := h
  refine ⟨by rw [hmanager]; exact hrec, by rw [hmanager]; exact hone, by rw [hmanager, hlogged]; exact hempty,
    fun hbound => ?_⟩
  rw [hissued] at hbound
  obtain ⟨⟨hexcl, hopened, hs, hf, ha, hr⟩, base, hlast, hnum⟩ := hledger hbound
  refine ⟨⟨by rwa [hdecided], by rw [hdecided, hmanager]; exact hopened, fun m hm => ?_, fun m hm => ?_,
    fun e he => ?_, fun id hid => ?_⟩, base, by rw [hissued, hmanager]; exact hlast,
    by rwa [Numbered, hissued, hlogged]⟩
  · rw [hbacked]
    exact (hsent m hm).elim (hs m) id
  · rw [hbacked]
    exact (hinFlight m hm).elim (hf m) id
  · rw [hdecided]
    exact (happlied e he).elim (ha e) fun h => h hbound
  · rw [hdecided, hmanager]
    exact (hrefused id hid).elim (hr id) (fun h => h)

theorem Sound.call {addr : Addr} {request : Request} {choice : Choice} {reply : Option Reply}
    (h : w.Sound last) (hbacked : w.Backed request) (hcall : w.call addr request choice = some (reply, u)) :
    u.Sound last := by
  obtain ⟨hc, hl, hr, -, hs, hf, ha⟩ := call_frame hcall
  refine h.frame ⟨_, _, congrArg Coordinator.rManager hc⟩ hl (fun id hid => .inl (hr ▸ hid)) (fun m hm => ?_) (fun m hm => ?_)
    (fun e he => ?_)
  · rcases hs m hm with hm | rfl
    · exact .inl hm
    · exact .inr hbacked
  · rcases hf m hm with hm | rfl
    · exact .inl hm
    · exact .inr hbacked
  · rcases ha e he with he | rfl
    · exact .inl he
    · exact .inr fun _ => hbacked

theorem backed_of_not_decision {request : Request} (h : request.isDecision = false) : w.Backed request := by
  cases request <;> trivial

-- The number that is drawn next is the one the log would give.
def Ready (w : World) : Prop :=
  w.coordinator.rManager.file ≠ [] → w.coordinator.rManager.Recoverable w.coordinator.nextId

-- An update is in progress.
def InProgress (w : World) (id : UInt32) (status : RecordStatus) : Prop :=
  w.coordinator.nextId = id + 1 ∧ w.coordinator.rManager.Opens id status

-- The client has not been told that the update failed.
def Unrefused (w : World) (id : UInt32) : Prop := w.issued < 2 ^ 32 → id ∉ w.refused

-- The number of a new update has been drawn.
def Drawn (w : World) (id : UInt32) : Prop :=
  w.coordinator.nextId = id + 1 ∧ w.coordinator.rManager.records = ∅ ∧
    (w.coordinator.rManager.file ≠ [] → w.coordinator.rManager.Recoverable id)

-- Nothing is open while anybody is a member.
def Settled (w : World) : Prop :=
  w.Ready ∧ (w.coordinator.participants ≠ ∅ → w.coordinator.rManager.records = ∅)

end World

open World

def ledger : Contract Effect World where
  always w := ∃ last, w.Sound last
  idle := Settled
  quiet s t := t.coordinator = s.coordinator ∧ t.logged = s.logged ∧ t.sent = s.sent ∧
    t.refused = s.refused
  follow _ _ := True
  issue _ _ effect := effect ≠ .assertFalse
  quiet_refl _ := ⟨rfl, rfl, rfl, rfl⟩
  quiet_trans := fun ⟨h1, h2, h3, h4⟩ ⟨k1, k2, k3, k4⟩ =>
    ⟨k1.trans h1, k2.trans h2, k3.trans h3, k4.trans h4⟩
  follow_refl _ := trivial
  follow_trans _ _ := trivial
  idle_quiet := fun hidle ⟨hc, _⟩ _ => by simpa only [Settled, Ready, hc] using hidle

-- A number is drawn at random only when nothing has been logged, and nobody is served
-- before recovery() has returned.
def drawsOnce : Terms Effect World Choice where
  effect _ w effect _ := match effect with
    | .rand => w.coordinator.rManager.file = []
    | _ => True
  environment _ _ := True
  crash _ := True
  early := False

namespace Ledger

-- The coordinator, its log and what it has refused are the same.
structure Alike (w u : World) : Prop where
  coordinator : u.coordinator = w.coordinator
  logged : u.logged = w.logged
  refused : u.refused = w.refused

-- Says nothing of the participants and the messages.
abbrev Local (P : World → Prop) : Prop := Withstands Alike P

instance : Local Ready := ⟨fun h hsame => by simpa only [Ready, hsame.coordinator] using h⟩

instance : Local Settled := ⟨fun h hsame => by simpa only [Settled, Ready, hsame.coordinator] using h⟩

instance {id : UInt32} : Local (Drawn · id) := ⟨fun h hsame => by simpa only [Drawn, hsame.coordinator] using h⟩

instance {id : UInt32} {status : RecordStatus} : Local (InProgress · id status) :=
  ⟨fun h hsame => by simpa only [InProgress, hsame.coordinator] using h⟩

instance {id : UInt32} {status : RecordStatus} : Local (Decided · status id) :=
  ⟨fun h hsame => by simpa only [Decided, hsame.logged] using h⟩

instance {id : UInt32} : Local (Unrefused · id) :=
  ⟨fun h hsame => by simpa only [Unrefused, issued, hsame.logged, hsame.refused] using h⟩

instance {c : Coordinator} : Local fun w => w.coordinator = c := ⟨fun h hsame => hsame.coordinator.trans h⟩

variable {role : Role} {mode : Mode} {P Q : World → Prop}

theorem stable [hP : Local P] (hmode : mode ≠ .outside) : ledger.Stable role mode P :=
  .of_quiet hmode fun _ _ hs hq _ => hP.keep hs ⟨hq.1, hq.2.1, hq.2.2.2⟩

theorem give (hmode : mode ≠ .outside) (w u : World) : ledger.give role mode w u :=
  ⟨fun h => absurd h hmode, fun _ => trivial⟩

theorem get_keeps [Local P] (hmode : mode ≠ .outside) :
    Triple cdb drawsOnce ledger role mode P Coordinator.get fun c w => P w ∧ w.coordinator = c :=
  Coordinator.get_triple (stable hmode) (fun _ => stable hmode) fun w _ hw =>
    ⟨nofun, give hmode w w, hw, rfl⟩

theorem call_keeps [hP : Local P] (hmode : mode ≠ .outside) {addr : Addr} {request : Request}
    (hbacked : ∀ w, P w → w.Backed request) :
    Triple cdb drawsOnce ledger role mode P (Coordinator.call addr request) fun _ => P :=
  Coordinator.call_triple (stable hmode) (fun _ => stable hmode) fun w ⟨last, hs⟩ hw =>
    ⟨nofun, fun _ _ u _ hcall =>
      have hframe := call_frame hcall
      ⟨⟨last, hs.call (hbacked w hw) hcall⟩, give hmode w u, hP.keep hw ⟨hframe.1, hframe.2.1, hframe.2.2.1⟩⟩⟩

theorem ask_keeps [Local P] (hmode : mode ≠ .outside) {addr : Addr} {request : Request}
    (hdecision : request.isDecision = false) :
    Triple cdb drawsOnce ledger role mode P (Coordinator.call addr request) fun _ => P :=
  call_keeps hmode fun _ _ => backed_of_not_decision hdecision

-- A change of the coordinator that leaves its log alone.
theorem modify_keeps [Local P] [Local Q] (hmode : mode ≠ .outside) {change : Coordinator → Coordinator}
    (hmanager : ∀ c, (change c).rManager = c.rManager)
    (h : ∀ w : World, P w → Q { w with coordinator := change w.coordinator }) :
    Triple cdb drawsOnce ledger role mode P (Coordinator.modify change) fun _ => Q :=
  Coordinator.modify_triple (stable hmode) (stable hmode) fun w ⟨last, hs⟩ hw =>
    ⟨nofun, ⟨last, hs.frame ⟨_, _, hmanager _⟩ rfl (fun _ => .inl) (fun _ => .inl) (fun _ => .inl) fun _ => .inl⟩,
      give hmode _ _, h w hw⟩

theorem sendError_keeps [Local P] (hmode : mode ≠ .outside) {client : Client} {id : Option UInt32}
    (hP : ∀ w : World, P w → P { w with
      replies := (client, errorString) :: w.replies, refused := id.toList ++ w.refused })
    (hrefused : ∀ w, P w → ∀ i ∈ id, w.Decided RECORD_ABORT i ∨
      w.coordinator.rManager.Opens i RECORD_UNRESOLVED) :
    Triple cdb drawsOnce ledger role mode P (Coordinator.sendError client id) fun _ => P :=
  Coordinator.sendError_triple (stable hmode) (stable hmode) fun w ⟨last, hs⟩ hw => by
    refine ⟨nofun, ⟨last, hs.frame ⟨_, _, rfl⟩ rfl (fun i hi => ?_) (fun _ => .inl) (fun _ => .inl) fun _ => .inl⟩,
      give hmode _ _, hP w hw⟩
    rcases List.mem_append.mp hi with hi | hi
    · exact .inr (hrefused w hw i (by simpa using hi))
    · exact .inl hi

theorem forEach_keeps {α : Type} [Local P] (hmode : mode ≠ .outside) {request : Request}
    {judge : Option Reply → α → Coordinator.Verdict α} (hbacked : ∀ w, P w → w.Backed request)
    (herase : ∀ (w : World) (addr : Addr), P w → P { w with
      coordinator := { w.coordinator with participants := w.coordinator.participants.erase addr } })
    (addrs : List Addr) (state : α) :
    Triple cdb drawsOnce ledger role mode P (Coordinator.forEachParticipant request judge addrs state)
      fun _ => P := by
  refine Coordinator.forEachParticipant_triple (fun _ _ => P) (fun _ _ _ => P) (fun _ => stable hmode)
    (fun _ _ _ h => h) (fun addr rest state => ?_) (fun addr rest state => ?_) (fun _ => stable hmode)
    addrs state
  · refine (call_keeps hmode hbacked).post fun reply w _ hw => ?_
    cases judge reply state <;> exact hw
  · exact modify_keeps hmode (fun _ => rfl) fun w hw => herase w addr hw

theorem notifyIf_keeps [Local P] (hmode : mode ≠ .outside) (dead : Bool) :
    Triple cdb drawsOnce ledger role mode P (Coordinator.notifyIf dead) fun _ => P := by
  cases dead with
  | false => exact Triple.ret (stable hmode) fun _ _ h => h
  | true =>
      exact Coordinator.notifyAll_triple (stable hmode) (stable hmode) fun w _ hw =>
        ⟨nofun, give hmode w w, hw⟩

theorem sendResult_keeps [hP : Local P] (hmode : mode ≠ .outside) (client : Client) (msg : Bytes) :
    Triple cdb drawsOnce ledger role mode P (Coordinator.sendResult client msg) fun _ => P :=
  Coordinator.sendResult_triple (stable hmode) (stable hmode) fun _ ⟨last, hs⟩ hw =>
    ⟨nofun, ⟨last, hs.frame ⟨_, _, rfl⟩ rfl (fun _ => .inl) (fun _ => .inl) (fun _ => .inl) fun _ => .inl⟩,
      give hmode _ _, hP.keep hw ⟨rfl, rfl, rfl⟩⟩

theorem settled_of_inProgress {w : World} {last id : UInt32} {status : RecordStatus}
    (h : w.Sound last) (hprogress : w.InProgress id status)
    (hnobody : w.coordinator.participants = ∅) : w.Settled := by
  obtain ⟨hnext, hopen⟩ := hprogress
  refine ⟨fun _ => ?_, fun hne => absurd hnobody hne⟩
  rw [hnext, ← h.last_eq hopen]
  exact h.recoverable

-- The update is closed if somebody is left to have carried it out.
theorem logDone_settles {X : World → Prop} [Local X] (hmode : mode ≠ .outside)
    {status done : RecordStatus} {id : UInt32} (hstatus : status ≠ RECORD_UNRESOLVED)
    (hdone : done = RECORD_COMMIT_DONE ∨ done = RECORD_ABORT_DONE)
    (hX : ∀ w : World, X w → X (w.log done id)) :
    Triple cdb drawsOnce ledger role mode (fun w => w.InProgress id status ∧ X w)
      (Coordinator.logDone done id) fun _ w => w.Settled ∧ X w := by
  refine Triple.bind (get_keeps hmode) fun c => ?_
  split
  · rename_i hempty
    refine Triple.ret (stable hmode) ?_
    rintro w ⟨last, hs⟩ ⟨⟨hprogress, hx⟩, rfl⟩
    exact ⟨settled_of_inProgress hs hprogress (by simpa using hempty), hx⟩
  · refine Coordinator.log_triple (stable hmode) (stable hmode) ?_
    rintro w ⟨last, hs⟩ ⟨⟨⟨hnext, hopen⟩, hx⟩, -⟩
    obtain ⟨hsound, hrecords⟩ := hs.logDone hopen hnext hstatus hdone
    refine ⟨nofun, fun _ => ⟨⟨_, hsound⟩, give hmode _ _, ⟨fun _ => ?_, fun _ => hrecords⟩, hX w hx⟩⟩
    have hsame : (w.log done id).coordinator.nextId = id + 1 := hnext
    rw [hsame]
    exact hsound.recoverable

theorem sendErrorTo_keeps [Local P] (hmode : mode ≠ .outside) (client : Option Client) (id : UInt32)
    (hP : ∀ (w : World) (replies : List (Client × Bytes)), P w →
      P { w with replies, refused := id :: w.refused })
    (hrefused : ∀ w, P w → w.Decided RECORD_ABORT id ∨
      w.coordinator.rManager.Opens id RECORD_UNRESOLVED) :
    Triple cdb drawsOnce ledger role mode P (Coordinator.sendErrorTo client id) fun _ => P := by
  cases client with
  | none => exact Triple.ret (stable hmode) fun _ _ h => h
  | some client =>
      refine sendError_keeps hmode (fun w hw => hP w _ hw) fun w hw i hi => ?_
      cases hi
      exact hrefused w hw

theorem sendResultTo_keeps [Local P] (hmode : mode ≠ .outside) (client : Option Client) (msg : Bytes) :
    Triple cdb drawsOnce ledger role mode P (Coordinator.sendResultTo client msg) fun _ => P := by
  cases client with
  | none => exact Triple.ret (stable hmode) fun _ _ h => h
  | some client => exact sendResult_keeps hmode client msg

theorem commitDbRequest_settles (hmode : mode ≠ .outside) (client : Option Client) (id : UInt32)
    {status : RecordStatus} (hstatus : status = RECORD_UNRESOLVED ∨ status = RECORD_COMMIT)
    (dead : Bool) :
    Triple cdb drawsOnce ledger role mode
      (fun w => w.InProgress id status ∧ (status = RECORD_UNRESOLVED → w.Unrefused id))
      (Coordinator.commitDbRequest client id dead) fun _ => Settled := by
  have hlog : Triple cdb drawsOnce ledger role mode
      (fun w => w.InProgress id status ∧ (status = RECORD_UNRESOLVED → w.Unrefused id))
      (Coordinator.log RECORD_COMMIT id)
      fun _ w => w.InProgress id RECORD_COMMIT ∧ w.Decided RECORD_COMMIT id := by
    refine Coordinator.log_triple (stable hmode) (stable hmode) ?_
    rintro w ⟨last, hs⟩ ⟨⟨hnext, hopen⟩, hrefused⟩
    obtain ⟨hsound, hopens⟩ := hs.logDecision hopen hnext (.inl rfl) hstatus
      fun hbound hunresolved _ => hrefused hunresolved hbound
    exact ⟨nofun, fun _ => ⟨⟨_, hsound⟩, give hmode _ _, ⟨hnext, hopens⟩, log_decided.mpr (.inl ⟨rfl, rfl⟩)⟩⟩
  refine Triple.bind hlog fun _ => Triple.bind (get_keeps hmode) fun c => ?_
  refine Triple.seq (fun _ w => w.InProgress id RECORD_COMMIT ∧ w.Decided RECORD_COMMIT id)
    ((forEach_keeps hmode (fun w hw => hw.2) (fun w addr hw => hw) _ _).pre fun w _ hw => hw.1)
    fun result => ?_
  refine Triple.bind (logDone_settles hmode (by decide) (.inl rfl) fun w hw => hw.log) fun _ => ?_
  refine Triple.bind (sendResultTo_keeps hmode client result.1) fun _ => ?_
  exact Triple.ret (stable hmode) fun w _ hw => hw.1

theorem abortDbRequest_settles (hmode : mode ≠ .outside) (client : Option Client) (id : UInt32)
    {status : RecordStatus} (hstatus : status = RECORD_UNRESOLVED ∨ status = RECORD_ABORT)
    (dead : Bool) :
    Triple cdb drawsOnce ledger role mode (fun w => w.InProgress id status)
      (Coordinator.abortDbRequest client id dead) fun _ => Settled := by
  have hlog : Triple cdb drawsOnce ledger role mode (fun w => w.InProgress id status)
      (Coordinator.log RECORD_ABORT id)
      fun _ w => w.InProgress id RECORD_ABORT ∧ w.Decided RECORD_ABORT id := by
    refine Coordinator.log_triple (stable hmode) (stable hmode) ?_
    rintro w ⟨last, hs⟩ ⟨hnext, hopen⟩
    obtain ⟨hsound, hopens⟩ := hs.logDecision hopen hnext (.inr rfl) hstatus
      fun _ _ hcommit => absurd hcommit (by decide)
    exact ⟨nofun, fun _ => ⟨⟨_, hsound⟩, give hmode _ _, ⟨hnext, hopens⟩, log_decided.mpr (.inl ⟨rfl, rfl⟩)⟩⟩
  refine Triple.bind hlog fun _ => Triple.bind (get_keeps hmode) fun c => ?_
  refine Triple.seq (fun _ w => w.InProgress id RECORD_ABORT ∧ w.Decided RECORD_ABORT id)
    ((forEach_keeps hmode (fun w hw => hw.2) (fun w addr hw => hw) _ _).pre fun w _ hw => hw.1)
    fun dead => ?_
  refine Triple.bind (logDone_settles hmode (by decide) (.inr rfl) fun w hw => hw.log) fun _ => ?_
  refine Triple.bind (sendErrorTo_keeps hmode client id (fun _ _ hw => hw) fun w hw => .inl hw.2) fun _ => ?_
  exact Triple.ret (stable hmode) fun w _ hw => hw.1

theorem resolveRecord_settles (hmode : mode ≠ .outside) (r : Record)
    (hstatus : Record.resolvable r.status) :
    Triple cdb drawsOnce ledger role mode (fun w => w.InProgress r.id r.status)
      (Coordinator.resolveRecord r) fun _ => Settled := by
  simp only [Coordinator.resolveRecord]
  split
  · rename_i habort
    exact Triple.bind (abortDbRequest_settles hmode none r.id habort false) fun _ =>
      Triple.ret (stable hmode) fun _ _ h => h
  split
  · rename_i hcommit
    refine Triple.bind ((commitDbRequest_settles hmode none r.id (.inr hcommit) false).pre
      fun w _ hw => ⟨hw, fun hunresolved => ?_⟩) fun _ => Triple.ret (stable hmode) fun _ _ h => h
    exact absurd (hcommit.symm.trans hunresolved) (by decide)
  · rename_i hneither hcommit
    rcases hstatus with h | h | h
    · exact absurd (.inl h) hneither
    · exact absurd h hcommit
    · exact absurd (.inr h) hneither

-- What the copy of records_ can be.
theorem copyRecords_keeps (hmode : mode ≠ .outside) :
    Triple cdb drawsOnce ledger role mode Ready Coordinator.copyRecords fun rs w =>
      (rs = [] ∧ w.Settled) ∨
        ∃ r : Record, (rs = [r] ∧ Record.resolvable r.status) ∧ w.InProgress r.id r.status := by
  refine Coordinator.copyRecords_triple (stable hmode) (fun _ => stable hmode) ?_
  rintro w ⟨last, hs⟩ hready
  refine ⟨nofun, fun _ => ⟨give hmode w w, ?_⟩⟩
  rcases hs.oneOpen with hempty | ⟨id, status, hopen, hnext, hstatus⟩
  · exact .inl ⟨by rw [hempty]; rfl, hready, fun _ => hempty⟩
  · obtain ⟨r, rfl, rfl, hvalues⟩ := hopen.values
    have hlast := (hready (hs.file_ne_nil hopen)).unique hs.recoverable
    exact .inr ⟨r, ⟨hvalues, hstatus⟩, hlast.trans hnext.symm, hopen⟩

theorem handleUnfinishedRecords_settles (hmode : mode ≠ .outside) :
    Triple cdb drawsOnce ledger role mode Ready Coordinator.handleUnfinishedRecords fun _ => Settled := by
  refine Triple.bind (copyRecords_keeps hmode) fun rs => ?_
  intro w ha hw
  rcases hw with ⟨rfl, hw⟩ | ⟨r, ⟨rfl, hstatus⟩, hw⟩
  · exact (Triple.ret (stable hmode) fun _ _ h => h) w ha hw
  · exact (Triple.bind (resolveRecord_settles hmode r hstatus) fun _ =>
      Triple.ret (stable hmode) fun _ _ h => h) w ha hw

theorem fetchAddNextId_draws (hmode : mode ≠ .outside) :
    Triple cdb drawsOnce ledger role mode
      (fun w => w.Ready ∧ w.coordinator.rManager.records = ∅) Coordinator.fetchAddNextId
      fun id w => w.Drawn id := by
  have : Local fun w => w.Ready ∧ w.coordinator.rManager.records = ∅ :=
    ⟨fun h hsame => by simpa only [Ready, hsame.coordinator] using h⟩
  refine Triple.bind (get_keeps hmode) fun c => ?_
  refine Triple.seq (fun _ w => w.Drawn c.nextId) (modify_keeps hmode (by exact fun _ => rfl) ?_) fun _ =>
    Triple.ret (stable hmode) fun _ _ h => h
  rintro w ⟨⟨hready, hempty⟩, rfl⟩
  exact ⟨rfl, hempty, hready⟩

theorem logUnresolved_opens (hmode : mode ≠ .outside) (id : UInt32) :
    Triple cdb drawsOnce ledger role mode (Drawn · id) (Coordinator.log RECORD_UNRESOLVED id)
      fun _ w => w.InProgress id RECORD_UNRESOLVED ∧ w.Unrefused id := by
  refine Coordinator.log_triple (stable hmode) (stable hmode) ?_
  rintro w ⟨last, hs⟩ ⟨hnext, hempty, hready⟩
  obtain ⟨hsound, hopens, hrefused⟩ := hs.logUnresolved hempty hnext fun hfile =>
    hs.recoverable.unique (hready hfile)
  exact ⟨nofun, fun _ => ⟨⟨_, hsound⟩, give hmode _ _, ⟨hnext, hopens⟩, hrefused⟩⟩

-- The rest of an update, once its number has been logged.
theorem resolveUpdate_settles (hmode : mode ≠ .outside) {request : Request}
    (hdecision : request.isDecision = false) (client : Client) (id : UInt32) {finish : Code Unit}
    (hfinish : Triple cdb drawsOnce ledger role mode Settled finish fun _ => Settled) :
    Triple cdb drawsOnce ledger role mode
      (fun w => w.InProgress id RECORD_UNRESOLVED ∧ w.Unrefused id)
      (Coordinator.resolveUpdate request client id finish) fun _ => Settled := by
  refine Triple.bind (get_keeps hmode) fun c => ?_
  refine Triple.seq (fun _ w => w.InProgress id RECORD_UNRESOLVED ∧ w.Unrefused id)
    ((forEach_keeps hmode (fun _ _ => backed_of_not_decision hdecision) (fun w addr hw => hw) _ _).pre fun w _ hw => hw.1)
    fun phase => ?_
  refine Triple.bind (get_keeps hmode) fun c => ?_
  split
  · rename_i hempty
    refine Triple.imp (sendError_keeps (P := fun w => w.Settled ∧ w.InProgress id RECORD_UNRESOLVED) hmode
      (fun _ hw => hw) fun w hw i hi => ?_) ?_ fun _ _ _ hw => hw.1
    · cases hi
      exact .inr hw.2.2
    · rintro w ⟨last, hs⟩ ⟨⟨hprogress, -⟩, rfl⟩
      exact ⟨settled_of_inProgress hs hprogress (by simpa using hempty), hprogress⟩
  split
  · refine Triple.bind ((commitDbRequest_settles hmode (some client) id (.inl rfl) phase.2).pre
      fun w _ hw => ⟨hw.1.1, fun _ => hw.1.2⟩) fun dead => ?_
    exact Triple.bind hfinish fun _ => notifyIf_keeps hmode dead
  · refine Triple.bind ((abortDbRequest_settles hmode (some client) id (.inl rfl) phase.2).pre
      fun w _ hw => hw.1.1) fun dead => ?_
    exact notifyIf_keeps hmode dead

theorem participants_ne {c : Coordinator} (h : ¬ c.participants.isEmpty = true) : c.participants ≠ ∅ := by
  simpa using h

theorem rememberDelKeys_keeps (hmode : mode ≠ .outside) (keys : List Bytes) :
    Triple cdb drawsOnce ledger role mode Settled (Coordinator.rememberDelKeys keys) fun _ => Settled := by
  refine Triple.bind (get_keeps hmode) fun c => ?_
  split
  · exact modify_keeps hmode (fun _ => rfl) fun w hw => hw.1
  · exact Triple.ret (stable hmode) fun _ _ hw => hw.1

-- A scope under the lock guard of participants_mutex_.
theorem critical_keeps {α : Type} {body : Code α}
    (h : Triple cdb drawsOnce ledger role .inside Settled body fun _ => Settled) :
    Triple cdb drawsOnce ledger role .outside (fun _ => True) (Program.critical body) fun _ _ => True :=
  Triple.critical (.const _) (h.imp (fun _ _ hw => hw.1) fun _ _ _ hw => ⟨hw, trivial⟩)
    (fun _ _ _ _ _ _ => trivial) fun _ => .const _

theorem handleUpdate_keeps {request : UInt32 → Request} (hdecision : ∀ id, (request id).isDecision = false)
    (client : Client) {finish : Code Unit} (hmode : mode ≠ .outside)
    (hfinish : Triple cdb drawsOnce ledger role mode Settled finish fun _ => Settled) :
    Triple cdb drawsOnce ledger role mode Settled (Coordinator.handleUpdate request client finish)
      fun _ => Settled := by
  refine Triple.bind (get_keeps hmode) fun c => ?_
  split
  · refine (sendError_keeps (P := Settled) hmode (fun _ hw => hw) fun _ _ i hi => ?_).pre
      fun _ _ hw => hw.1
    cases hi
  · rename_i hsome
    refine Triple.bind ((fetchAddNextId_draws hmode).pre ?_) fun id =>
      Triple.bind (logUnresolved_opens hmode id) fun _ =>
        resolveUpdate_settles hmode (hdecision id) client id hfinish
    rintro w - ⟨⟨hready, hclosed⟩, rfl⟩
    exact ⟨hready, hclosed (participants_ne hsome)⟩

theorem eraseParticipant_keeps (hmode : mode ≠ .outside) (addr : Addr) :
    Triple cdb drawsOnce ledger role mode Settled (Coordinator.eraseParticipant addr) fun _ => Settled := by
  refine modify_keeps hmode (fun _ => rfl) fun w hw => ⟨hw.1, fun hne => hw.2 fun hempty => hne ?_⟩
  simp [hempty]

theorem getFromParticipants_keeps (hmode : mode ≠ .outside) (client : Client) (cmd : GetCommand)
    (addrs : List Addr) (dead : Bool) :
    Triple cdb drawsOnce ledger role mode Settled
      (Coordinator.getFromParticipants client cmd addrs dead) fun _ => Settled := by
  induction addrs generalizing dead with
  | nil => exact Triple.ret (stable hmode) fun _ _ hw => hw
  | cons addr rest ih =>
      refine Triple.bind (ask_keeps hmode (by rfl)) fun reply => ?_
      have hdrop := Triple.bind (eraseParticipant_keeps hmode addr) fun _ => ih true
      match reply with
      | some (.string value) =>
          exact Triple.bind (sendResult_keeps hmode client value) fun _ =>
            Triple.ret (stable hmode) fun _ _ hw => hw
      | none | some (.bool _) | some (.uint32 _) | some (.vector _) | some .void => exact hdrop

theorem sendError_outside (client : Client) :
    Triple cdb drawsOnce ledger role .outside (fun _ => True) (Coordinator.sendError client none)
      fun _ _ => True :=
  Coordinator.sendError_triple (.const _) (.const _) fun _ ⟨last, hs⟩ _ =>
    ⟨nofun, ⟨last, hs.frame ⟨_, _, rfl⟩ rfl (fun _ => .inl) (fun _ => .inl) (fun _ => .inl) fun _ => .inl⟩,
      ⟨fun _ => ⟨rfl, rfl, rfl, rfl⟩, fun _ => trivial⟩, trivial⟩

theorem notifyIf_outside (dead : Bool) :
    Triple cdb drawsOnce ledger role .outside (fun _ => True) (Coordinator.notifyIf dead)
      fun _ _ => True := by
  cases dead with
  | false => exact Triple.ret (.const _) fun _ _ h => h
  | true =>
      exact Coordinator.notifyAll_triple (.const _) (.const _) fun w _ _ =>
        ⟨nofun, ⟨fun _ => ⟨rfl, rfl, rfl, rfl⟩, fun _ => trivial⟩, trivial⟩

theorem handler_keeps (request : Client × Command) :
    Triple cdb drawsOnce ledger .worker .outside (fun _ => True) (Coordinator.handle request)
      fun _ _ => True := by
  obtain ⟨client, cmd⟩ := request
  have hinside : Mode.inside ≠ .outside := by decide
  cases cmd with
  | get cmd =>
      refine Triple.bind (critical_keeps ?_) fun answered => ?_
      · refine Triple.bind (get_keeps hinside) fun c => ?_
        split
        · refine Triple.bind ((sendError_keeps (P := Settled) hinside (fun _ hw => hw) ?_).pre
            fun _ _ hw => hw.1) fun _ => Triple.ret (stable hinside) fun _ _ hw => hw
          exact fun _ _ i hi => nomatch hi
        · refine Triple.bind ((get_keeps hinside).pre fun _ _ hw => hw.1) fun c => ?_
          exact Triple.bind ((getFromParticipants_keeps hinside client cmd _ false).pre
            fun _ _ hw => hw.1) fun _ => Triple.ret (stable hinside) fun _ _ hw => hw
      · match answered with
        | none => exact Triple.ret (.const _) fun _ _ h => h
        | some (true, dead) => exact notifyIf_outside dead
        | some (false, dead) => exact Triple.bind (sendError_outside client) fun _ => notifyIf_outside dead
  | set cmd =>
      simp only [Coordinator.handle, Coordinator.handleDbSetRequest_eq]
      exact critical_keeps (handleUpdate_keeps (fun _ => rfl) client hinside
        (Triple.ret (stable hinside) fun _ _ hw => hw))
  | del cmd =>
      simp only [Coordinator.handle, Coordinator.handleDbDelRequest_eq]
      exact critical_keeps (handleUpdate_keeps (fun _ => rfl) client hinside
        (rememberDelKeys_keeps hinside cmd.keys))

theorem recoverFromSnapshot_keeps (hmode : mode ≠ .outside) (addr : Addr) (donors : List Addr) :
    Triple cdb drawsOnce ledger role mode Settled (Coordinator.recoverFromSnapshot addr donors)
      fun _ => Settled := by
  induction donors with
  | nil => exact Triple.ret (stable hmode) fun _ _ hw => hw
  | cons donor rest ih =>
      refine Triple.bind (ask_keeps hmode (by rfl)) fun reply => ?_
      have hdrop := Triple.bind (eraseParticipant_keeps hmode donor) fun _ => ih
      match reply with
      | some (.vector snapshot) =>
          refine Triple.bind (get_keeps hmode) fun c => ?_
          refine Triple.bind ((ask_keeps hmode (by rfl)).pre fun _ _ hw => hw.1) fun recovered => ?_
          cases recovered with
          | none => exact Triple.ret (stable hmode) fun _ _ hw => hw
          | some _ =>
              refine Triple.bind (ask_keeps hmode (by rfl)) fun set => ?_
              cases set <;> exact Triple.ret (stable hmode) fun _ _ hw => hw
      | none | some (.bool _) | some (.uint32 _) | some (.string _) | some .void => exact hdrop

theorem recoverParticipant_keeps (hmode : mode ≠ .outside) (addr : Addr) :
    Triple cdb drawsOnce ledger role mode Settled (Coordinator.recoverParticipant addr)
      fun _ => Settled := by
  refine Triple.bind (get_keeps hmode) fun c => ?_
  split
  · refine Triple.bind ((ask_keeps hmode (by rfl)).pre fun _ _ hw => hw.1) fun reply => ?_
    cases reply with
    | none => exact Triple.ret (stable hmode) fun _ _ hw => hw
    | some _ =>
        exact Triple.bind (modify_keeps (Q := Settled) hmode (by exact fun _ => rfl) fun w hw => hw) fun _ =>
          Triple.ret (stable hmode) fun _ _ hw => hw
  · refine Triple.bind ((ask_keeps hmode (by rfl)).pre fun _ _ hw => hw.1) fun reply => ?_
    match reply with
    | some (.uint32 pNextId) =>
        dsimp only
        split
        · exact Triple.ret (stable hmode) fun _ _ hw => hw
        split
        · exact Triple.ret (stable hmode) fun _ _ hw => hw
        · exact Triple.bind (recoverFromSnapshot_keeps hmode addr _) fun _ =>
            Triple.ret (stable hmode) fun _ _ hw => hw
    | none | some (.bool _) | some (.vector _) | some (.string _) | some .void =>
        exact Triple.ret (stable hmode) fun _ _ hw => hw

theorem insertParticipant_keeps (hmode : mode ≠ .outside) (addr : Addr) :
    Triple cdb drawsOnce ledger role mode Ready (Coordinator.insertParticipant addr) fun _ => Ready :=
  modify_keeps hmode (fun _ => rfl) fun _ hw => hw

theorem readmitParticipant_keeps (hmode : mode ≠ .outside) (addr : Addr) :
    Triple cdb drawsOnce ledger role mode Settled (Coordinator.readmitParticipant addr) fun _ => Settled := by
  refine Triple.bind (get_keeps hmode) fun c => ?_
  split
  · exact Triple.ret (stable hmode) fun _ _ hw => hw.1
  refine Triple.bind ((recoverParticipant_keeps hmode addr).pre fun _ _ hw => hw.1) fun recovered => ?_
  match recovered with
  | none => exact Triple.ret (stable hmode) fun _ _ hw => hw
  | some false => exact Triple.ret (stable hmode) fun _ _ hw => hw
  | some true =>
      refine Triple.bind ((insertParticipant_keeps hmode addr).pre fun _ _ hw => hw.1) fun _ => ?_
      refine Triple.seq (fun _ => Ready) (Triple.bind (get_keeps hmode) fun c => ?_) fun _ => ?_
      · split
        · exact modify_keeps hmode (by exact fun _ => rfl) fun w hw => hw.1
        · exact Triple.ret (stable hmode) fun _ _ hw => hw.1
      · exact Triple.bind (handleUnfinishedRecords_settles hmode) fun _ =>
          Triple.ret (stable hmode) fun _ _ hw => hw

theorem heartbeatParticipant_keeps (addr : Addr) :
    Triple cdb drawsOnce ledger .leader .outside (fun _ => True)
      (Coordinator.heartbeatParticipant addr) fun _ _ => True := by
  have hinside : Mode.inside ≠ .outside := by decide
  have hcall : Triple cdb drawsOnce ledger .leader .outside (fun _ => True)
      (Coordinator.call addr .HEARTBEAT) fun _ _ => True :=
    Coordinator.call_triple (.const _) (fun _ => .const _) fun w ⟨last, hs⟩ _ => by
      refine ⟨nofun, fun choice reply u _ hcall => ?_⟩
      obtain ⟨hc, hl, hr, -⟩ := call_frame hcall
      exact ⟨⟨last, hs.call (backed_of_not_decision (by rfl)) hcall⟩, ⟨fun _ => ⟨hc, hl, call_sent hcall rfl, hr⟩, nofun⟩, trivial⟩
  refine Triple.bind hcall fun reply => ?_
  cases reply with
  | none => exact critical_keeps (eraseParticipant_keeps hinside addr)
  | some _ =>
      refine Triple.bind (critical_keeps (readmitParticipant_keeps hinside addr)) fun ok => ?_
      split
      · exact Triple.ret (.const _) fun _ _ h => h
      · exact critical_keeps (eraseParticipant_keeps hinside addr)

theorem heartbeatList_keeps (addrs : List Addr) :
    Triple cdb drawsOnce ledger .leader .outside (fun _ => True)
      (Coordinator.heartbeatList addrs) fun _ _ => True := by
  induction addrs with
  | nil => exact Triple.ret (.const _) fun _ _ h => h
  | cons addr rest ih => exact Triple.bind (heartbeatParticipant_keeps addr) fun _ => ih

theorem heartbeatParticipants_keeps (passes : Nat) :
    Triple cdb drawsOnce ledger .leader .outside (fun _ => True)
      (Coordinator.heartbeatParticipants passes) fun _ _ => True := by
  induction passes with
  | zero => exact Triple.ret (.const _) fun _ _ h => h
  | succ passes ih =>
      refine Triple.seq (fun _ _ => True) (Coordinator.get_triple (.const _) (fun _ => .const _) ?_)
        fun c => Triple.bind (heartbeatList_keeps _) fun _ => ih
      exact fun w _ _ => ⟨nofun, ⟨fun _ => ⟨rfl, rfl, rfl, rfl⟩, nofun⟩, trivial⟩

end Ledger

end CloudLabs.Cdb
