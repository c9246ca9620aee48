import CloudLabs.Cdb.Refinement.Updates

namespace CloudLabs.Cdb.Refinement

open Interaction

variable (X : Refinement)

-- No update is logged that the reference has not served, and `old` are the
-- replies that were queued.
structure Resting (old : List (Client × Bytes)) (r : Reference) (store : Store) (nextId : UInt32)
    (w : World) : Prop where
  answered : X.Answered w r
  counts : Counts w r.updates
  nextId : w.coordinator.nextId = nextId
  replies : w.replies = old
  view : store.view = r.map

instance {X : Refinement} {old : List (Client × Bytes)} {r : Reference} {store : Store} {nextId : UInt32} :
    Steady fun w => X.Resting old r store nextId w :=
  ⟨fun h hq => ⟨Withstands.keep (r := Quiet) (P := fun w => X.Answered w r) h.answered hq,
    Withstands.keep (r := Quiet) (P := fun w => Counts w r.updates) h.counts hq,
    (congrArg Coordinator.nextId hq.coordinator).trans h.nextId, hq.replies.trans h.replies, h.view⟩⟩

section Assertions

variable (client : Client) (old : List (Client × Bytes))

def ready : X.contract.Assertion := X.known (fun w => w.replies = old ∧ X.Idle w) (by infer_instance)

-- The update has its number and is not logged yet.
def drawn (client' : Client) (cmd : Command) (id : UInt32) : X.contract.Assertion := X.known (fun w =>
  ∃ r store, (client' = client ∧ cmd = X.asked client ∧ cmd.isUpdate) ∧ X.Resting old r store (id + 1) w ∧
    w.Everyone (·.Holds store id [])) (by infer_instance)

def preparing (client' : Client) (cmd : Command) (rest : List Addr) : X.contract.Assertion :=
  X.known (fun w => ∃ r store, client' = client ∧ X.Accepted client old cmd r store w ∧
    w.Turn rest (·.Holds store cmd.id []) (·.Holds store cmd.id [some cmd])) (by infer_instance)

def unprepared (client' : Client) (cmd : Command) (addr : Addr) (rest : List Addr) :
    X.contract.Assertion :=
  X.known (fun w => ∃ r store, (client' = client ∧ addr ≠ X.survivor) ∧
    X.Accepted client old cmd r store w ∧ w.Everyone (·.store = store) ∧
    w.Dropping addr rest (·.Holds store cmd.id []) (·.Holds store cmd.id [some cmd])) (by infer_instance)

def prepared (client' : Client) (cmd : Command) : Bool → X.contract.Assertion
  | true => X.known (fun w => ∃ r store, client' = client ∧ X.Accepted client old cmd r store w ∧
      w.Everyone (·.Holds store cmd.id [some cmd])) (by infer_instance)
  | false => X.known (fun w => ∃ r store, client' = client ∧ X.Rejected client old cmd r store w ∧
      w.Everyone (fun p => p.Holds store cmd.id [] ∨ p.Holds store cmd.id [some cmd])) (by infer_instance)

def getting (client' : Client) (cmd : GetCommand) (rest : List Addr) : X.contract.Assertion :=
  X.known (fun w => ∃ r store nextId, (client' = client ∧ X.asked client = .get cmd ∧ X.survivor ∈ rest) ∧ X.Resting old r store nextId w ∧
    w.Turn rest (·.Holds store nextId []) (·.Holds store nextId [])) (by infer_instance)

def ungot (client' : Client) (cmd : GetCommand) (addr : Addr) (rest : List Addr) :
    X.contract.Assertion :=
  X.known (fun w => ∃ r store nextId,
    (client' = client ∧ X.asked client = .get cmd ∧ X.survivor ∈ rest ∧ addr ≠ X.survivor) ∧
    X.Resting old r store nextId w ∧ w.Everyone (·.store = store) ∧
    w.Dropping addr rest (·.Holds store nextId []) (·.Holds store nextId [])) (by infer_instance)

def got (client' : Client) (cmd : GetCommand) (value : Bytes) : X.contract.Assertion := X.known (fun w =>
  ∃ r store nextId, (client' = client ∧ X.asked client = .get cmd ∧ value = (r.serve (.get cmd)).1) ∧
    X.Resting old r store nextId w ∧ w.Everyone (·.Holds store nextId [])) (by infer_instance)

end Assertions

variable {X} {role : Role} {mode : Mode} {client : Client} {old : List (Client × Bytes)} {cmd : Command}
  {r : Reference} {store : Store} {nextId : UInt32} {w u : World}

theorem Resting.agrees (h : X.Resting old r store nextId w) (hstores : w.Everyone (·.store = store)) :
    X.Agrees w :=
  Agrees.of_stores h.answered h.view (hstores.mono fun _ => .inl)

theorem Resting.members_ne (h : X.Resting old r store nextId w) : w.coordinator.participants ≠ ∅ := by
  intro hempty
  have hmember := h.answered.2.1
  rw [hempty] at hmember
  exact Std.ExtTreeSet.not_mem_empty hmember

theorem Idle.members_ne (h : X.Idle w) : w.coordinator.participants ≠ ∅ := by
  obtain ⟨r, store, nextId, hanswered, hview, hcounts, hnext, hall⟩ := h
  have hresting : X.Resting w.replies r store nextId w := ⟨hanswered, hcounts, hnext, rfl, hview⟩
  exact hresting.members_ne

section Prepare

theorem draw_triple (hmode : mode ≠ .outside) (client' : Client) (cmd : Command) (c : Coordinator)
    (hasks : client' = client ∧ cmd = X.asked client) (hkind : cmd.isUpdate) :
    Triple cdb X.terms X.contract role mode
      (fun w => X.ready old w ∧ w.coordinator = c ∧ c.participants ≠ ∅)
      (Coordinator.modify fun c => { c with nextId := c.nextId + 1 })
      fun _ => X.drawn client old client' cmd c.nextId := by
  refine modify_knows hmode (((X.ready old).stable hmode).and
    ((stable_coordinator hmode (· = c)).and (.const _))) ((X.drawn client old client' cmd c.nextId).stable hmode)
    fun w hw => ?_
  obtain ⟨⟨hreplies, r, store, nextId, hanswered, hview, hcounts, hnext, hall⟩, hc, -⟩ := hw
  have hid : c.nextId = nextId := by rw [← hc, hnext]
  subst hid
  have hresting : X.Resting old r store (c.nextId + 1)
      { w with coordinator := { w.coordinator with nextId := w.coordinator.nextId + 1 } } :=
    ⟨hanswered.frame rfl hanswered.2.1 rfl fun _ _ => Iff.rfl, hcounts, by rw [← hc], hreplies, hview⟩
  exact ⟨hresting.agrees (hall.mono fun p hp => hp.store), r, store,
    ⟨hasks.1, hasks.2, hkind⟩, hresting, hall⟩

theorem Command.setId_id {cmd : Command} (h : cmd.isUpdate) (id : UInt32) :
    (cmd.setId id).id = id ∧ (cmd.setId id).isUpdate ∧ cmd.setId id = cmd.setId (cmd.setId id).id := by
  cases cmd with
  | get cmd => cases h
  | set cmd => exact ⟨rfl, rfl, rfl⟩
  | del cmd => exact ⟨rfl, rfl, rfl⟩

theorem logUnresolved_triple (hmode : mode ≠ .outside) (client' : Client) (cmd : Command) (id : UInt32) :
    Triple cdb X.terms X.contract role mode (X.drawn client old client' cmd id)
      (Coordinator.log RECORD_UNRESOLVED id)
      fun _ w => X.preparing client old client' (cmd.setId id) w.coordinator.participants.toList w := by
  refine log_knows hmode ((X.drawn client old client' cmd id).stable hmode)
    (stable_self (fun c => X.preparing client old client' (cmd.setId id) c.participants.toList) hmode) fun w hw => ?_
  obtain ⟨r, store, ⟨hclient, rfl, hkind⟩, hresting, hall⟩ := hw
  obtain ⟨hid, hupdate, hasked⟩ := Command.setId_id hkind id
  obtain ⟨hissued, hbound⟩ := hresting.counts
  have hbusy : X.Busy client old ((X.asked client).setId id) r store (w.log RECORD_UNRESOLVED id) :=
    ⟨hresting.answered.frame rfl hresting.answered.2.1 rfl fun _ _ => Iff.rfl,
      ⟨World.issued_log_unresolved.trans (by rw [hissued]), fun k hk => Nat.le_succ_of_le (hbound k hk)⟩,
      by rw [hid]; exact hresting.nextId, hresting.replies, hresting.view, hasked, hupdate⟩
  have hveto : r.updates + 1 ∉ w.vetoed := fun hmem => by
    have hle := hbound _ hmem
    omega
  refine ⟨hbusy.agrees (hall.mono fun p hp => hp.store), r, store, hclient, ⟨hbusy, hveto⟩, ?_⟩
  rw [hid]
  exact World.Turn.start hall

theorem prepare_triple (hmode : mode ≠ .outside) (client' : Client) (cmd : Command) (request : Request) (addr : Addr)
    (rest : List Addr) (hrequest : request.prepares = some cmd) :
    Triple cdb X.terms X.contract role mode (X.preparing client old client' cmd (addr :: rest))
      (Coordinator.call addr request) fun reply w => match reply with
        | some (.bool true) => X.preparing client old client' cmd rest w
        | some (.bool false) => X.prepared client old client' cmd false w
        | _ => X.unprepared client old client' cmd addr rest w := by
  refine call_knows hmode ((X.preparing client old client' cmd (addr :: rest)).stable hmode)
    (fun reply => ?_) fun w choice reply u hw hT hcall => ?_
  · split <;> exact Contract.Assertion.stable _ hmode
  obtain ⟨r, store, hclient, ⟨hbusy, hveto⟩, hturn⟩ := hw
  have hp := hturn.left addr (by simp)
  obtain ⟨q, hprepare, hstore, hnext, hpending⟩ := Participant.prepare_of_empty hp.pending hbusy.update
  have hhandle := Participant.handle_prepares hrequest hprepare
  have hq : q.Holds store cmd.id [some cmd] := ⟨hstore.trans hp.store, hnext.trans hp.nextId, hpending⟩
  have htouch := World.call_touches hcall
  obtain ⟨halive, hcases⟩ := call_cases hbusy.answered hT hhandle hcall
  rcases hcases with ⟨rfl, hnode, hvetoed⟩ | ⟨rfl, hne, hvetoed, hnode⟩ | ⟨stage, other, hother, rfl, hnode, hvetoed⟩
  · have hbusy' := hbusy.call hcall halive hvetoed
    have hturn' := hturn.next htouch (by rw [hnode]; exact hq)
    exact ⟨hbusy'.agrees (hturn'.either.mono fun p hp => hp.elim (·.store) (·.store)), r, store,
      hclient, ⟨hbusy', by rwa [hvetoed]⟩, hturn'⟩
  · have hbusy' := hbusy.call hcall halive hvetoed
    have hstores : u.Everyone (·.store = store) := by
      refine World.Turn.stores hturn htouch (fun p hp => hp.store) (fun p hp => hp.store) ?_
      rcases hnode with hnode | hnode
      · rw [hnode]
        exact hp.store
      · rw [hnode]
        exact hq.store
    exact ⟨hbusy'.agrees hstores, r, store, ⟨hclient, hne⟩, ⟨hbusy', by rwa [hvetoed]⟩, hstores,
      hturn.fail htouch⟩
  · have hrejected := hbusy.refused hcall halive hvetoed
    obtain ⟨hkstore, hknext, hkpending⟩ :=
      Participant.prepareRefused_keeps (w.node addr).participant stage other
    have hall : u.Everyone fun p => p.Holds store cmd.id [] ∨ p.Holds store cmd.id [some cmd] := by
      refine World.Turn.stores hturn htouch (fun p hp => .inl hp) (fun p hp => .inr hp) ?_
      rw [hnode]
      exact .inl ⟨hkstore.trans hp.store, hknext.trans hp.nextId, hkpending.trans hp.pending⟩
    exact ⟨hrejected.1.agrees (hall.mono fun p hp => hp.elim (·.store) (·.store)), r, store, hclient,
      hrejected, hall⟩

theorem dropUnprepared_triple (hmode : mode ≠ .outside) (client' : Client) (cmd : Command) (addr : Addr) (rest : List Addr) :
    Triple cdb X.terms X.contract role mode (X.unprepared client old client' cmd addr rest)
      (Coordinator.eraseParticipant addr) fun _ => X.preparing client old client' cmd rest := by
  refine modify_knows hmode ((X.unprepared client old client' cmd addr rest).stable hmode)
    ((X.preparing client old client' cmd rest).stable hmode) fun w hw => ?_
  obtain ⟨r, store, ⟨hclient, hne⟩, ⟨hbusy, hveto⟩, hstores, hdrop⟩ := hw
  have hbusy' := hbusy.erase hne
  exact ⟨hbusy'.agrees fun a ha => hstores a (Std.ExtTreeSet.mem_of_mem_erase ha), r, store, hclient,
    ⟨hbusy', hveto⟩, hdrop.erase⟩

end Prepare

section Get

theorem startGet_of_ready {client' : Client} (cmd : GetCommand)
    (hasks : client' = client ∧ Command.get cmd = X.asked client) (h : X.ready old w) :
    X.getting client old client' cmd w.coordinator.participants.toList w := by
  obtain ⟨hreplies, r, store, nextId, hanswered, hview, hcounts, hnext, hall⟩ := h
  exact ⟨r, store, nextId, ⟨hasks.1, hasks.2.symm, Std.ExtTreeSet.mem_toList.mpr hanswered.2.1⟩,
    ⟨hanswered, hcounts, hnext, hreplies, hview⟩, World.Turn.start hall⟩

theorem get_triple (hmode : mode ≠ .outside) (client' : Client) (cmd : GetCommand) (addr : Addr) (rest : List Addr) :
    Triple cdb X.terms X.contract role mode (X.getting client old client' cmd (addr :: rest))
      (Coordinator.call addr (.GET cmd)) fun reply w => match reply with
        | some (.string value) => X.got client old client' cmd value w
        | _ => X.ungot client old client' cmd addr rest w := by
  refine call_knows hmode ((X.getting client old client' cmd (addr :: rest)).stable hmode)
    (fun reply => ?_) fun w choice reply u hw hT hcall => ?_
  · split <;> exact Contract.Assertion.stable _ hmode
  obtain ⟨r, store, nextId, ⟨hclient, hasks, hsurvivor⟩, hresting, hturn⟩ := hw
  have hp := hturn.left addr (by simp)
  have hhandle : (w.node addr).participant.handle (.GET cmd) =
      .ok (.string ((w.node addr).participant.get cmd), (w.node addr).participant) := rfl
  have htouch := World.call_touches hcall
  obtain ⟨hc, -, -, hreplies, -⟩ := World.call_frame hcall
  obtain ⟨halive, hcases⟩ := call_cases hresting.answered hT hhandle hcall
  have hresting' : u.vetoed = w.vetoed → X.Resting old r store nextId u := fun hvetoed =>
    ⟨hresting.answered.frame hreplies (by rw [hc]; exact hresting.answered.2.1) (halive _)
        fun k _ => by rw [hvetoed],
      ⟨(issued_call hcall).trans hresting.counts.1, by rw [hvetoed]; exact hresting.counts.2⟩,
      by rw [hc]; exact hresting.nextId, hreplies.trans hresting.replies, hresting.view⟩
  have hall : (u.node addr).participant = (w.node addr).participant →
      u.Everyone (·.Holds store nextId []) := fun hnode =>
    World.Turn.stores hturn htouch (fun _ hp => hp) (fun _ hp => hp) (by rw [hnode]; exact hp)
  rcases hcases with ⟨rfl, hnode, hvetoed⟩ | ⟨rfl, hne, hvetoed, hnode⟩ | ⟨stage, _, hprepares, -⟩
  · refine ⟨(hresting' hvetoed).agrees ((hall hnode).mono fun p hp => hp.store), r, store, nextId,
      ⟨hclient, hasks, ?_⟩, hresting' hvetoed, hall hnode⟩
    exact Reference.get_view _ cmd (by rw [hp.store]; exact hresting.view)
  · have hstores : u.Everyone (·.store = store) := (hall (hnode.elim id id)).mono fun p hp => hp.store
    exact ⟨(hresting' hvetoed).agrees hstores, r, store, nextId,
      ⟨hclient, hasks, (List.mem_cons.mp hsurvivor).resolve_left hne.symm, hne⟩, hresting' hvetoed, hstores,
      hturn.fail htouch⟩
  · cases hprepares

theorem dropUngot_triple (hmode : mode ≠ .outside) (client' : Client) (cmd : GetCommand) (addr : Addr) (rest : List Addr) :
    Triple cdb X.terms X.contract role mode (X.ungot client old client' cmd addr rest)
      (Coordinator.eraseParticipant addr) fun _ => X.getting client old client' cmd rest := by
  refine modify_knows hmode ((X.ungot client old client' cmd addr rest).stable hmode)
    ((X.getting client old client' cmd rest).stable hmode) fun w hw => ?_
  obtain ⟨r, store, nextId, ⟨hclient, hasks, hsurvivor, hne⟩, hresting, hstores, hdrop⟩ := hw
  have hresting' : X.Resting old r store nextId { w with coordinator := { w.coordinator with
      participants := w.coordinator.participants.erase addr } } :=
    ⟨hresting.answered.frame rfl (mem_erase_of_ne hresting.answered.2.1 hne) rfl fun _ _ => Iff.rfl,
      hresting.counts, hresting.nextId, hresting.replies, hresting.view⟩
  exact ⟨hresting'.agrees fun a ha => hstores a (Std.ExtTreeSet.mem_of_mem_erase ha), r, store, nextId,
    ⟨hclient, hasks, hsurvivor⟩, hresting', hdrop.erase⟩

theorem sendGot_triple (hmode : mode ≠ .outside) (client' : Client) (cmd : GetCommand) (value : Bytes) :
    Triple cdb X.terms X.contract role mode (X.got client old client' cmd value)
      (Coordinator.sendResult client' value) fun _ => X.settled client old := by
  refine Coordinator.sendResult_triple ((X.got client old client' cmd value).stable hmode)
    ((X.settled client old).stable hmode) fun w _ hw => ?_
  obtain ⟨r, store, nextId, ⟨rfl, hasks, rfl⟩, hresting, hall⟩ := hw
  have hidle : X.Idle { w with replies := (client', (r.serve (.get cmd)).1) :: w.replies } := by
    refine ⟨r, store, nextId, hresting.answered.reply rfl rfl rfl rfl (Nat.le_refl _) fun veto _ => ?_,
      hresting.view, hresting.counts, hresting.nextId, hall⟩
    rw [hasks]
    rfl
  exact ⟨trivial, hidle.agrees, give_inside hmode _ _, ⟨_, by rw [← hresting.replies]⟩, hidle⟩

end Get

-- What does not concern the members leaves the state as it is.
theorem Idle.frame (h : X.Idle w) (hreplies : u.replies = w.replies) (hissued : u.issued = w.issued)
    (hvetoed : u.vetoed = w.vetoed) (hnext : u.coordinator.nextId = w.coordinator.nextId)
    (hmember : X.survivor ∈ u.coordinator.participants)
    (halive : (u.node X.survivor).alive = (w.node X.survivor).alive)
    (hnode : ∀ addr ∈ u.coordinator.participants, addr ∈ w.coordinator.participants ∧
      (u.node addr).participant = (w.node addr).participant) : X.Idle u := by
  obtain ⟨r, store, nextId, hanswered, hview, hcounts, hid, hall⟩ := h
  refine ⟨r, store, nextId, hanswered.frame hreplies hmember halive fun k _ => by rw [hvetoed], hview, ?_,
    hnext.trans hid, fun addr haddr => ?_⟩
  · rw [Counts, hissued, hvetoed]
    exact hcounts
  · obtain ⟨hold, hsame⟩ := hnode addr haddr
    rw [hsame]
    exact hall addr hold

theorem rememberDelKeys_triple (hmode : mode ≠ .outside) (keys : List Bytes) :
    Triple cdb X.terms X.contract role mode (X.settled client old) (Coordinator.rememberDelKeys keys)
      fun _ => X.settled client old := by
  refine Triple.bind (get_knows hmode ((X.settled client old).stable hmode)) fun c => ?_
  split
  · refine modify_knows hmode (((X.settled client old).stable hmode).and
      (stable_coordinator hmode (· = c))) ((X.settled client old).stable hmode) fun w hw => ?_
    obtain ⟨⟨hreplies, hidle⟩, -⟩ := hw
    obtain ⟨_, _, _, hanswered, -⟩ := id hidle
    have hidle' : X.Idle { w with coordinator := { w.coordinator with
        delKeys := w.coordinator.delKeys.insertMany keys } } :=
      hidle.frame rfl rfl rfl rfl hanswered.2.1 rfl fun _ haddr => ⟨haddr, rfl⟩
    exact ⟨hidle'.agrees, hreplies, hidle'⟩
  · exact Triple.ret (((X.settled client old).stable hmode).and (stable_coordinator hmode (· = c)))
      fun _ _ h => h.1

-- How a request of the client is served.
def serving (hmode : mode ≠ .outside) (client : Client) (old : List (Client × Bytes)) :
    Serving X.terms X.contract role mode where
  toDeciding := deciding hmode client old
  ready := X.ready old
  asks client' cmd := client' = client ∧ cmd = X.asked client
  refuse _ := Triple.of_false fun _ _ h => h.1.2.members_ne h.2
  drawn := X.drawn client old
  preparing := X.preparing client old
  unprepared := X.unprepared client old
  prepared := X.prepared client old
  draw := draw_triple hmode
  logUnresolved := logUnresolved_triple hmode
  prepare := prepare_triple hmode
  dropUnprepared := dropUnprepared_triple hmode
  allPrepared := fun _ _ _ _ ⟨r, store, hclient, haccepted, hturn⟩ =>
    ⟨r, store, hclient, haccepted, hturn.finish⟩
  nobodyPrepared client' cmd ok := Triple.of_false fun w _ h => by
    cases ok with
    | true =>
        obtain ⟨⟨_, _, -, haccepted, -⟩, hempty⟩ := h
        exact haccepted.1.members_ne hempty
    | false =>
        obtain ⟨⟨_, _, -, hrejected, -⟩, hempty⟩ := h
        exact hrejected.1.members_ne hempty
  accept := fun _ cmd _ _ ⟨r, store, hclient, haccepted, hall⟩ _ =>
    ⟨cmd, r, store, ⟨by rw [hclient], rfl⟩, haccepted, hall⟩
  reject := fun _ cmd _ _ ⟨r, store, hclient, hrejected, hall⟩ _ =>
    ⟨cmd, r, store, ⟨by rw [hclient], rfl⟩, hrejected, hall⟩
  finishSet := fun _ _ _ _ h => h
  finishDel _ cmd := rememberDelKeys_triple hmode cmd.keys
  getting := X.getting client old
  ungot := X.ungot client old
  got := X.got client old
  unanswered := False
  startGet := fun _ cmd _ _ hasks hready _ => startGet_of_ready cmd hasks hready
  get := get_triple hmode
  dropUngot := dropUngot_triple hmode
  sendGot := sendGot_triple hmode
  noneGot := fun _ _ _ _ ⟨_, _, _, hfacts, _⟩ => nomatch hfacts.2.2
  sendUnanswered _ h := h.elim

end CloudLabs.Cdb.Refinement
