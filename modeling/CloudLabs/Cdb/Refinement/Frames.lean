import CloudLabs.Cdb.Coordinator.Outline.Theorems
import CloudLabs.Cdb.Refinement

namespace CloudLabs.Cdb.Refinement

open Interaction

variable (X : Refinement)

def contract : Contract Effect World where
  always := X.Agrees
  idle := X.Idle
  quiet := Quiet
  follow _ _ := True
  issue _ _ effect := match effect with
    | .rand | .assertFalse => False
    | _ => True
  quiet_refl _ := ⟨rfl, rfl, rfl, rfl, fun _ _ => rfl⟩
  quiet_trans h h' := ⟨h'.coordinator.trans h.coordinator, h'.logged.trans h.logged,
    h'.vetoed.trans h.vetoed, h'.replies.trans h.replies, fun addr haddr =>
      (h'.node addr (by rwa [h.coordinator])).trans (h.node addr haddr)⟩
  follow_refl _ := trivial
  follow_trans _ _ := trivial
  idle_quiet hidle hq _ := Withstands.keep hidle hq

instance : Plain X.contract :=
  ⟨fun hq => hq.coordinator, fun _ _ => trivial, fun _ _ => trivial, fun _ _ => trivial⟩

def known (P : World → Prop) (hP : Steady P) : X.contract.Assertion :=
  ⟨P, fun h hq _ => hP.keep h hq⟩

-- What cannot be.
def never : X.contract.Assertion := X.known (fun _ => False) (by infer_instance)

-- The update of a client is in progress; the reference has not served it yet,
-- and `old` are the replies that were queued before.
structure Busy (client : Client) (old : List (Client × Bytes)) (cmd : Command) (r : Reference)
    (store : Store) (w : World) : Prop where
  answered : X.Answered w r
  counts : Counts w (r.updates + 1)
  nextId : w.coordinator.nextId = cmd.id + 1
  replies : w.replies = old
  view : store.view = r.map
  asked : cmd = (X.asked client).setId cmd.id
  update : cmd.isUpdate

-- Nobody has refused the update, or somebody has.
def Accepted (client : Client) (old : List (Client × Bytes)) (cmd : Command) (r : Reference)
    (store : Store) (w : World) : Prop :=
  X.Busy client old cmd r store w ∧ r.updates + 1 ∉ w.vetoed

def Rejected (client : Client) (old : List (Client × Bytes)) (cmd : Command) (r : Reference)
    (store : Store) (w : World) : Prop :=
  X.Busy client old cmd r store w ∧ r.updates + 1 ∈ w.vetoed

section Steady

variable {X} {client : Client} {old : List (Client × Bytes)} {cmd : Command} {r : Reference} {store : Store}

instance : Steady fun w => w.replies = old := ⟨fun h hq => by rwa [hq.replies]⟩

instance : Steady fun w => X.Busy client old cmd r store w :=
  ⟨fun h hq => ⟨Withstands.keep (r := Quiet) (P := fun w => X.Answered w r) h.answered hq,
    Withstands.keep (r := Quiet) (P := fun w => Counts w (r.updates + 1)) h.counts hq,
    (congrArg Coordinator.nextId hq.coordinator).trans h.nextId, hq.replies.trans h.replies, h.view,
    h.asked, h.update⟩⟩

instance : Steady fun w => X.Accepted client old cmd r store w := by
  unfold Accepted
  infer_instance

instance : Steady fun w => X.Rejected client old cmd r store w := by
  unfold Rejected
  infer_instance

end Steady

section Frame

variable {X} {w u : World} {client : Client} {old : List (Client × Bytes)} {cmd : Command}
  {r : Reference} {store : Store}

theorem Answered.frame (h : X.Answered w r) (hreplies : u.replies = w.replies)
    (hmember : X.survivor ∈ u.coordinator.participants)
    (halive : (u.node X.survivor).alive = (w.node X.survivor).alive)
    (hvetoed : ∀ k ≤ r.updates, k ∈ u.vetoed ↔ k ∈ w.vetoed) : X.Answered u r := by
  obtain ⟨hrun, -, halive'⟩ := h
  refine ⟨fun veto hveto => ?_, hmember, by rwa [halive]⟩
  rw [hreplies]
  exact hrun veto fun k hk => (hveto k hk).trans (hvetoed k hk)

-- One more request has been answered as the reference answers it.
theorem Answered.reply {msg : Bytes} {r' : Reference} (h : X.Answered w r)
    (hreplies : u.replies = (client, msg) :: w.replies) (hcoordinator : u.coordinator = w.coordinator)
    (hnode : u.node = w.node) (hvetoed : u.vetoed = w.vetoed) (hle : r.updates ≤ r'.updates)
    (hserve : ∀ veto : Nat → Bool, (∀ k ≤ r'.updates, veto k = true ↔ k ∈ w.vetoed) →
      (if (X.asked client).isUpdate && veto (r.updates + 1) then r.refuse else r.serve (X.asked client)) =
        (msg, r')) : X.Answered u r' := by
  obtain ⟨hrun, hmember, halive⟩ := h
  refine ⟨fun veto hveto => ?_, by rwa [hcoordinator], by rwa [hnode]⟩
  rw [hvetoed] at hveto
  have hearlier := hrun veto fun k hk => hveto k (Nat.le_trans hk hle)
  simp only [hreplies, List.map_cons, Reference.run, hearlier, hserve veto hveto]

theorem Agrees.of_stores (h : X.Answered w r) (hview : store.view = r.map)
    (hstores : w.Everyone fun p => p.store = store ∨
      ∃ client, p.store.view = (r.serve (X.asked client)).2.map) : X.Agrees w := by
  refine ⟨r, h, hstores.mono ?_⟩
  rintro p (rfl | hahead)
  · exact .inl hview
  · exact .inr hahead

theorem Idle.agrees (h : X.Idle w) : X.Agrees w := by
  obtain ⟨r, store, nextId, hanswered, hview, -, -, hall⟩ := h
  exact Agrees.of_stores hanswered hview (hall.mono fun p hp => .inl hp.store)

theorem Busy.agrees (h : X.Busy client old cmd r store w) (hstores : w.Everyone (·.store = store)) :
    X.Agrees w :=
  Agrees.of_stores h.answered h.view (hstores.mono fun _ => .inl)

-- The members that have committed are one request ahead.
theorem Busy.agrees_commit {store' : Store} {ret : Bytes} (h : X.Busy client old cmd r store w)
    (hdispatch : Participant.dispatch store cmd = .ok (ret, store'))
    (hstores : w.Everyone fun p => p.store = store ∨ p.store = store') : X.Agrees w := by
  refine Agrees.of_stores h.answered h.view (hstores.mono fun p => Or.imp_right fun hp => ⟨client, ?_⟩)
  have hserve := Reference.dispatch_view h.view hdispatch
  rw [h.asked, Reference.serve_setId] at hserve
  rw [hp, hserve]

-- A call under the terms of the run, which the participant can handle.
theorem call_cases {mode : Mode} {addr : Addr} {request : Request} {choice : Choice} {reply : Option Reply}
    {answer : Reply} {q : Participant} (h : X.Answered w r)
    (hT : X.terms.effect mode w (.call addr request) choice)
    (hok : (w.node addr).participant.handle request = .ok (answer, q))
    (hcall : w.call addr request choice = some (reply, u)) :
    (∀ other, (u.node other).alive = (w.node other).alive) ∧
      ((reply = some answer ∧ (u.node addr).participant = q ∧ u.vetoed = w.vetoed) ∨
        (reply = none ∧ addr ≠ X.survivor ∧ u.vetoed = w.vetoed ∧
          ((u.node addr).participant = (w.node addr).participant ∨ (u.node addr).participant = q)) ∨
        ∃ stage cmd, request.prepares = some cmd ∧ reply = some (.bool false) ∧
          (u.node addr).participant = (w.node addr).participant.prepareRefused stage cmd ∧
          u.vetoed = w.issued :: w.vetoed) := by
  obtain ⟨p, hnode, hcases⟩ := World.call_handled hok hcall
  refine ⟨fun other => ?_, ?_⟩
  · rw [hnode]
    by_cases heq : other = addr
    · rw [heq, Function.update_self]
    · rw [Function.update_of_ne heq]
  rw [hnode, Function.update_self]
  rcases hcases with ⟨hreply, hp, hvetoed⟩ | ⟨hreply, hp, hvetoed, hdone⟩ | hrefused
  · exact .inl ⟨hreply, hp, hvetoed⟩
  · refine .inr (.inl ⟨hreply, fun heq => ?_, hvetoed, hp⟩)
    subst heq
    rcases hT.1 rfl with rfl | ⟨stage, rfl⟩
    · exact hdone h.2.2 rfl
    · obtain ⟨n, -, heq⟩ := Option.map_eq_some_iff.mp hcall
      cases heq
      cases hreply
  · exact .inr (.inr hrefused)

theorem Busy.frame (h : X.Busy client old cmd r store w) (hreplies : u.replies = w.replies)
    (hmember : X.survivor ∈ u.coordinator.participants)
    (halive : (u.node X.survivor).alive = (w.node X.survivor).alive) (hissued : u.issued = w.issued)
    (hnext : u.coordinator.nextId = w.coordinator.nextId) (hvetoed : u.vetoed = w.vetoed) :
    X.Busy client old cmd r store u := by
  refine ⟨h.answered.frame hreplies hmember halive fun k _ => by rw [hvetoed], ?_, hnext.trans h.nextId,
    hreplies.trans h.replies, h.view, h.asked, h.update⟩
  rw [Counts, hissued, hvetoed]
  exact h.counts

theorem issued_call {addr : Addr} {request : Request} {choice : Choice} {reply : Option Reply}
    (hcall : w.call addr request choice = some (reply, u)) : u.issued = w.issued := by
  simp only [World.issued, (World.call_frame hcall).2.1]

theorem Busy.call {addr : Addr} {request : Request} {choice : Choice} {reply : Option Reply}
    (h : X.Busy client old cmd r store w) (hcall : w.call addr request choice = some (reply, u))
    (halive : ∀ other, (u.node other).alive = (w.node other).alive) (hvetoed : u.vetoed = w.vetoed) :
    X.Busy client old cmd r store u := by
  obtain ⟨hc, -, -, hreplies, -⟩ := World.call_frame hcall
  exact h.frame hreplies (by rw [hc]; exact h.answered.2.1) (halive _) (issued_call hcall) (by rw [hc]) hvetoed

-- A call by which a member has refused the update.
theorem Busy.refused {addr : Addr} {request : Request} {choice : Choice} {reply : Option Reply}
    (h : X.Busy client old cmd r store w) (hcall : w.call addr request choice = some (reply, u))
    (halive : ∀ other, (u.node other).alive = (w.node other).alive)
    (hvetoed : u.vetoed = w.issued :: w.vetoed) : X.Rejected client old cmd r store u := by
  obtain ⟨hissued, hbound⟩ := h.counts
  obtain ⟨hc, -, -, hreplies, -⟩ := World.call_frame hcall
  have hmember : X.survivor ∈ u.coordinator.participants := by
    rw [hc]
    exact h.answered.2.1
  have hkept : ∀ k ≤ r.updates, k ∈ u.vetoed ↔ k ∈ w.vetoed := by
    intro k hk
    rw [hvetoed, hissued, List.mem_cons]
    exact ⟨fun h => h.resolve_left (by omega), .inr⟩
  refine ⟨⟨h.answered.frame hreplies hmember (halive _) hkept, ⟨(issued_call hcall).trans hissued, ?_⟩,
    by rw [hc]; exact h.nextId, hreplies.trans h.replies, h.view, h.asked, h.update⟩, ?_⟩
  · rw [hvetoed, hissued]
    intro k hk
    rcases List.mem_cons.mp hk with rfl | hk
    · exact Nat.le_refl _
    · exact hbound k hk
  · rw [hvetoed, hissued]
    exact List.mem_cons_self

theorem mem_erase_of_ne {addr other : Addr} {members : AddrSet} (h : other ∈ members) (hne : addr ≠ other) :
    other ∈ members.erase addr :=
  Std.ExtTreeSet.mem_erase.mpr ⟨fun heq => hne (Std.LawfulEqCmp.eq_of_compare heq), h⟩

theorem Busy.erase (h : X.Busy client old cmd r store w) {addr : Addr} (hne : addr ≠ X.survivor) :
    X.Busy client old cmd r store { w with coordinator := { w.coordinator with
      participants := w.coordinator.participants.erase addr } } :=
  h.frame rfl (mem_erase_of_ne h.answered.2.1 hne) rfl rfl rfl rfl

theorem Busy.log (h : X.Busy client old cmd r store w) {status : RecordStatus} {id : UInt32}
    (hstatus : status ≠ RECORD_UNRESOLVED) : X.Busy client old cmd r store (w.log status id) :=
  h.frame rfl h.answered.2.1 rfl (World.issued_log hstatus) rfl rfl

-- The survivor stays a member.
theorem Busy.members_ne (h : X.Busy client old cmd r store w) : w.coordinator.participants ≠ ∅ := by
  intro hempty
  have hmember := h.answered.2.1
  rw [hempty] at hmember
  exact Std.ExtTreeSet.not_mem_empty hmember

end Frame

section Rules

variable {X} {role : Role} {mode : Mode} {pre : World → Prop}

theorem call_knows {post : Option Reply → World → Prop} {addr : Addr} {request : Request}
    (hmode : mode ≠ .outside) (hpre : X.contract.Stable role mode pre)
    (hpost : ∀ reply, X.contract.Stable role mode (post reply))
    (h : ∀ w choice reply u, pre w → X.terms.effect mode w (.call addr request) choice →
      w.call addr request choice = some (reply, u) → X.Agrees u ∧ post reply u) :
    Triple cdb X.terms X.contract role mode pre (Coordinator.call addr request) post :=
  Coordinator.call_triple hpre hpost fun w _ hw => ⟨trivial, fun choice reply u hT hcall =>
    have hu := h w choice reply u hw hT hcall
    ⟨hu.1, give_inside hmode w u, hu.2⟩⟩

theorem log_knows {post : World → Prop} {status : RecordStatus} {id : UInt32} (hmode : mode ≠ .outside)
    (hpre : X.contract.Stable role mode pre) (hpost : X.contract.Stable role mode post)
    (h : ∀ w, pre w → X.Agrees (w.log status id) ∧ post (w.log status id)) :
    Triple cdb X.terms X.contract role mode pre (Coordinator.log status id) fun _ => post :=
  Coordinator.log_triple hpre hpost fun w _ hw =>
    ⟨trivial, fun _ => ⟨(h w hw).1, give_inside hmode _ _, (h w hw).2⟩⟩

theorem modify_knows {post : World → Prop} {change : Coordinator → Coordinator} (hmode : mode ≠ .outside)
    (hpre : X.contract.Stable role mode pre) (hpost : X.contract.Stable role mode post)
    (h : ∀ w : World, pre w → X.Agrees { w with coordinator := change w.coordinator } ∧
      post { w with coordinator := change w.coordinator }) :
    Triple cdb X.terms X.contract role mode pre (Coordinator.modify change) fun _ => post :=
  Coordinator.modify_triple hpre hpost fun w _ hw =>
    ⟨trivial, (h w hw).1, give_inside hmode _ _, (h w hw).2⟩

end Rules

end CloudLabs.Cdb.Refinement
