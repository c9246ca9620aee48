import CloudLabs.Cdb.Participant.Theorems
import CloudLabs.Cdb.System

namespace CloudLabs.Cdb

theorem Node.applies_eq_some {n : Node} {request : Request} {id : UInt32}
    (h : n.applies request = some id) : request = .COMMIT id := by
  cases request with
  | COMMIT id' =>
      simp only [Node.applies] at h
      split at h
      · exact congrArg Request.COMMIT (Option.some.inj h)
      · cases h
  | _ => cases h

-- A request that fails leaves the participant as it was.
theorem Node.serve_cases (n : Node) (request : Request) :
    ((n.serve request).1 = none ∧ (n.serve request).2.participant = n.participant) ∨
      ∃ reply p, n.participant.handle request = .ok (reply, p) ∧
        n.serve request = (some reply, { n with participant := p }) := by
  simp only [Node.serve]
  split
  · cases hhandle : n.participant.handle request with
    | error fault => exact .inl ⟨rfl, rfl⟩
    | ok answer => exact .inr ⟨answer.1, answer.2, rfl, rfl⟩
  · exact .inl ⟨rfl, rfl⟩

theorem Node.serve_of_alive {n : Node} {request : Request} {reply : Reply} {p : Participant}
    (halive : n.alive = true) (hhandle : n.participant.handle request = .ok (reply, p)) :
    n.serve request = (some reply, { n with participant := p }) := by
  rw [Node.serve, if_pos halive, hhandle]

-- The command that a request asks to prepare.
def Request.prepares : Request → Option Command
  | .PREPARE_SET cmd => some (.set cmd)
  | .PREPARE_DEL cmd => some (.del cmd)
  | _ => none

theorem Participant.handle_prepares {p q : Participant} {request : Request} {cmd : Command} {ok : Bool}
    (hrequest : request.prepares = some cmd) (h : p.prepare cmd = .ok (ok, q)) :
    p.handle request = .ok (.bool ok, q) := by
  cases request with
  | PREPARE_SET set =>
      cases hrequest
      simp only [Participant.handle, Participant.prepareSet, h, ok_bind, pure_eq_ok]
  | PREPARE_DEL del =>
      cases hrequest
      simp only [Participant.handle, Participant.prepareDel, h, ok_bind, pure_eq_ok]
  | _ => cases hrequest

theorem Node.refuse_eq_some {n m : Node} {stage : Participant.PrepareStage} {request : Request}
    (h : n.refuse stage request = some m) : ∃ cmd, request.prepares = some cmd ∧
      m = { n with participant := n.participant.prepareRefused stage cmd } := by
  cases request with
  | PREPARE_SET cmd =>
      simp only [Node.refuse] at h
      split at h
      · exact ⟨.set cmd, rfl, (Option.some.inj h).symm⟩
      · cases h
  | PREPARE_DEL cmd =>
      simp only [Node.refuse] at h
      split at h
      · exact ⟨.del cmd, rfl, (Option.some.inj h).symm⟩
      · cases h
  | _ => cases h

namespace World

variable {w u : World} {addr : Addr} {request : Request} {choice : Choice} {reply : Option Reply}

section Log

variable {status : RecordStatus} {id : UInt32}

theorem issued_log_unresolved : (w.log RECORD_UNRESOLVED id).issued = w.issued + 1 := by
  simp [issued, World.log]

theorem issued_log (h : status ≠ RECORD_UNRESOLVED) : (w.log status id).issued = w.issued := by
  simp [issued, World.log, h]

theorem issued_le_log : w.issued ≤ (w.log status id).issued := by
  simp only [issued, World.log, List.countP_cons]
  omega

end Log

@[simp] theorem send_coordinator : (w.send addr request).coordinator = w.coordinator := by
  simp only [send]
  split <;> rfl

theorem mem_execute_applied {entry : Addr × UInt32} (h : entry ∈ (w.execute addr request).2.applied) :
    entry ∈ w.applied ∨ request = .COMMIT entry.2 := by
  simp only [execute, List.mem_append, List.mem_map, Option.mem_toList] at h
  rcases h with ⟨id, happlies, rfl⟩ | h
  · exact .inr (Node.applies_eq_some happlies)
  · exact .inl h

-- What a call may change apart from the participant that is called.
theorem call_frame (h : w.call addr request choice = some (reply, u)) :
    u.coordinator = w.coordinator ∧ u.logged = w.logged ∧ u.refused = w.refused ∧
      u.replies = w.replies ∧ (∀ message ∈ u.sent, message ∈ w.sent ∨ message = (addr, request)) ∧
      (∀ message ∈ u.inFlight, message ∈ w.inFlight ∨ message = (addr, request)) ∧
      ∀ entry ∈ u.applied, entry ∈ w.applied ∨ request = .COMMIT entry.2 := by
  have hsend : ∀ message ∈ (w.send addr request).sent, message ∈ w.sent ∨ message = (addr, request) := by
    intro message hm
    simp only [send] at hm
    split at hm
    · exact (List.mem_cons.mp hm).symm
    · exact .inl hm
  have hframe : (w.send addr request).logged = w.logged ∧ (w.send addr request).refused = w.refused ∧
      (w.send addr request).replies = w.replies ∧ (w.send addr request).inFlight = w.inFlight ∧
      (w.send addr request).applied = w.applied := by
    simp only [send]
    split <;> exact ⟨rfl, rfl, rfl, rfl, rfl⟩
  obtain ⟨hlogged, hrefused, hreplies, hinFlight, happlied⟩ := hframe
  cases choice with
  | done =>
      cases h
      refine ⟨send_coordinator, hlogged, hrefused, hreplies, hsend, fun m hm => .inl (hinFlight ▸ hm),
        fun entry he => ?_⟩
      rw [← happlied]
      exact mem_execute_applied he
  | lost =>
      cases h
      exact ⟨send_coordinator, hlogged, hrefused, hreplies, hsend, fun m hm => .inl (hinFlight ▸ hm),
        fun entry he => .inl (happlied ▸ he)⟩
  | replyLost =>
      cases h
      refine ⟨send_coordinator, hlogged, hrefused, hreplies, hsend, fun m hm => .inl (hinFlight ▸ hm),
        fun entry he => ?_⟩
      rw [← happlied]
      exact mem_execute_applied he
  | delayed =>
      cases h
      refine ⟨send_coordinator, hlogged, hrefused, hreplies, hsend, fun m hm => ?_,
        fun entry he => .inl (happlied ▸ he)⟩
      simpa using hm
  | refuse stage =>
      obtain ⟨n, -, heq⟩ := Option.map_eq_some_iff.mp h
      cases heq
      exact ⟨rfl, rfl, rfl, rfl, fun m hm => .inl hm, fun m hm => .inl hm, fun e he => .inl he⟩
  | _ => cases h

theorem call_sent (h : w.call addr request choice = some (reply, u))
    (hdecision : request.isDecision = false) : u.sent = w.sent := by
  have hsend : (w.send addr request).sent = w.sent := by simp [send, hdecision]
  cases choice with
  | done => cases h; exact hsend
  | lost => cases h; exact hsend
  | replyLost => cases h; exact hsend
  | delayed => cases h; exact hsend
  | refuse stage =>
      obtain ⟨n, -, heq⟩ := Option.map_eq_some_iff.mp h
      cases heq
      rfl
  | _ => cases h

-- A call is counted as refused only where a PREPARE has been answered with false.
theorem call_vetoed (h : w.call addr request choice = some (reply, u)) :
    u.vetoed = w.vetoed ∨ (∃ stage, choice = .refuse stage) ∧ (∃ cmd, request.prepares = some cmd) ∧
      reply = some (.bool false) ∧ u.vetoed = w.issued :: w.vetoed := by
  have hsend : (w.send addr request).vetoed = w.vetoed := by
    simp only [send]
    split <;> rfl
  cases choice with
  | done => cases h; exact .inl hsend
  | lost => cases h; exact .inl hsend
  | replyLost => cases h; exact .inl hsend
  | delayed => cases h; exact .inl hsend
  | refuse stage =>
      obtain ⟨n, hn, heq⟩ := Option.map_eq_some_iff.mp h
      cases heq
      obtain ⟨cmd, hcmd, -⟩ := Node.refuse_eq_some hn
      exact .inr ⟨⟨stage, rfl⟩, ⟨cmd, hcmd⟩, rfl, rfl⟩
  | _ => cases h

@[simp] theorem send_node : (w.send addr request).node = w.node := by
  simp only [send]
  split <;> rfl

-- What a call does to the participants, and what its caller learns.
theorem call_node (h : w.call addr request choice = some (reply, u)) :
    ∃ n, u.node = Function.update w.node addr n ∧
      (choice = .done ∧ (reply, n) = (w.node addr).serve request ∨
        choice = .replyLost ∧ reply = none ∧ n = ((w.node addr).serve request).2 ∨
        (choice = .lost ∨ choice = .delayed) ∧ reply = none ∧ n = w.node addr ∨
        ∃ stage, choice = .refuse stage ∧ (w.node addr).refuse stage request = some n ∧
          reply = some (.bool false)) := by
  cases choice with
  | done =>
      cases h
      exact ⟨((w.node addr).serve request).2, by rw [← send_node (w := w)]; rfl,
        .inl ⟨rfl, by rw [← send_node (w := w)]⟩⟩
  | replyLost =>
      cases h
      exact ⟨((w.node addr).serve request).2, by rw [← send_node (w := w)]; rfl, .inr (.inl ⟨rfl, rfl, rfl⟩)⟩
  | lost =>
      cases h
      exact ⟨_, by simp, .inr (.inr (.inl ⟨.inl rfl, rfl, rfl⟩))⟩
  | delayed =>
      cases h
      exact ⟨_, by simp, .inr (.inr (.inl ⟨.inr rfl, rfl, rfl⟩))⟩
  | refuse stage =>
      obtain ⟨n, hn, heq⟩ := Option.map_eq_some_iff.mp h
      cases heq
      exact ⟨n, rfl, .inr (.inr (.inr ⟨stage, rfl, hn, rfl⟩))⟩
  | _ => cases h

-- A call that is executed and answered.
theorem call_done {answer : Reply} {q : Participant} (halive : (w.node addr).alive = true)
    (hhandle : (w.node addr).participant.handle request = .ok (answer, q)) :
    w.call addr request .done = some (some answer, ((w.send addr request).execute addr request).2) ∧
      ((w.send addr request).execute addr request).2.node addr = ⟨q, true⟩ := by
  have hserve : ((w.send addr request).node addr).serve request = (some answer, ⟨q, true⟩) := by
    rw [send_node, Node.serve_of_alive halive hhandle, halive]
  have hreply : ((w.send addr request).execute addr request).1 = some answer := by
    show (((w.send addr request).node addr).serve request).1 = _
    rw [hserve]
  refine ⟨by rw [← hreply]; rfl, ?_⟩
  show Function.update (w.send addr request).node addr (((w.send addr request).node addr).serve request).2 addr = _
  rw [Function.update_self, hserve]

-- The same for the participant alone: it has handled the request, refused it,
-- or seen nothing of it.
theorem call_participant (h : w.call addr request choice = some (reply, u)) :
    (∀ other, other ≠ addr → u.node other = w.node other) ∧
      ((u.node addr).participant = (w.node addr).participant ∧ reply = none ∨
        (∃ answer, (w.node addr).participant.handle request = .ok (answer, (u.node addr).participant) ∧
          (reply = some answer ∨ reply = none)) ∨
        ∃ stage cmd, request.prepares = some cmd ∧ reply = some (.bool false) ∧
          (u.node addr).participant = (w.node addr).participant.prepareRefused stage cmd) := by
  obtain ⟨n, hnode, houtcome⟩ := call_node h
  rw [hnode, Function.update_self]
  refine ⟨fun other hne => Function.update_of_ne hne _ _, ?_⟩
  have hserve := (w.node addr).serve_cases request
  rcases houtcome with ⟨-, heq⟩ | ⟨-, rfl, rfl⟩ | ⟨-, rfl, rfl⟩ | ⟨stage, -, hn, rfl⟩
  · rcases hserve with ⟨hnone, hkeep⟩ | ⟨answer, p, hhandle, hsome⟩
    · rw [← heq] at hnone hkeep
      exact .inl ⟨hkeep, hnone⟩
    · rw [hsome] at heq
      cases heq
      exact .inr (.inl ⟨answer, hhandle, .inl rfl⟩)
  · rcases hserve with ⟨-, hkeep⟩ | ⟨answer, p, hhandle, hsome⟩
    · exact .inl ⟨hkeep, rfl⟩
    · rw [hsome]
      exact .inr (.inl ⟨answer, hhandle, .inr rfl⟩)
  · exact .inl ⟨rfl, rfl⟩
  · obtain ⟨cmd, hcmd, rfl⟩ := Node.refuse_eq_some hn
    exact .inr (.inr ⟨stage, cmd, hcmd, rfl, rfl⟩)

-- A call that the participant can handle: it has answered, or the caller learns
-- nothing, or the participant has refused.
theorem call_handled {answer : Reply} {q : Participant}
    (hok : (w.node addr).participant.handle request = .ok (answer, q))
    (h : w.call addr request choice = some (reply, u)) :
    ∃ p, u.node = Function.update w.node addr { w.node addr with participant := p } ∧
      ((reply = some answer ∧ p = q ∧ u.vetoed = w.vetoed) ∨
        (reply = none ∧ (p = (w.node addr).participant ∨ p = q) ∧ u.vetoed = w.vetoed ∧
          ((w.node addr).alive → choice ≠ .done)) ∨
        ∃ stage cmd, request.prepares = some cmd ∧ reply = some (.bool false) ∧
          p = (w.node addr).participant.prepareRefused stage cmd ∧ u.vetoed = w.issued :: w.vetoed) := by
  have hsend : (w.send addr request).vetoed = w.vetoed := by
    simp only [send]
    split <;> rfl
  have hserve : ((w.node addr).alive = true ∧
      (w.node addr).serve request = (some answer, { w.node addr with participant := q })) ∨
        ((w.node addr).alive = false ∧ (w.node addr).serve request = (none, w.node addr)) := by
    cases halive : (w.node addr).alive with
    | true => exact .inl ⟨rfl, Node.serve_of_alive halive hok⟩
    | false => exact .inr ⟨rfl, by simp [Node.serve, halive]⟩
  cases choice with
  | done =>
      cases h
      rcases hserve with ⟨halive, hserve⟩ | ⟨hdead, hserve⟩
      · exact ⟨q, by simp [setNode, hserve], .inl ⟨by simp [hserve], rfl, hsend⟩⟩
      · refine ⟨(w.node addr).participant, by simp [setNode, hserve], .inr (.inl ?_)⟩
        exact ⟨by simp [hserve], .inl rfl, hsend, fun halive => by simp [hdead] at halive⟩
  | replyLost =>
      cases h
      rcases hserve with ⟨-, hserve⟩ | ⟨-, hserve⟩
      · exact ⟨q, by simp [execute, setNode, hserve], .inr (.inl ⟨rfl, .inr rfl, hsend, nofun⟩)⟩
      · exact ⟨_, by simp [execute, setNode, hserve], .inr (.inl ⟨rfl, .inl rfl, hsend, nofun⟩)⟩
  | lost =>
      cases h
      exact ⟨_, by simp, .inr (.inl ⟨rfl, .inl rfl, hsend, nofun⟩)⟩
  | delayed =>
      cases h
      exact ⟨_, by simp, .inr (.inl ⟨rfl, .inl rfl, hsend, nofun⟩)⟩
  | refuse stage =>
      obtain ⟨n, hn, heq⟩ := Option.map_eq_some_iff.mp h
      cases heq
      obtain ⟨cmd, hcmd, rfl⟩ := Node.refuse_eq_some hn
      exact ⟨_, rfl, .inr (.inr ⟨stage, cmd, hcmd, rfl, rfl, rfl⟩)⟩
  | _ => cases h

end World

end CloudLabs.Cdb
