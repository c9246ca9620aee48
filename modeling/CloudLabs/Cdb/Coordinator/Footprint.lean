import CloudLabs.Cdb.Coordinator.Rules
import CloudLabs.Cdb.System.Lemmas

namespace CloudLabs.Cdb

open Interaction

namespace Effect

-- What the coordinator does about its members and its numbers: it logs nothing and
-- answers nobody, and no participant is asked to prepare or to decide an update.
def Upkeep : Effect → Prop
  | .log _ _ | .sendResult _ _ | .sendError _ _ => False
  | .call _ request => request.isDecision = false ∧ request.prepares = none
  | .modify change => ∀ c, (change c).rManager = c.rManager
  | _ => True

-- It neither logs nor decides anything, and leaves records_ as it is.
def Passive : Effect → Prop
  | .log _ _ => False
  | .call _ request => request.isDecision = false
  | .modify change => ∀ c, (change c).rManager = c.rManager
  | _ => True

-- It is part of what follows once a decision has been logged for the update.
def Carries (decision : Request) (done : RecordStatus) (id : UInt32) (effect : Effect) : Prop :=
  effect.Passive ∨ effect = .log done id ∨ ∃ addr, effect = .call addr decision

theorem Upkeep.passive {effect : Effect} (h : effect.Upkeep) : effect.Passive := by
  cases effect with
  | call addr request => exact h.1
  | modify change => exact h
  | log status id => exact h
  | _ => trivial

end Effect

namespace Coordinator

open Program (Within)

section Upkeep

theorem get_upkeep : get.Within Effect.Upkeep := ⟨trivial, fun _ => trivial⟩

theorem insertParticipant_upkeep (addr : Addr) : (insertParticipant addr).Within Effect.Upkeep :=
  ⟨fun _ => rfl, fun _ => trivial⟩

theorem eraseParticipant_upkeep (addr : Addr) : (eraseParticipant addr).Within Effect.Upkeep :=
  ⟨fun _ => rfl, fun _ => trivial⟩

theorem call_upkeep (addr : Addr) {request : Request} (hdecision : request.isDecision = false)
    (hprepares : request.prepares = none) : (call addr request).Within Effect.Upkeep :=
  ⟨⟨hdecision, hprepares⟩, fun _ => trivial⟩

theorem notifyIf_upkeep (dead : Bool) : (notifyIf dead).Within Effect.Upkeep := by
  cases dead with
  | false => trivial
  | true => exact ⟨trivial, fun _ => trivial⟩

theorem fetchAddNextId_upkeep : fetchAddNextId.Within Effect.Upkeep :=
  get_upkeep.bind fun _ => ⟨fun _ => rfl, fun _ => trivial⟩

theorem rememberDelKeys_upkeep (keys : List Bytes) : (rememberDelKeys keys).Within Effect.Upkeep := by
  refine get_upkeep.bind fun c => ?_
  split
  · exact ⟨fun _ => rfl, fun _ => trivial⟩
  · trivial

theorem forgetDelKeys_upkeep : forgetDelKeys.Within Effect.Upkeep := by
  refine get_upkeep.bind fun c => ?_
  split
  · exact ⟨fun _ => rfl, fun _ => trivial⟩
  · trivial

theorem initNextId_upkeep : initNextId.Within Effect.Upkeep := by
  refine Within.bind ⟨fun _ => rfl, fun _ => trivial⟩ fun _ => get_upkeep.bind fun c => ?_
  split
  · exact Within.bind ⟨trivial, fun _ => trivial⟩ fun _ => ⟨fun _ => rfl, fun _ => trivial⟩
  · trivial

theorem initParticipant_upkeep (addr : Addr) : (initParticipant addr).Within Effect.Upkeep := by
  have herase := eraseParticipant_upkeep addr
  refine (insertParticipant_upkeep addr).bind fun _ => (call_upkeep addr rfl rfl).bind fun reply => ?_
  split
  · refine get_upkeep.bind fun c => ?_
    split
    · refine (call_upkeep addr rfl rfl).bind fun told => ?_
      cases told with
      | none => exact herase
      | some _ => trivial
    split
    · trivial
    split
    · trivial
    · exact herase
  · exact herase

theorem initParticipantList_upkeep (addrs : List Addr) : (initParticipantList addrs).Within Effect.Upkeep := by
  induction addrs with
  | nil => trivial
  | cons addr rest ih => exact (initParticipant_upkeep addr).bind fun _ => ih

theorem recoverFromSnapshot_upkeep (addr : Addr) (donors : List Addr) :
    (recoverFromSnapshot addr donors).Within Effect.Upkeep := by
  induction donors with
  | nil => trivial
  | cons donor rest ih =>
      refine (call_upkeep donor rfl rfl).bind fun reply => ?_
      split
      · refine get_upkeep.bind fun c => (call_upkeep addr rfl rfl).bind fun recovered => ?_
        cases recovered with
        | none => trivial
        | some _ =>
            refine (call_upkeep addr rfl rfl).bind fun told => ?_
            cases told <;> trivial
      · exact (eraseParticipant_upkeep donor).bind fun _ => ih

theorem recoverParticipant_upkeep (addr : Addr) : (recoverParticipant addr).Within Effect.Upkeep := by
  refine get_upkeep.bind fun c => ?_
  split
  · refine (call_upkeep addr rfl rfl).bind fun told => ?_
    cases told with
    | none => trivial
    | some _ => exact Within.bind ⟨fun _ => rfl, fun _ => trivial⟩ fun _ => trivial
  · refine (call_upkeep addr rfl rfl).bind fun reply => ?_
    split
    · split
      · trivial
      split
      · trivial
      · exact (recoverFromSnapshot_upkeep addr _).bind fun _ => trivial
    · trivial

end Upkeep

section Resolving

variable {kind : Effect → Prop}

theorem forEachParticipant_within {α : Type} (hupkeep : ∀ effect, Effect.Upkeep effect → kind effect) {request : Request}
    (hcall : ∀ addr, kind (.call addr request)) (judge : Option Reply → α → Verdict α) (addrs : List Addr)
    (state : α) : (forEachParticipant request judge addrs state).Within kind := by
  induction addrs generalizing state with
  | nil => trivial
  | cons addr rest ih =>
      refine Within.bind ⟨hcall addr, fun _ => trivial⟩ fun reply => ?_
      cases judge reply state with
      | keep next => exact ih next
      | stop next => trivial
      | drop next => exact ((eraseParticipant_upkeep addr).mono hupkeep).bind fun _ => ih next

theorem logDone_within (hupkeep : ∀ effect, Effect.Upkeep effect → kind effect) {done : RecordStatus} {id : UInt32}
    (hlog : kind (.log done id)) : (logDone done id).Within kind := by
  refine (get_upkeep.mono hupkeep).bind fun c => ?_
  split
  · trivial
  · exact ⟨hlog, fun _ => trivial⟩

-- What follows the decision in commit_db_request, up to the reply.
def carryCommit (id : UInt32) (dead : Bool) : Code (Bytes × Bool) := do
  let result ← forEachParticipant (.COMMIT id) judgeCommit (← get).participants.toList ([], dead)
  logDone RECORD_COMMIT_DONE id
  return result

def carryAbort (id : UInt32) (dead : Bool) : Code Bool := do
  let dead ← forEachParticipant (.ABORT id) judgeAbort (← get).participants.toList dead
  logDone RECORD_ABORT_DONE id
  return dead

theorem commitDbRequest_eq (client : Option Client) (id : UInt32) (dead : Bool) :
    commitDbRequest client id dead = (log RECORD_COMMIT id).bind fun _ => (carryCommit id dead).bind fun result =>
      (sendResultTo client result.1).bind fun _ => .ret result.2 := by
  simp only [commitDbRequest, carryCommit, Program.bind_eq, Program.pure_eq, Program.bind_assoc, Program.ret_bind]

theorem abortDbRequest_eq (client : Option Client) (id : UInt32) (dead : Bool) :
    abortDbRequest client id dead = (log RECORD_ABORT id).bind fun _ => (carryAbort id dead).bind fun dead =>
      (sendErrorTo client id).bind fun _ => .ret dead := by
  simp only [abortDbRequest, carryAbort, Program.bind_eq, Program.pure_eq, Program.bind_assoc, Program.ret_bind]

theorem carryCommit_within (hupkeep : ∀ effect, Effect.Upkeep effect → kind effect) {id : UInt32}
    (hcall : ∀ addr, kind (.call addr (.COMMIT id))) (hlog : kind (.log RECORD_COMMIT_DONE id)) (dead : Bool) :
    (carryCommit id dead).Within kind := by
  refine (get_upkeep.mono hupkeep).bind fun c => ?_
  refine (forEachParticipant_within hupkeep hcall judgeCommit _ _).bind fun result => ?_
  exact (logDone_within hupkeep hlog).bind fun _ => trivial

theorem carryAbort_within (hupkeep : ∀ effect, Effect.Upkeep effect → kind effect) {id : UInt32}
    (hcall : ∀ addr, kind (.call addr (.ABORT id))) (hlog : kind (.log RECORD_ABORT_DONE id)) (dead : Bool) :
    (carryAbort id dead).Within kind := by
  refine (get_upkeep.mono hupkeep).bind fun c => ?_
  refine (forEachParticipant_within hupkeep hcall judgeAbort _ _).bind fun dead => ?_
  exact (logDone_within hupkeep hlog).bind fun _ => trivial

end Resolving

section Passive

theorem sendError_within (client : Client) (id : Option UInt32) : Within Effect.Passive (sendError client id) :=
  ⟨trivial, fun _ => trivial⟩

theorem getFromParticipants_within (client : Client) (cmd : GetCommand) (addrs : List Addr) (dead : Bool) :
    Within Effect.Passive (getFromParticipants client cmd addrs dead) := by
  have hcall : ∀ addr, Within Effect.Passive (call addr (.GET cmd)) := fun addr => ⟨rfl, fun _ => trivial⟩
  induction addrs generalizing dead with
  | nil => trivial
  | cons addr rest ih =>
      refine (hcall addr).bind fun reply => ?_
      split
      · exact Within.bind ⟨trivial, fun _ => trivial⟩ fun _ => trivial
      · exact ((eraseParticipant_upkeep addr).mono fun _ => Effect.Upkeep.passive).bind fun _ => ih true

-- What the two functions do once they have logged their decision, the reply to the
-- client included.
theorem commitDbRequest_carries (client : Option Client) (id : UInt32) (dead : Bool) :
    Within (Effect.Carries (.COMMIT id) RECORD_COMMIT_DONE id) ((carryCommit id dead).bind fun result =>
      (sendResultTo client result.1).bind fun _ => .ret result.2) := by
  have hupkeep : ∀ effect, Effect.Upkeep effect → Effect.Carries (.COMMIT id) RECORD_COMMIT_DONE id effect :=
    fun _ h => .inl h.passive
  have hcarry := carryCommit_within hupkeep (fun addr => .inr (.inr ⟨addr, rfl⟩)) (.inr (.inl rfl)) dead
  refine hcarry.bind fun result => ?_
  cases client with
  | none => trivial
  | some client => exact ⟨.inl trivial, fun _ => trivial⟩

theorem abortDbRequest_carries (client : Option Client) (id : UInt32) (dead : Bool) :
    Within (Effect.Carries (.ABORT id) RECORD_ABORT_DONE id) ((carryAbort id dead).bind fun dead =>
      (sendErrorTo client id).bind fun _ => .ret dead) := by
  have hupkeep : ∀ effect, Effect.Upkeep effect → Effect.Carries (.ABORT id) RECORD_ABORT_DONE id effect :=
    fun _ h => .inl h.passive
  have hcarry := carryAbort_within hupkeep (fun addr => .inr (.inr ⟨addr, rfl⟩)) (.inr (.inl rfl)) dead
  refine hcarry.bind fun dead => ?_
  cases client with
  | none => trivial
  | some client => exact ⟨.inl trivial, fun _ => trivial⟩

end Passive

section Recovery

theorem resolveRecords_within {kind : Effect → Prop} (hupkeep : ∀ effect, Effect.Upkeep effect → kind effect)
    (hlog : ∀ status id, kind (.log status id))
    (hcall : ∀ addr request, request.isDecision = true → kind (.call addr request)) (rs : List Record) :
    (resolveRecords rs).Within kind := by
  induction rs with
  | nil => trivial
  | cons r rest ih =>
      have habort : (abortDbRequest none r.id false).Within kind := by
        rw [abortDbRequest_eq]
        refine Within.bind ⟨hlog _ _, fun _ => trivial⟩ fun _ => ?_
        exact (carryAbort_within hupkeep (fun addr => hcall addr _ rfl) (hlog _ _) false).bind fun _ => trivial
      have hcommit : (commitDbRequest none r.id false).Within kind := by
        rw [commitDbRequest_eq]
        refine Within.bind ⟨hlog _ _, fun _ => trivial⟩ fun _ => ?_
        exact (carryCommit_within hupkeep (fun addr => hcall addr _ rfl) (hlog _ _) false).bind fun _ => trivial
      refine Within.bind ?_ fun _ => ih
      unfold resolveRecord
      split
      · exact habort.bind fun _ => trivial
      split
      · exact hcommit.bind fun _ => trivial
      · exact ⟨hupkeep _ trivial, fun _ => trivial⟩

-- recovery() takes the mutex only in init_participants.
theorem recovery_balanced : recovery.Balanced false := by
  have hinit := get_upkeep.bind fun c => initParticipantList_upkeep c.participantAddrs
  have hresolve : handleUnfinishedRecords.Within fun _ => True :=
    Within.bind ⟨trivial, fun _ => trivial⟩
      (resolveRecords_within (fun _ _ => trivial) (fun _ _ => trivial) fun _ _ _ => trivial)
  exact initNextId_upkeep.balanced.bind fun _ => hinit.critical_balanced.bind fun _ => hresolve.balanced

end Recovery

end Coordinator

end CloudLabs.Cdb
