import CloudLabs.Cdb.Coordinator.Outline.Theorems
import CloudLabs.Cdb.Record.Open
import CloudLabs.Cdb.System.Turn

namespace CloudLabs.Cdb

open Interaction Participant

-- A request that changes nothing.
def Request.asks : Request → Bool
  | .GET _ | .NEXT_ID | .HEARTBEAT | .GET_SNAPSHOT => true
  | _ => false

theorem Participant.handle_asks {p q : Participant} {request : Request} {answer : Reply}
    (hask : request.asks) (h : p.handle request = .ok (answer, q)) : q = p := by
  cases request with
  | GET cmd => cases h; rfl
  | NEXT_ID => cases h; rfl
  | HEARTBEAT => cases h; rfl
  | GET_SNAPSHOT => cases h; rfl
  | _ => cases hask

theorem Participant.prepare_of_handle {p q : Participant} {request : Request} {cmd : Command} {answer : Reply}
    (hrequest : request.prepares = some cmd) (h : p.handle request = .ok (answer, q)) :
    ∃ ok, answer = .bool ok ∧ p.prepare cmd = .ok (ok, q) := by
  cases request with
  | PREPARE_SET set =>
      cases hrequest
      obtain ⟨⟨ok, p'⟩, hprepare, hanswer⟩ := ok_of_bind h
      obtain ⟨rfl, rfl⟩ := Prod.mk.inj (Except.ok.inj hanswer)
      exact ⟨ok, rfl, hprepare⟩
  | PREPARE_DEL del =>
      cases hrequest
      obtain ⟨⟨ok, p'⟩, hprepare, hanswer⟩ := ok_of_bind h
      obtain ⟨rfl, rfl⟩ := Prod.mk.inj (Except.ok.inj hanswer)
      exact ⟨ok, rfl, hprepare⟩
  | _ => cases hrequest

namespace World

variable {w u : World} {addr : Addr} {request : Request} {choice : Choice} {reply : Option Reply}

-- What a call makes of each participant.
theorem participant_cases (hcall : w.call addr request choice = some (reply, u)) (other : Addr) :
    (u.node other).participant = (w.node other).participant ∨ other = addr ∧
      ((∃ answer, (w.node other).participant.handle request = .ok (answer, (u.node other).participant)) ∨
        ∃ stage cmd, request.prepares = some cmd ∧
          (u.node other).participant = (w.node other).participant.prepareRefused stage cmd) := by
  obtain ⟨hother, hnode⟩ := call_participant hcall
  by_cases heq : other = addr
  · subst heq
    rcases hnode with ⟨hsame, -⟩ | ⟨answer, hhandle, -⟩ | ⟨stage, cmd, hprepares, -, hrefused⟩
    · exact .inl hsame
    · exact .inr ⟨rfl, .inl ⟨answer, hhandle⟩⟩
    · exact .inr ⟨rfl, .inr ⟨stage, cmd, hprepares, hrefused⟩⟩
  · rw [hother other heq]
    exact .inl rfl

theorem participant_of_ask (hask : request.asks) (hcall : w.call addr request choice = some (reply, u))
    (other : Addr) : (u.node other).participant = (w.node other).participant := by
  rcases participant_cases hcall other with hsame | ⟨-, ⟨answer, hhandle⟩ | ⟨stage, cmd, hprepares, -⟩⟩
  · exact hsame
  · exact handle_asks hask hhandle
  · cases request with
    | PREPARE_SET _ => cases hask
    | PREPARE_DEL _ => cases hask
    | _ => cases hprepares

-- A PREPARE moves nobody.
theorem nextId_of_prepare {cmd : Command} (hrequest : request.prepares = some cmd)
    (hcall : w.call addr request choice = some (reply, u)) (other : Addr) :
    (u.node other).participant.nextId = (w.node other).participant.nextId := by
  rcases participant_cases hcall other with hsame | ⟨-, ⟨answer, hhandle⟩ | ⟨stage, cmd', -, hrefused⟩⟩
  · rw [hsame]
  · obtain ⟨ok, -, hprepare⟩ := prepare_of_handle hrequest hhandle
    exact (prepare_ok hprepare).2.1
  · rw [hrefused]
    exact (prepareRefused_keeps _ stage cmd').2.1

instance {r : World → World → Prop} [hr : Remote r] {id : UInt32} {status : RecordStatus} :
    Withstands r fun w => w.coordinator.rManager.Opens id status :=
  ⟨fun h hq => by rwa [hr.coordinator hq]⟩

end World

-- A contract that leaves to everybody what is neither the coordinator nor a
-- participant.
class Calm (K : Contract Effect World) : Prop extends Plain K where
  quiet_of : ∀ {w u : World}, u.coordinator = w.coordinator →
    (∀ addr, (u.node addr).participant = (w.node addr).participant) → K.quiet w u
  always_of : ∀ {w u : World}, K.always w → K.quiet w u → K.always u

variable {T : Terms Effect World Choice} {K : Contract Effect World} {role : Role} {mode : Mode}
  {pre : World → Prop}

section Knowing

variable [Plain K]

theorem call_knows {post : Option Reply → World → Prop} {addr : Addr} {request : Request}
    (hmode : mode ≠ .outside) (hpre : K.Stable role mode pre) (hpost : ∀ reply, K.Stable role mode (post reply))
    (hissue : ∀ w, pre w → K.issue mode w (.call addr request))
    (h : ∀ w choice reply u, pre w → T.effect mode w (.call addr request) choice →
      w.call addr request choice = some (reply, u) → K.always u ∧ post reply u) :
    Triple cdb T K role mode pre (Coordinator.call addr request) post := by
  refine Coordinator.call_triple hpre hpost fun w _ hw => ⟨hissue w hw, fun choice reply u hT hcall => ?_⟩
  obtain ⟨halways, hu⟩ := h w choice reply u hw hT hcall
  exact ⟨halways, give_inside hmode w u, hu⟩

theorem log_knows {post : World → Prop} {status : RecordStatus} {id : UInt32} (hmode : mode ≠ .outside)
    (hpre : K.Stable role mode pre) (hpost : K.Stable role mode post)
    (hissue : ∀ w, pre w → K.issue mode w (.log status id))
    (h : ∀ w, pre w → T.effect mode w (.log status id) .done →
      K.always (w.log status id) ∧ post (w.log status id)) :
    Triple cdb T K role mode pre (Coordinator.log status id) fun _ => post := by
  refine Coordinator.log_triple hpre hpost fun w _ hw => ⟨hissue w hw, fun hT => ?_⟩
  obtain ⟨halways, hu⟩ := h w hw hT
  exact ⟨halways, give_inside hmode _ _, hu⟩

theorem modify_knows {post : World → Prop} {change : Coordinator → Coordinator} (hmode : mode ≠ .outside)
    (hpre : K.Stable role mode pre) (hpost : K.Stable role mode post)
    (hissue : ∀ w, pre w → K.issue mode w (.modify change))
    (h : ∀ w : World, pre w → K.always { w with coordinator := change w.coordinator } ∧
      post { w with coordinator := change w.coordinator }) :
    Triple cdb T K role mode pre (Coordinator.modify change) fun _ => post := by
  refine Coordinator.modify_triple hpre hpost fun w _ hw => ⟨hissue w hw, ?_⟩
  obtain ⟨halways, hu⟩ := h w hw
  exact ⟨halways, give_inside hmode _ _, hu⟩

end Knowing

section Keeping

variable [Calm K]

-- What is told to a client changes nothing.
theorem sendResult_keeps (hmode : mode ≠ .outside) (A : K.Assertion) (client : Client) (msg : Bytes)
    (hissue : ∀ w, A w → K.issue mode w (.sendResult client msg)) :
    Triple cdb T K role mode A (Coordinator.sendResult client msg) fun _ => A :=
  Coordinator.sendResult_triple (A.stable hmode) (A.stable hmode) fun w ha hw => by
    have hq : K.quiet w { w with replies := (client, msg) :: w.replies } := Calm.quiet_of rfl fun _ => rfl
    have halways := Calm.always_of ha hq
    exact ⟨hissue w hw, halways, give_inside hmode _ _, A.quiet hw hq halways⟩

theorem sendError_keeps (hmode : mode ≠ .outside) (A : K.Assertion) (client : Client) (id : Option UInt32)
    (hissue : ∀ w, A w → K.issue mode w (.sendError client id)) :
    Triple cdb T K role mode A (Coordinator.sendError client id) fun _ => A :=
  Coordinator.sendError_triple (A.stable hmode) (A.stable hmode) fun w ha hw => by
    have hq : K.quiet w { w with
      replies := (client, errorString) :: w.replies, refused := id.toList ++ w.refused } :=
      Calm.quiet_of rfl fun _ => rfl
    have halways := Calm.always_of ha hq
    exact ⟨hissue w hw, halways, give_inside hmode _ _, A.quiet hw hq halways⟩

theorem sendError_outside (client : Client) (id : Option UInt32)
    (hissue : ∀ w, K.always w → K.issue .outside w (.sendError client id)) :
    Triple cdb T K role .outside (fun _ => True) (Coordinator.sendError client id) fun _ _ => True :=
  Coordinator.sendError_triple (.const _) (.const _) fun w ha _ => by
    have hq : K.quiet w { w with
      replies := (client, errorString) :: w.replies, refused := id.toList ++ w.refused } :=
      Calm.quiet_of rfl fun _ => rfl
    exact ⟨hissue w ha, Calm.always_of ha hq, ⟨fun _ => hq, fun _ => Plain.follow _ _⟩, trivial⟩

-- What is asked changes nothing.
theorem quiet_of_ask {w u : World} {addr : Addr} {request : Request} {choice : Choice} {reply : Option Reply}
    (hask : request.asks) (hcall : w.call addr request choice = some (reply, u)) : K.quiet w u :=
  Calm.quiet_of (World.call_touches hcall).coordinator (World.participant_of_ask hask hcall)

theorem ask_keeps {request : Request} (hmode : mode ≠ .outside) (A : K.Assertion) (addr : Addr)
    (hask : request.asks) (hissue : ∀ w, A w → K.issue mode w (.call addr request)) :
    Triple cdb T K role mode A (Coordinator.call addr request) fun _ => A :=
  Coordinator.call_triple (A.stable hmode) (fun _ => A.stable hmode) fun w ha hw => by
    refine ⟨hissue w hw, fun choice reply u _ hcall => ?_⟩
    have hq : K.quiet w u := quiet_of_ask hask hcall
    have halways := Calm.always_of ha hq
    exact ⟨halways, give_inside hmode _ _, A.quiet hw hq halways⟩

theorem ask_outside {request : Request} (addr : Addr) (hask : request.asks)
    (hissue : ∀ w, K.always w → K.issue .outside w (.call addr request)) :
    Triple cdb T K role .outside (fun _ => True) (Coordinator.call addr request) fun _ _ => True :=
  Coordinator.call_triple (.const _) (fun _ => .const _) fun w ha _ => by
    refine ⟨hissue w ha, fun choice reply u _ hcall => ?_⟩
    have hq : K.quiet w u := quiet_of_ask hask hcall
    exact ⟨Calm.always_of ha hq, ⟨fun _ => hq, fun _ => Plain.follow _ _⟩, trivial⟩

end Keeping

end CloudLabs.Cdb
