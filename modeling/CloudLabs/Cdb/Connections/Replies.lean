import CloudLabs.Cdb.Connections.Tokens

namespace CloudLabs.Cdb.Connections

open TcpServer

-- All that the client sent was dispatched, and the connection goes on so.
def Client.ReadsOn (client : Client) (after : NextRead) : Prop :=
  handleReads (.read Option.none) client.received = (client.commands, after)

-- The last chunk that the client sent was not dispatched yet.
def Client.ReadsLast (client : Client) (prevData : Option Bytes) (data : Bytes) : Prop :=
  ∃ chunks, client.received = chunks ++ [data] ∧
    handleReads (.read Option.none) chunks = (client.commands, .read prevData)

-- The replies that were queued are for commands up to this one.
def Client.RepliedTo (client : Client) (number : Nat) : Prop :=
  number ≤ client.commands.length ∧ ∀ reply ∈ client.replies, reply.1 ≤ number

structure Client.Sound (client : Client) : Prop where
  reads : ∀ prevData ∈ client.readRequests, client.ReadsOn (.read prevData)
  commands : client.commands <+: (handleReads (.read Option.none) client.received).1
  replies : (client.replies.map Prod.fst).Pairwise (· ≤ ·)
  numbers : ∀ reply ∈ client.replies, reply.1 ≤ client.commands.length
  sent : client.sent ++ client.writeRequests.map WriteRequest.data = client.replies.map Prod.snd

section Jobs

-- What a job relies on about client `c`.
def Request.Sound (client : Client) : Request → Prop
  | .read prevData => client.ReadsOn (.read prevData)
  | .write request => client.RepliedTo request.number

def Held.Sound (c : Nat) (client : Client) : Held → Prop
  | .submit c' request => c' = c → request.Sound client
  | .setCallback c' request => c' = c → request.Sound client
  | .push c' request => c' = c → request.Sound client
  | _ => True

def Action.Sound (c : Nat) (client : Client) : Action → Prop
  | .submit c' request => c' = c → request.Sound client
  | .onReadAvailable c' (.success data) (some prevData) => c' = c → client.ReadsLast prevData data
  | .handleDbRequests c' prevData (.success data) => c' = c → client.ReadsLast prevData data
  | .dispatch c' number cmds after =>
      c' = c → client.ReadsOn after ∧ client.commands.drop number = cmds ∧ client.RepliedTo number
  | _ => True

def Job.Sound (c : Nat) (client : Client) (job : Job) : Prop :=
  (∀ held, job.held = some held → held.Sound c client) ∧ ∀ action ∈ job.todo, action.Sound c client

variable {c : Nat} {client client' : Client} {job job' : Job}

theorem Client.ReadsOn.congr (hreceived : client'.received = client.received)
    (hcommands : client'.commands = client.commands) {after : NextRead} (h : client.ReadsOn after) :
    client'.ReadsOn after := by
  unfold ReadsOn at h ⊢
  rw [hreceived, hcommands]
  exact h

theorem Client.ReadsLast.congr (hreceived : client'.received = client.received)
    (hcommands : client'.commands = client.commands) {prevData : Option Bytes} {data : Bytes}
    (h : client.ReadsLast prevData data) : client'.ReadsLast prevData data := by
  unfold ReadsLast at h ⊢
  rw [hreceived, hcommands]
  exact h

theorem Client.RepliedTo.congr (hcommands : client'.commands = client.commands)
    (hreplies : client'.replies = client.replies) {number : Nat} (h : client.RepliedTo number) :
    client'.RepliedTo number := by
  unfold RepliedTo at h ⊢
  rw [hcommands, hreplies]
  exact h

-- What a request relies on, but for the replies, which only a job counts on that
-- carries out the read callback.
theorem Request.Sound.congr {request : Request} (hreceived : client'.received = client.received)
    (hcommands : client'.commands = client.commands)
    (hreplies : client'.replies = client.replies ∨ .reads c ∉ request.marks c)
    (h : request.Sound client) : request.Sound client' := by
  cases request with
  | read prevData => exact Client.ReadsOn.congr hreceived hcommands h
  | write request =>
      obtain hreplies | hreads := hreplies
      · exact Client.RepliedTo.congr hcommands hreplies h
      · simp [Request.marks] at hreads

theorem Held.Sound.congr {held : Held} (hreceived : client'.received = client.received)
    (hcommands : client'.commands = client.commands)
    (hreplies : client'.replies = client.replies ∨ .reads c ∉ held.marks)
    (h : held.Sound c client) : held.Sound c client' := by
  cases held with
  | submit c' request =>
      rintro rfl
      exact (h rfl).congr hreceived hcommands hreplies
  | setCallback c' request =>
      rintro rfl
      exact (h rfl).congr hreceived hcommands hreplies
  | push c' request =>
      rintro rfl
      exact (h rfl).congr hreceived hcommands hreplies
  | _ => trivial

theorem Action.Sound.congr {action : Action} (hreceived : client'.received = client.received)
    (hcommands : client'.commands = client.commands)
    (hreplies : client'.replies = client.replies ∨ .reads c ∉ action.marks)
    (h : action.Sound c client) : action.Sound c client' := by
  cases action with
  | submit c' request =>
      rintro rfl
      exact (h rfl).congr hreceived hcommands hreplies
  | onReadAvailable c' result cb =>
      cases result with
      | failure => trivial
      | success data =>
          cases cb with
          | none => trivial
          | some prevData => exact fun heq => (h heq).congr hreceived hcommands
  | handleDbRequests c' prevData result =>
      cases result with
      | failure => trivial
      | success data => exact fun heq => (h heq).congr hreceived hcommands
  | dispatch c' number cmds after =>
      rintro rfl
      obtain ⟨hreads, hcmds, hreplied⟩ := h rfl
      refine ⟨hreads.congr hreceived hcommands, hcommands ▸ hcmds, ?_⟩
      obtain hreplies | hmark := hreplies
      · exact hreplied.congr hcommands hreplies
      · cases after <;> simp [Action.marks] at hmark
  | _ => trivial

theorem Job.Sound.congr (hreceived : client'.received = client.received)
    (hcommands : client'.commands = client.commands)
    (hreplies : client'.replies = client.replies ∨ .reads c ∉ job.marks)
    (h : job.Sound c client) : job.Sound c client' := by
  refine ⟨fun held hheld => ?_, fun action haction => ?_⟩
  · exact (h.1 held hheld).congr hreceived hcommands
      (hreplies.imp_right fun hmark hreads => hmark (mem_marks_held hheld hreads))
  · exact (h.2 action haction).congr hreceived hcommands
      (hreplies.imp_right fun hmark hreads => hmark (mem_marks_todo haction hreads))

-- A job that neither carries out the read callback nor has the read of the
-- client relies on nothing about it.
theorem Request.sound_of_not_mem {request : Request} (hreads : .reads c ∉ request.marks c)
    (htoken : .token c ∉ request.marks c) : request.Sound client := by
  cases request with
  | read prevData => simp [Request.marks] at htoken
  | write request => simp [Request.marks] at hreads

theorem Held.sound_of_not_mem {held : Held} (hreads : .reads c ∉ held.marks)
    (htoken : .token c ∉ held.marks) : held.Sound c client := by
  cases held with
  | submit c' request =>
      rintro rfl
      exact Request.sound_of_not_mem hreads htoken
  | setCallback c' request =>
      rintro rfl
      exact Request.sound_of_not_mem hreads htoken
  | push c' request =>
      rintro rfl
      exact Request.sound_of_not_mem hreads htoken
  | _ => trivial

theorem Action.sound_of_not_mem {action : Action} (hreads : .reads c ∉ action.marks)
    (htoken : .token c ∉ action.marks) : action.Sound c client := by
  cases action with
  | submit c' request =>
      rintro rfl
      exact Request.sound_of_not_mem hreads htoken
  | onReadAvailable c' result cb =>
      cases result with
      | failure => trivial
      | success data =>
          cases cb with
          | none => trivial
          | some prevData =>
              rintro rfl
              simp [Action.marks] at hreads
  | handleDbRequests c' prevData result =>
      cases result with
      | failure => trivial
      | success data =>
          rintro rfl
          simp [Action.marks] at hreads
  | dispatch c' number cmds after =>
      rintro rfl
      cases after <;> simp [Action.marks] at hreads
  | _ => trivial

theorem Job.sound_of_not_mem (hreads : .reads c ∉ job.marks) (htoken : .token c ∉ job.marks) :
    job.Sound c client :=
  ⟨fun _ hheld => Held.sound_of_not_mem (fun h => hreads (mem_marks_held hheld h))
      fun h => htoken (mem_marks_held hheld h),
    fun _ haction => Action.sound_of_not_mem (fun h => hreads (mem_marks_todo haction h))
      fun h => htoken (mem_marks_todo haction h)⟩

end Jobs

section Step

variable {c : Nat} {s next : Shared} {busy : Kind × Nat → Bool} {job job' : Job}

-- What a new client does not change it leaves as it was.
theorem Shared.setClient_field {α : Type} {other : Nat} {client : Client} (field : Client → α)
    (h : field client = field (s.clients other)) :
    field ((s.setClient other client).clients c) = field (s.clients c) := by
  by_cases hother : c = other
  · subst hother
    rw [Shared.setClient_clients_self, h]
  · rw [Shared.setClient_clients_ne _ hother]

-- Behind an action of rank 2 a job only completes.
theorem Action.sound_of_rank {action : Action} {client : Client} (h : action.rank < 2) :
    action.Sound c client := by
  cases action with
  | submit c' request =>
      have hrank := request.rank_eq
      simp only [Action.rank] at h
      omega
  | complete => trivial
  | _ => simp [Action.rank] at h

theorem sound_behind {rank : Nat} {rest : List Action} {client : Client} (hrank : rank = 2)
    (h : (rank :: rest.map Action.rank).Pairwise follows) :
    ∀ action ∈ rest, action.Sound c client := by
  intro action haction
  have hlow := (List.pairwise_cons.mp h).1 action.rank (List.mem_map_of_mem haction)
  unfold follows at hlow
  exact Action.sound_of_rank (by omega)

theorem Job.Shaped.sound_behind_held {held : Held} {client : Client} (h : job.Shaped)
    (hheld : job.held = some held) (hrank : held.rank = 2) :
    ∀ action ∈ job.todo, action.Sound c client := by
  unfold Job.Shaped at h
  rw [ranks_of_held hheld] at h
  exact sound_behind hrank h

theorem Job.Shaped.sound_behind_todo {action : Action} {rest : List Action} {client : Client}
    (h : job.Shaped) (hheld : job.held = none) (htodo : job.todo = action :: rest)
    (hrank : action.rank = 2) : ∀ action ∈ rest, action.Sound c client := by
  unfold Job.Shaped at h
  rw [ranks_of_todo hheld htodo] at h
  exact sound_behind hrank h

-- A reply that is queued for a command counts for those behind it.
theorem Client.RepliedTo.push {client : Client} {request : WriteRequest} {number : Nat}
    (h : client.RepliedTo number) (hle : request.number ≤ number) :
    (client.push (.write request)).RepliedTo number := by
  refine ⟨h.1, fun reply hreply => ?_⟩
  obtain hold | hnew := List.mem_append.mp hreply
  · exact h.2 reply hold
  · rw [List.mem_singleton.mp hnew]
    exact hle

theorem Action.Sound.push {action : Action} {client : Client} {request : WriteRequest}
    (h : action.Sound c client) (hle : ∀ number, action.number? = some number → request.number ≤ number) :
    action.Sound c (client.push (.write request)) := by
  cases action with
  | submit c' request' =>
      rintro rfl
      cases request' with
      | read prevData => exact Client.ReadsOn.congr rfl rfl (h rfl)
      | write request' => exact Client.RepliedTo.push (h rfl) (hle _ rfl)
  | dispatch c' number cmds after =>
      rintro rfl
      obtain ⟨hreads, hcmds, hreplied⟩ := h rfl
      exact ⟨hreads.congr rfl rfl, hcmds, hreplied.push (hle _ rfl)⟩
  | onReadAvailable c' result cb =>
      cases result with
      | failure => trivial
      | success data =>
          cases cb with
          | none => trivial
          | some prevData => exact fun heq => (h heq).congr rfl rfl
  | handleDbRequests c' prevData result =>
      cases result with
      | failure => trivial
      | success data => exact fun heq => (h heq).congr rfl rfl
  | _ => trivial

theorem Job.Sound.released {held : Option Held} {client : Client} (new : List Action)
    (hrest : ∀ action ∈ job.todo, action.Sound c client)
    (hheld : ∀ held', held = some held' → held'.Sound c client)
    (hnew : ∀ action ∈ new, action.Sound c client) :
    Job.Sound c client { job with held := held, todo := new ++ job.todo } := by
  refine ⟨hheld, fun action haction => ?_⟩
  obtain h | h := List.mem_append.mp haction
  · exact hnew action h
  · exact hrest action h

theorem Job.Sound.replaced {client : Client} {rest : List Action} (new : List Action)
    (hheld : job.held = none) (hrest : ∀ action ∈ rest, action.Sound c client)
    (hnew : ∀ action ∈ new, action.Sound c client) :
    Job.Sound c client { job with todo := new ++ rest } := by
  refine ⟨fun held hsome => ?_, fun action haction => ?_⟩
  · cases hheld.symm.trans hsome
  · obtain h | h := List.mem_append.mp haction
    · exact hnew action h
    · exact hrest action h

theorem Job.Sound.rest {client : Client} {action : Action} {rest : List Action}
    (h : job.Sound c client) (htodo : job.todo = action :: rest) :
    action.Sound c client ∧ ∀ action ∈ rest, action.Sound c client :=
  ⟨h.2 action (htodo ▸ List.mem_cons_self), fun other hother =>
    h.2 other (htodo ▸ List.mem_cons_of_mem _ hother)⟩

theorem Job.Sound.served {kind : Kind} {c' : Nat} {last : Bool} {client : Client} {action : Action}
    (hrest : ∀ action ∈ job.todo, action.Sound c client) (haction : action.Sound c client) :
    (job.served kind c' last action).Sound c client := by
  refine Job.Sound.released [action] hrest (fun held hheld => ?_) (by simpa using haction)
  cases last with
  | true =>
      cases hheld
      trivial
  | false => cases hheld

theorem Job.Sound.setClient {other : Nat} (client : Client)
    (hreceived : client.received = (s.clients other).received)
    (hcommands : client.commands = (s.clients other).commands)
    (hreplies : client.replies = (s.clients other).replies) (h : job.Sound c (s.clients c)) :
    job.Sound c ((s.setClient other client).clients c) :=
  h.congr (Shared.setClient_field Client.received hreceived)
    (Shared.setClient_field Client.commands hcommands)
    (.inl (Shared.setClient_field Client.replies hreplies))

theorem Job.Sound.step (h : job.Sound c (s.clients c)) (hshaped : job.Shaped) (hnumbered : job.Numbered)
    (hclient : (s.clients c).Sound) (hstep : JobStep s busy job next job') :
    job'.Sound c (next.clients c) := by
  cases hstep with
  | readNothing result hheld hnone =>
      exact Job.Sound.released [.onReadAvailable _ result none] h.2 (fun _ h => nomatch h) (by simp [Action.Sound])
  | @received other cb requests data hheld hrequests =>
      refine Job.Sound.served (hshaped.sound_behind_held hheld rfl) ?_
      rintro rfl
      rw [Shared.setClient_clients_self]
      exact ⟨_, rfl, hclient.reads cb (by simp [hrequests])⟩
  | recvFailed hheld hrequests =>
      exact Job.Sound.served (hshaped.sound_behind_held hheld rfl) trivial
  | wroteNothing success hheld hnone =>
      exact Job.Sound.released [.onWriteAvailable _ success false] h.2 (fun _ h => nomatch h)
        (by simp [Action.Sound])
  | sent success hheld hrequests =>
      exact Job.Sound.served (hshaped.sound_behind_held hheld rfl) trivial
  | cleared hheld => exact Job.Sound.released [] h.2 (fun _ h => nomatch h) (by simp)
  | @refused other request hheld hconnected =>
      refine Job.Sound.released _ h.2 (fun _ h => nomatch h) ?_
      cases request <;> simp [Job.notConnected, Action.Sound]
  | submitted hheld hconnected =>
      have hrequest := h.1 _ hheld
      refine Job.Sound.released [] h.2 (fun held hsome => ?_) (by simp)
      cases hsome
      exact hrequest
  | callbackSet hheld =>
      have hrequest := h.1 _ hheld
      refine Job.Sound.released [] h.2 (fun held hsome => ?_) (by simp)
      cases hsome
      exact hrequest
  | @pushed other request hheld =>
      refine Job.Sound.released [] ?_ (fun _ h => nomatch h) (by simp)
      cases request with
      | read prevData => exact (h.setClient ((s.clients other).push (.read prevData)) rfl rfl rfl).2
      | write request =>
          by_cases hother : c = other
          · subst hother
            rw [Shared.setClient_clients_self]
            unfold Job.Numbered at hnumbered
            rw [numbers_of_held hheld] at hnumbered
            intro action haction
            refine (h.2 action haction).push fun number hnumber => ?_
            exact (List.pairwise_cons.mp hnumbered).1 number
              (List.mem_filterMap.mpr ⟨action, haction, hnumber⟩)
          · rw [Shared.setClient_clients_ne _ hother]
            exact h.2
  | serves hheld htodo hbusy =>
      refine ⟨fun held hsome => ?_, (h.rest htodo).2⟩
      cases hsome
      trivial
  | submits hheld htodo hbusy =>
      refine ⟨fun held hsome => ?_, (h.rest htodo).2⟩
      cases hsome
      exact (h.rest htodo).1
  | @accepted fd rest hheld htodo hfree =>
      refine Job.Sound.replaced [.submit s.accepted (.read none)] hheld
        (hshaped.sound_behind_todo hheld htodo rfl) ?_
      simp only [List.mem_singleton, forall_eq, Action.Sound]
      rintro rfl
      show ((s.setClient s.accepted (.accepted fd)).clients s.accepted).ReadsOn (.read none)
      rw [Shared.setClient_clients_self]
      rfl
  | @readAvailable other result cb rest hheld htodo =>
      refine Job.Sound.replaced _ hheld (h.rest htodo).2 ?_
      have hhead := (h.rest htodo).1
      cases result with
      | failure => cases cb <;> simp [Job.afterRead, Action.Sound]
      | success data =>
          cases cb with
          | none => simp [Job.afterRead]
          | some prevData => simpa [Job.afterRead, Action.Sound] using hhead
  | @writeAvailable other success disconnects rest hheld htodo =>
      refine Job.Sound.replaced _ hheld (h.rest htodo).2 ?_
      cases success <;> cases disconnects <;> simp [Job.afterWrite, Action.Sound]
  | @handledFailure other prevData rest hheld htodo =>
      exact Job.Sound.replaced [.disconnect other false, .returned other] hheld (h.rest htodo).2
        (by simp [Action.Sound])
  | @parsed other prevData data rest hheld htodo =>
      refine Job.Sound.replaced [.dispatch _ _ _ _, .returned _] hheld
        (hshaped.sound_behind_todo hheld htodo rfl) ?_
      have hhead := (h.rest htodo).1
      simp only [List.mem_cons, List.not_mem_nil, or_false, forall_eq_or_imp, forall_eq]
      refine ⟨?_, trivial⟩
      rintro rfl
      rw [Shared.setClient_clients_self]
      obtain ⟨chunks, hreceived, hreads⟩ := hhead rfl
      refine ⟨?_, List.drop_left, ?_, fun reply hreply => hclient.numbers reply hreply⟩
      · unfold Client.ReadsOn
        rw [hreceived, handleReads_append, hreads, handleReads_singleton]
      · rw [List.length_append]
        omega
  | @dispatchedAll other number after rest hheld htodo =>
      refine Job.Sound.replaced [.submit _ _] hheld (h.rest htodo).2 ?_
      have hhead := (h.rest htodo).1
      simp only [List.mem_singleton, forall_eq]
      intro heq
      obtain ⟨hreads, -, hreplied⟩ := hhead heq
      cases after with
      | read prevData => exact hreads
      | closed => exact hreplied
  | @replied other number cmd cmds after rest data disconnects hheld htodo =>
      refine Job.Sound.replaced [.submit _ _, .dispatch _ _ _ _] hheld (h.rest htodo).2 ?_
      have hhead := (h.rest htodo).1
      simp only [List.mem_cons, List.not_mem_nil, or_false, forall_eq_or_imp, forall_eq]
      exact ⟨fun heq => (hhead heq).2.2, hhead⟩
  | @dispatched other number cmd cmds after rest hheld htodo =>
      refine Job.Sound.replaced [.dispatch _ _ _ _] hheld (h.rest htodo).2 ?_
      have hhead := (h.rest htodo).1
      simp only [List.mem_singleton, forall_eq]
      intro heq
      obtain ⟨hreads, hcmds, -, hreplied⟩ := hhead heq
      have hlength := congrArg List.length hcmds
      rw [List.length_drop, List.length_cons] at hlength
      refine ⟨hreads, ?_, by omega, fun reply hreply => Nat.le_succ_of_le (hreplied reply hreply)⟩
      rw [← List.tail_drop, hcmds]
      rfl
  | threw hheld htodo => exact Job.Sound.replaced [] hheld (by simp) (by simp)
  | returned hheld htodo => exact Job.Sound.replaced [] hheld (h.rest htodo).2 (by simp)
  | @disconnects other wait rest hheld htodo =>
      exact Job.Sound.replaced [.setDisconnected other wait] hheld (h.rest htodo).2 (by simp [Action.Sound])
  | notConnected hheld htodo => exact Job.Sound.replaced [] hheld (h.rest htodo).2 (by simp)
  | @setDisconnected other wait rest hheld htodo =>
      have hkept := h.setClient { s.clients other with isConnected := false } rfl rfl rfl
      have hnew := Job.Sound.replaced ([.clearRequests .rd other, .clearRequests .wr other,
        .unregister other, .close other] ++ if wait then [.waitOnRemoval other] else []) hheld
        (hkept.rest htodo).2 (by cases wait <;> simp [Action.Sound])
      rw [List.append_assoc] at hnew
      exact hnew
  | @requestsCleared kind other rest hheld htodo hbusy =>
      refine Job.Sound.replaced [] hheld ?_ (by simp)
      cases kind with
      | rd => exact ((h.setClient ((s.clients other).clear .rd) rfl rfl rfl).rest htodo).2
      | wr => exact ((h.setClient ((s.clients other).clear .wr) rfl rfl rfl).rest htodo).2
  | @unregistered other rest hheld htodo =>
      rw [(s.unregister_clients other).1]
      exact Job.Sound.replaced [] hheld (h.rest htodo).2 (by simp)
  | @closed other rest hheld htodo =>
      have hkept := h.setClient { s.clients other with fd := -1 } rfl rfl rfl
      exact Job.Sound.replaced [] hheld (hkept.rest htodo).2 (by simp)
  | removed hheld htodo hremoved => exact Job.Sound.replaced [] hheld (h.rest htodo).2 (by simp)
  | completed hheld htodo hrole => exact Job.Sound.replaced [] hheld (by simp) (by simp)
  | ended hheld htodo hrole => exact Job.Sound.replaced [] hheld (by simp) (by simp)

theorem Client.accepted_sound (fd : Fd) : (Client.accepted fd).Sound :=
  ⟨fun _ hmem => (nomatch hmem), List.nil_prefix, .nil, fun _ hmem => (nomatch hmem), rfl⟩

theorem Client.none_sound : Client.none.Sound :=
  ⟨fun _ hmem => (nomatch hmem), List.nil_prefix, .nil, fun _ hmem => (nomatch hmem), rfl⟩

theorem Client.Sound.step (h : (s.clients c).Sound) (hjob : job.Sound c (s.clients c))
    (hgone : .gone c ∉ job.marks) (hqueue : .token c ∈ job.marks → (s.clients c).readRequests = [])
    (hsingle : (s.clients c).readRequests.length ≤ 1) (hstep : JobStep s busy job next job') :
    (next.clients c).Sound := by
  have hset : ∀ (other : Nat) (client : Client), (c = other → client.Sound) →
      ((s.setClient other client).clients c).Sound := by
    intro other client hclient
    by_cases hother : c = other
    · rw [hother, Shared.setClient_clients_self]
      exact hclient hother
    · rw [Shared.setClient_clients_ne _ hother]
      exact h
  cases hstep with
  | @received other cb requests data hheld hrequests =>
      refine hset other _ ?_
      rintro rfl
      have hlast : requests = [] := by
        rw [hrequests, List.length_cons] at hsingle
        exact List.length_eq_zero_iff.mp (by omega)
      refine ⟨?_, ?_, h.replies, h.numbers, h.sent⟩
      · rw [hlast]
        intro _ hmem
        cases hmem
      · rw [handleReads_append]
        exact h.commands.trans (List.prefix_append _ _)
  | @recvFailed other cb requests hheld hrequests =>
      refine hset other _ ?_
      rintro rfl
      refine ⟨fun prevData hmem => ?_, h.commands, h.replies, h.numbers, h.sent⟩
      exact h.reads prevData (hrequests ▸ List.mem_cons_of_mem _ hmem)
  | @sent other request requests success hheld hrequests =>
      refine hset other _ ?_
      rintro rfl
      refine ⟨h.reads, h.commands, h.replies, h.numbers, ?_⟩
      have hsent := h.sent
      rw [hrequests, List.map_cons] at hsent
      rw [List.append_assoc]
      exact hsent
  | @pushed other request hheld =>
      refine hset other _ ?_
      rintro rfl
      have hrequest := hjob.1 _ hheld rfl
      cases request with
      | read prevData =>
          refine ⟨fun prevData' hmem => ?_, h.commands, h.replies, h.numbers, h.sent⟩
          obtain hold | hnew := List.mem_append.mp hmem
          · exact h.reads prevData' hold
          · rw [List.mem_singleton.mp hnew]
            exact hrequest
      | write request =>
          obtain ⟨hle, hall⟩ := hrequest
          refine ⟨h.reads, h.commands, ?_, fun reply hmem => ?_, ?_⟩
          · show ((_ ++ [(request.number, request.data)]).map Prod.fst).Pairwise (· ≤ ·)
            rw [List.map_append]
            refine List.pairwise_append.mpr ⟨h.replies, List.pairwise_singleton _ _, ?_⟩
            intro number hnumber last hlast
            obtain ⟨reply, hreply, rfl⟩ := List.mem_map.mp hnumber
            rw [List.mem_singleton.mp hlast]
            exact hall reply hreply
          · obtain hold | hnew := List.mem_append.mp hmem
            · exact h.numbers reply hold
            · rw [List.mem_singleton.mp hnew]
              exact hle
          · show (s.clients c).sent ++ (_ ++ [request]).map WriteRequest.data =
              (_ ++ [(request.number, request.data)]).map Prod.snd
            rw [List.map_append, List.map_append, ← List.append_assoc, h.sent]
            rfl
  | @accepted fd rest hheld htodo hfree =>
      exact hset s.accepted (.accepted fd) fun _ => Client.accepted_sound fd
  | @parsed other prevData data rest hheld htodo =>
      refine hset other _ ?_
      rintro rfl
      have hempty := hqueue (mem_marks_head htodo (by simp [Action.marks]))
      obtain ⟨chunks, hreceived, hreads⟩ := (hjob.rest htodo).1 rfl
      refine ⟨?_, ?_, h.replies, fun reply hmem => ?_, h.sent⟩
      · show ∀ prevData' ∈ (s.clients c).readRequests, _
        rw [hempty]
        intro _ hmem
        cases hmem
      · show _ <+: (handleReads _ (s.clients c).received).1
        rw [hreceived, handleReads_append, hreads, handleReads_singleton]
      · rw [List.length_append]
        exact Nat.le_add_right_of_le (h.numbers reply hmem)
  | @setDisconnected other wait rest hheld htodo =>
      refine hset other _ ?_
      rintro rfl
      exact ⟨h.reads, h.commands, h.replies, h.numbers, h.sent⟩
  | @requestsCleared kind other rest hheld htodo hbusy =>
      refine hset other _ ?_
      rintro rfl
      exact absurd (mem_marks_head htodo (by simp [Action.marks])) hgone
  | @closed other rest hheld htodo =>
      refine hset other _ ?_
      rintro rfl
      exact ⟨h.reads, h.commands, h.replies, h.numbers, h.sent⟩
  | @unregistered other rest hheld htodo =>
      rw [(s.unregister_clients other).1]
      exact h
  | @completed kind fd callback rest hheld htodo hrole =>
      rw [(s.complete_clients kind fd).1]
      exact h
  | _ => exact h

end Step

namespace System

variable {s : System}

-- What was queued and sent for the clients that are connected is in order, and
-- every job goes on from there.
structure Replying (s : System) : Prop where
  clients : ∀ c, (s.clients c).isConnected = true → (s.clients c).Sound
  jobs : ∀ i c, (s.clients c).isConnected = true → (s.jobs i).Sound c (s.clients c)

theorem live_of_reads {job : Job} {c : Nat} (h : .reads c ∈ job.marks) : job.live := by
  unfold Job.marks at h
  obtain hrole | hrest := List.mem_append.mp h
  · unfold Role.marks at hrole
    split at hrole <;> simp at hrole
  · by_contra hended
    unfold Job.live at hended
    push Not at hended
    rw [hended.1, hended.2] at hrest
    cases hrest

-- One job at a time carries out the read callback of a client that is connected.
theorem reads_unique (hplaced : s.Placed) (hexecuting : s.Executing) {i j c : Nat}
    (hconnected : (s.clients c).isConnected = true) (hi : .reads c ∈ (s.jobs i).marks)
    (hj : .reads c ∈ (s.jobs j).marks) : i = j := by
  obtain ⟨fd, hirole⟩ := hplaced.reads i c hi
  obtain ⟨fd', hjrole⟩ := hplaced.reads j c hj
  have hilive := live_of_reads hi
  have hjlive := live_of_reads hj
  have hifd := hplaced.tasks i .rd fd c hirole hilive hconnected
  have hjfd := hplaced.tasks j .rd fd' c hjrole hjlive hconnected
  rw [hifd] at hirole
  rw [hjfd] at hjrole
  exact hexecuting.unique i j .rd _ _ _ hirole hjrole hilive hjlive

-- A step that changes what a client received or dispatched is one of the job that
-- carries out its read callback and has its read, or the queue has it.
theorem sound_fields_step {s next : Shared} {busy : Kind × Nat → Bool} {job job' : Job} (c : Nat)
    (hstep : JobStep s busy job next job') :
    (c = s.accepted ∧ ∃ fd, next = s.accept fd) ∨
      (.reads c ∈ job.marks ∧ (.token c ∈ job.marks ∨ (s.clients c).readRequests ≠ [])) ∨
      ((next.clients c).received = (s.clients c).received ∧
        (next.clients c).commands = (s.clients c).commands ∧
        ((next.clients c).replies = (s.clients c).replies ∨ .reads c ∈ job.marks)) := by
  have hset : ∀ (other : Nat) (client : Client), client.received = (s.clients other).received →
      client.commands = (s.clients other).commands → client.replies = (s.clients other).replies →
      ((s.setClient other client).clients c).received = (s.clients c).received ∧
        ((s.setClient other client).clients c).commands = (s.clients c).commands ∧
        (((s.setClient other client).clients c).replies = (s.clients c).replies ∨
          .reads c ∈ job.marks) := fun other client hreceived hcommands hreplies =>
    ⟨Shared.setClient_field Client.received hreceived, Shared.setClient_field Client.commands hcommands,
      .inl (Shared.setClient_field Client.replies hreplies)⟩
  have hother : ∀ (other : Nat) (client : Client), c ≠ other →
      ((s.setClient other client).clients c).received = (s.clients c).received ∧
        ((s.setClient other client).clients c).commands = (s.clients c).commands ∧
        (((s.setClient other client).clients c).replies = (s.clients c).replies ∨
          .reads c ∈ job.marks) := by
    intro other client hne
    rw [Shared.setClient_clients_ne _ hne]
    exact ⟨rfl, rfl, .inl rfl⟩
  cases hstep with
  | @received other cb requests data hheld hrequests =>
      by_cases heq : c = other
      · subst heq
        exact .inr (.inl ⟨mem_marks_held hheld (by simp [Held.marks]), .inr (by simp [hrequests])⟩)
      · exact .inr (.inr (hother _ _ heq))
  | recvFailed hheld hrequests => exact .inr (.inr (hset _ _ rfl rfl rfl))
  | sent success hheld hrequests => exact .inr (.inr (hset _ _ rfl rfl rfl))
  | @pushed other request hheld =>
      cases request with
      | read prevData => exact .inr (.inr (hset _ _ rfl rfl rfl))
      | write request =>
          by_cases heq : c = other
          · subst heq
            have hreads : Mark.reads c ∈ job.marks :=
              mem_marks_held hheld (by simp [Held.marks, Request.marks])
            exact .inr (.inr ⟨Shared.setClient_field Client.received rfl,
              Shared.setClient_field Client.commands rfl, .inr hreads⟩)
          · exact .inr (.inr (hother _ _ heq))
  | @accepted fd rest hheld htodo hfree =>
      by_cases heq : c = s.accepted
      · exact .inl ⟨heq, fd, rfl⟩
      · exact .inr (.inr (hother _ (.accepted fd) heq))
  | @parsed other prevData data rest hheld htodo =>
      by_cases heq : c = other
      · subst heq
        exact .inr (.inl ⟨mem_marks_head htodo (by simp [Action.marks]),
          .inl (mem_marks_head htodo (by simp [Action.marks]))⟩)
      · exact .inr (.inr (hother _ _ heq))
  | setDisconnected hheld htodo => exact .inr (.inr (hset _ _ rfl rfl rfl))
  | @requestsCleared kind other rest hheld htodo hbusy =>
      cases kind with
      | rd => exact .inr (.inr (hset other ((s.clients other).clear .rd) rfl rfl rfl))
      | wr => exact .inr (.inr (hset other ((s.clients other).clear .wr) rfl rfl rfl))
  | closed hheld htodo => exact .inr (.inr (hset _ _ rfl rfl rfl))
  | @unregistered other rest hheld htodo =>
      rw [(s.unregister_clients other).1]
      exact .inr (.inr ⟨rfl, rfl, .inl rfl⟩)
  | @completed kind fd callback rest hheld htodo hrole =>
      rw [(s.complete_clients kind fd).1]
      exact .inr (.inr ⟨rfl, rfl, .inl rfl⟩)
  | _ => exact .inr (.inr ⟨rfl, rfl, .inl rfl⟩)

theorem Replying.step_job (h : s.Replying) (hexecuting : s.Executing) (hplaced : s.Placed)
    (hordered : s.Ordered) (htokens : s.Tokens) {i : Nat} {shared : Shared} {job : Job}
    (hstep : JobStep s.toShared s.busy (s.jobs i) shared job) :
    Replying { s.setJob i job with toShared := shared } := by
  -- a client that is connected after the step was so before it, or it is new
  have hback : ∀ c, (shared.clients c).isConnected = true →
      (c = s.accepted ∧ ∃ fd, shared = s.toShared.accept fd) ∨ (s.clients c).isConnected = true := by
    intro c hconnected
    obtain ⟨fd, heq, -, hnext⟩ | ⟨hbefore, -⟩ := connected_step hstep (hplaced.gone i) hconnected
    · exact .inl ⟨heq, fd, hnext⟩
    · exact .inr hbefore
  have hclient : ∀ c, (shared.clients c).isConnected = true → (s.clients c).Sound := by
    intro c hconnected
    obtain ⟨heq, -⟩ | hbefore := hback c hconnected
    · rw [heq, hplaced.absent _ (Nat.le_refl _)]
      exact Client.none_sound
    · exact h.clients c hbefore
  have hjob : ∀ j c, (shared.clients c).isConnected = true → (s.jobs j).Sound c (s.clients c) := by
    intro j c hconnected
    obtain ⟨heq, -⟩ | hbefore := hback c hconnected
    · have hunknown : Mark.mentions c ∉ (s.jobs j).marks := fun hmark =>
        Nat.lt_irrefl _ (heq ▸ hplaced.mentions j c hmark)
      exact Job.sound_of_not_mem (fun hmark => hunknown (mentions_client hmark))
        fun hmark => hunknown (mentions_client hmark)
    · exact h.jobs j c hbefore
  refine ⟨fun c hconnected => ?_, fun j c hconnected => ?_⟩
  · refine (hclient c hconnected).step (hjob i c hconnected) (fun hmark => ?_) (htokens.queue i c)
      (htokens.single c) hstep
    have hmentions := hplaced.mentions i c (mentions_of_gone hmark)
    have hgone := hplaced.not_connected_step hstep hmentions (hplaced.gone i c hmark)
    have hconnected : (shared.clients c).isConnected = true := hconnected
    rw [hgone] at hconnected
    cases hconnected
  · have hconnected : (shared.clients c).isConnected = true := hconnected
    show ((s.setJob i job).jobs j).Sound c (shared.clients c)
    by_cases hj : j = i
    · rw [hj, setJob_jobs_self]
      exact (hjob i c hconnected).step (hordered.shaped i) (hordered.numbered i) (hclient c hconnected) hstep
    · rw [setJob_jobs_ne hj]
      obtain ⟨heq, -⟩ | hbefore := hback c hconnected
      · have hunknown : Mark.mentions c ∉ (s.jobs j).marks := fun hmark =>
          Nat.lt_irrefl _ (heq ▸ hplaced.mentions j c hmark)
        exact Job.sound_of_not_mem (fun hmark => hunknown (mentions_client hmark))
          fun hmark => hunknown (mentions_client hmark)
      have hreader : Mark.reads c ∈ (s.jobs i).marks → Mark.reads c ∉ (s.jobs j).marks :=
        fun hi hother => hj (reads_unique hplaced hexecuting hbefore hother hi)
      obtain ⟨heq, -⟩ | ⟨hreads, htoken⟩ | ⟨hreceived, hcommands, hreplies⟩ := sound_fields_step c hstep
      · rw [heq, hplaced.absent _ (Nat.le_refl _)] at hbefore
        cases hbefore
      · refine Job.sound_of_not_mem (hreader hreads) fun hother => ?_
        obtain htoken | hne := htoken
        · exact hj (htokens.unique j i c hother htoken)
        · exact hne (htokens.queue j c hother)
      · exact (hjob j c hconnected).congr hreceived hcommands (hreplies.imp_right hreader)

theorem Replying.of_jobs {next : System} (h : s.Replying) (hjobs : next.jobs = s.jobs)
    (hclients : next.clients = s.clients) : next.Replying := by
  refine ⟨?_, ?_⟩
  · rw [hclients]
    exact h.clients
  · rw [hjobs, hclients]
    exact h.jobs

theorem Replying.spawn (h : s.Replying) {job : Job} (hjob : ∀ c, job.Sound c (s.clients c)) :
    (s.spawn job).Replying :=
  ⟨h.clients, forall_setJob (P := fun _ job => ∀ c, (s.clients c).isConnected = true →
    job.Sound c (s.clients c)) (fun c _ => hjob c) fun j _ => h.jobs j⟩

theorem Replying.dispatch (h : s.Replying) (ready : Kind → List Fd) (fd : Fd) (kind : Kind) :
    (dispatchKind ready s fd kind).Replying := by
  obtain heq | ⟨info, callback, -, -, -, heq⟩ := dispatch_eq ready fd kind s
  · rw [heq]
    exact h
  · rw [heq]
    have hset : Replying { s with tracked := (s.tracked.dispatch kind fd).1 } := h.of_jobs rfl rfl
    refine hset.spawn fun c => ⟨fun _ hheld => (nomatch hheld), fun action haction => ?_⟩
    simp only [Job.ofTask, List.mem_cons, List.not_mem_nil, or_false] at haction
    cases callback <;> obtain rfl | rfl := haction <;> trivial

theorem Replying.stepPoll (h : s.Replying) (ready : Option Ready) : (s.stepPoll ready).Replying := by
  apply stepPoll_keeps (P := Replying) _ _ _ ready h
  · exact fun _ _ _ h => h.of_jobs rfl rfl
  · exact fun ready _ fd kind h => h.dispatch ready fd kind
  · exact fun _ _ h => h.of_jobs rfl rfl

end System

end CloudLabs.Cdb.Connections
