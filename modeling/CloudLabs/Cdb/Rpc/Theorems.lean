import CloudLabs.Cdb.Rpc.Lawful
import CloudLabs.Interaction.Transition

namespace CloudLabs.Cdb

open Interaction MessagePack Parsing Rpc

namespace Request

variable {request : Request} {idx : Nat} {data : Bytes} {msg args : Object}

-- The handler that is bound to the name of a request makes the request of its arguments.
theorem exists_func (request : Request) : ∃ func, (funcs.find? fun func => func.name = request.name) = some func ∧
    func.count = request.args.length ∧
    ∀ items, List.Forall₂ (fun m item => m.object = .ok item) request.args items →
      func.request (.array items) = .ok (some request) := by
  cases request with
  | GET cmd =>
      refine ⟨_, rfl, rfl, ?_⟩
      intro items hitems
      have hcmd := getCommand_lawful.convertMember_eq hitems 0 rfl ⟨CMD_GET, ⟨[]⟩⟩
      simp only [arrayItems, pure_bind, hcmd]
      rfl
  | PREPARE_SET cmd =>
      refine ⟨_, rfl, rfl, ?_⟩
      intro items hitems
      have hcmd := setCommand_lawful.convertMember_eq hitems 0 rfl ⟨CMD_SET, ⟨0, [], []⟩⟩
      simp only [arrayItems, pure_bind, hcmd]
      rfl
  | PREPARE_DEL cmd =>
      refine ⟨_, rfl, rfl, ?_⟩
      intro items hitems
      have hcmd := delCommand_lawful.convertMember_eq hitems 0 rfl ⟨CMD_DEL, ⟨0, []⟩⟩
      simp only [arrayItems, pure_bind, hcmd]
      rfl
  | COMMIT id =>
      refine ⟨_, rfl, rfl, ?_⟩
      intro items hitems
      have hid := uint32_lawful.convertMember_eq hitems 0 rfl 0
      simp only [arrayItems, pure_bind, hid]
      rfl
  | ABORT id =>
      refine ⟨_, rfl, rfl, ?_⟩
      intro items hitems
      have hid := uint32_lawful.convertMember_eq hitems 0 rfl 0
      simp only [arrayItems, pure_bind, hid]
      rfl
  | SET_NEXT_ID val =>
      refine ⟨_, rfl, rfl, ?_⟩
      intro items hitems
      have hval := uint32_lawful.convertMember_eq hitems 0 rfl 0
      simp only [arrayItems, pure_bind, hval]
      rfl
  | NEXT_ID => exact ⟨_, rfl, rfl, fun _ _ => rfl⟩
  | HEARTBEAT => exact ⟨_, rfl, rfl, fun _ _ => rfl⟩
  | GET_SNAPSHOT => exact ⟨_, rfl, rfl, fun _ _ => rfl⟩
  | RECOVER data delKeys =>
      refine ⟨_, rfl, rfl, ?_⟩
      intro items hitems
      have hdata := vectorChar_lawful.convertMember_eq hitems 0 rfl []
      have hkeys := keySet_lawful.convertMember_eq hitems 1 rfl ∅
      simp only [arrayItems, pure_bind, hdata, hkeys]
      rfl

theorem toUInt64_ofNat (h : idx < 2 ^ 31) : (UInt32.ofNat idx).toUInt64 = UInt64.ofNat idx := by
  apply UInt64.toNat_inj.mp
  rw [UInt32.toNat_toUInt64, UInt32.toNat_ofNat', UInt64.toNat_ofNat']
  omega

-- A call is read as the request, under its number.
theorem dispatch_members (stale : UInt32) (h : idx < 2 ^ 31) (hmsg : objectMembers (request.members idx) = .ok msg) :
    dispatch stale msg = .ok (some (UInt32.ofNat idx), .request (some request)) := by
  obtain ⟨items, rfl, hitems⟩ := objectMembers_ok hmsg
  obtain _ | ⟨htype, _ | ⟨hid, _ | ⟨hname, _ | ⟨htuple, _ | _⟩⟩⟩⟩ := hitems
  cases htype
  rw [(int_lawful h).2] at hid
  cases hid
  have htype : convertInt8 (.positiveInteger 0) = .ok 0 := rfl
  have hid := uint32_lawful.convert (UInt32.ofNat idx) _ rfl
  rw [toUInt64_ofNat h] at hid
  have hname := string_lawful.convert _ _ hname
  obtain ⟨args, rfl, hargs⟩ := objectMembers_ok htuple
  obtain ⟨func, hfind, hcount, hfunc⟩ := request.exists_func
  have hlen : args.length = func.count := hcount ▸ hargs.length_eq.symm
  have hrequest : dispatchFunc stale request.name (.array args) = .ok (.request (some request)) := by
    unfold dispatchFunc
    rw [hfind]
    simp [viaArraySize, hlen, hfunc args hargs, bind, Except.bind, pure, Except.pure]
  simp only [dispatch, viaArraySize, List.length_cons, List.length_nil]
  simp [arrayItems, convertMember, htype, hid, hname, hrequest, bind, Except.bind, pure, Except.pure]

end Request

-- A return that has been made into an object is read back from it.
theorem Reply.as_object {reply : Reply} {obj : Object} (h : reply.object = .ok obj) :
    obj.fits 0 = true ∧ reply.as obj = .ok reply := by
  cases reply with
  | string value =>
      have hconvert := string_lawful.convert value obj h
      exact ⟨string_lawful.fits value obj h, by simp only [Reply.as, hconvert]; rfl⟩
  | bool value =>
      have hconvert := bool_lawful.convert value obj h
      exact ⟨bool_lawful.fits value obj h, by simp only [Reply.as, hconvert]; rfl⟩
  | uint32 value =>
      have hconvert := uint32_lawful.convert value obj h
      exact ⟨uint32_lawful.fits value obj h, by simp only [Reply.as, hconvert]; rfl⟩
  | vector value =>
      have hconvert := vectorChar_lawful.convert value obj h
      exact ⟨vectorChar_lawful.fits value obj h, by simp only [Reply.as, hconvert]; rfl⟩
  | void =>
      cases h
      exact ⟨rfl, rfl⟩

theorem Node.answer_object {n : Node} {request : Request} {reply : Reply} (h : (n.answer request).1 = some reply) :
    ∃ obj, reply.object = .ok obj := by
  unfold Node.answer at h
  cases hserve : n.serve request with
  | mk served last =>
      rw [hserve] at h
      cases served with
      | none => cases h
      | some found =>
          cases hobj : found.object with
          | error e =>
              simp only [hobj] at h
              cases h
          | ok obj =>
              simp only [hobj] at h
              cases h
              exact ⟨obj, hobj⟩

namespace Rpc

variable {n : Node} {call : Nat × Request} {reply : Nat × Reply} {msg : Object}

-- The message that a call is.
def callMessage (call : Nat × Request) : Object :=
  match objectMembers (call.2.members call.1) with
  | .ok msg => msg
  | .error _ => .nil

-- The message that the response with a reply is.
def replyMessage (reply : Nat × Reply) : Object :=
  match reply.2.object with
  | .ok result => .array [.positiveInteger 1, .positiveInteger (UInt32.ofNat reply.1).toUInt64, .nil, result]
  | .error _ => .nil

-- A call that can be made: the number is an int, and the arguments can be packed.
def Callable (call : Nat × Request) : Prop := call.1 < 2 ^ 31 ∧ (call.2.call call.1).isOk = true

-- How a call is resolved with the reply: there is no error, and the result is the reply as its
-- type.
def Resolves (reply : Nat × Reply) (resolved : UInt32 × Object × Object) : Prop :=
  resolved.1 = UInt32.ofNat reply.1 ∧ resolved.2.1 = .nil ∧ reply.2.as resolved.2.2 = .ok reply.2

theorem Callable.message (h : Callable call) : objectMembers (call.2.members call.1) = .ok (callMessage call) ∧
    call.2.buffer call.1 = (callMessage call).pack ∧ (callMessage call).fits DEPTH_LIMIT = true := by
  obtain ⟨hidx, hok⟩ := h
  have hlawful := List.forall_iff_forall_mem.mp (call.2.members_lawful hidx)
  have hpack := packMembers_eq hlawful
  unfold callMessage Request.buffer
  unfold Request.call at hok ⊢
  cases hmsg : objectMembers (call.2.members call.1) with
  | error e =>
      rw [hpack, hmsg] at hok
      cases hok
  | ok msg =>
      rw [hpack, hmsg]
      have hfits := objectMembers_fits hlawful (by simp [Request.members]) hmsg
      exact ⟨rfl, rfl, Object.fits_mono msg (by decide) hfits⟩

theorem replyMessage_fits (reply : Nat × Reply) : (replyMessage reply).fits DEPTH_LIMIT = true := by
  unfold replyMessage
  cases hobj : reply.2.object with
  | error e => rfl
  | ok obj =>
      have hfits := (Reply.as_object hobj).1
      have hdepth : 1 ≤ DEPTH_LIMIT := by decide
      apply Object.fits_mono _ hdepth
      simp [Object.fits, Object.fitsAll, hfits]

theorem response_replyMessage {obj : Object} (h : reply.2.object = .ok obj) :
    ∃ resolved, response (replyMessage reply) = .ok resolved ∧ Resolves reply resolved := by
  refine ⟨(UInt32.ofNat reply.1, .nil, obj), ?_, rfl, rfl, (Reply.as_object h).2⟩
  have hone : uint32.convert (.positiveInteger 1) = .ok 1 := rfl
  have hid := uint32_lawful.convert (UInt32.ofNat reply.1) _ rfl
  simp [replyMessage, h, response, arrayItems, convertMember, hone, hid, bind, Except.bind, pure, Except.pure]

theorem pack_replyMessage {obj : Object} (h : reply.2.object = .ok obj) :
    (replyMessage reply).pack = responseData (UInt32.ofNat reply.1) .nil obj := by
  have hone : packUint32 1 = packUint64 1 := Except.ok.inj (uint32_lawful.pack_eq 1)
  have hid : packUint32 (UInt32.ofNat reply.1) = packUint64 (UInt32.ofNat reply.1).toUInt64 :=
    Except.ok.inj (uint32_lawful.pack_eq _)
  simp only [replyMessage, h, Object.pack, Object.packAll_eq, List.length_cons, List.length_nil, List.flatMap_cons,
    List.flatMap_nil, List.append_nil, responseData, hone, hid, List.append_assoc]

-- A call is served as its request, and the response stands for the reply.
theorem serveMessage_callMessage (stale : UInt32) (h : Callable call) :
    serveMessage n stale (callMessage call) =
      ((n.answer call.2).1.map fun reply => (replyMessage (call.1, reply)).pack, (n.answer call.2).2) := by
  unfold serveMessage
  rw [Request.dispatch_members stale h.1 h.message.1]
  cases hreply : (n.answer call.2).1 with
  | none => simp only [hreply, Option.map_none]
  | some reply =>
      obtain ⟨obj, hobj⟩ := Node.answer_object hreply
      have hpack : (replyMessage (call.1, reply)).pack = responseData (UInt32.ofNat call.1) .nil obj :=
        pack_replyMessage hobj
      simp only [hreply, Option.map_some, hobj, hpack]

-- Each reply has been made into an object.
theorem answers_object {calls : List (Nat × Request)} (h : reply ∈ (answers n calls).1) :
    ∃ obj, reply.2.object = .ok obj := by
  induction calls generalizing n with
  | nil => cases h
  | cons call calls ih =>
      rcases List.mem_append.mp h with hfirst | hlater
      · obtain ⟨found, hfound, rfl⟩ := List.mem_map.mp hfirst
        exact Node.answer_object (Option.mem_toList.mp hfound)
      · exact ih hlater

theorem serveAll_callMessages {calls : List (Nat × Request)} (h : ∀ call ∈ calls, Callable call)
    {taken : List (UInt32 × Object)} (htaken : taken.map Prod.snd = calls.map callMessage) :
    serveAll n taken = ((answers n calls).1.map fun reply => (replyMessage reply).pack, (answers n calls).2) := by
  induction calls generalizing n taken with
  | nil =>
      rw [List.map_eq_nil_iff.mp htaken]
      rfl
  | cons call calls ih =>
      obtain ⟨⟨stale, msg⟩, later, rfl, hmsg, hlater⟩ := List.map_eq_cons_iff.mp htaken
      obtain rfl : msg = callMessage call := hmsg
      have hcalls := ih (n := (n.answer call.2).2) (fun other hother => h other (List.mem_cons_of_mem call hother)) hlater
      rw [serveAll, serveMessage_callMessage stale (h call List.mem_cons_self)]
      simp only [hcalls, answers, List.map_append, List.map_map, Option.toList_map]
      rfl

theorem serveAll_append (n : Node) (msgs : List (UInt32 × Object)) (stale : UInt32) (msg : Object) :
    serveAll n (msgs ++ [(stale, msg)]) =
      ((serveAll n msgs).1 ++ (serveMessage (serveAll n msgs).2 stale msg).1.toList,
        (serveMessage (serveAll n msgs).2 stale msg).2) := by
  induction msgs generalizing n with
  | nil => simp [serveAll]
  | cons first msgs ih => simp [serveAll, ih, List.append_assoc]

namespace Session

-- The messages have been taken up or are posted, in their order, the node is where those taken
-- up have left it, and the responses are written or posted.
def Accounts (s : Session) (n : Node) (msgs : List Object) : Prop :=
  ∃ taken sent, taken.map Prod.snd ++ s.posted = msgs ∧ s.node = (serveAll n taken).2 ∧
    sent ++ s.responses = (serveAll n taken).1 ∧ s.written = sent.flatten

-- The session accounts for what it has read, unless the unpacker has failed.
def Kept (n : Node) (s : Session) : Prop :=
  (∃ msgs e, unpacker.drain unpacker.start s.received = (msgs, .error e) ∧ s.node.alive = false) ∨
    ∃ msgs, unpacker.drain unpacker.start s.received = (msgs, .ok s.pac) ∧ s.Accounts n msgs

variable {s next : Session}

theorem kept_start (n : Node) : (start n).Kept n := by
  have hstart : unpacker.drain unpacker.start [] = ([], .ok (unpacker.start, [])) :=
    Machine.drain_of_waiting (unpacker.run_nil unpacker.start)
  exact Or.inr ⟨[], hstart, [], [], rfl, rfl, rfl, rfl⟩

theorem Kept.accounts (h : s.Kept n) (halive : s.node.alive = true) :
    ∃ msgs, unpacker.drain unpacker.start s.received = (msgs, .ok s.pac) ∧ s.Accounts n msgs := by
  rcases h with ⟨msgs, e, -, hdead⟩ | h
  · rw [halive] at hdead
    cases hdead
  · exact h

theorem kept_read (h : s.Kept n) (halive : s.node.alive = true) (chunk : Bytes) : (s.read chunk).Kept n := by
  obtain ⟨msgs, hdrain, taken, sent, hmsgs, hnode, hresponses, hwritten⟩ := h.accounts halive
  have happend := unpacker.drain_append unpacker.start s.received chunk
  rw [hdrain] at happend
  unfold read
  rcases hchunk : unpacker.drain s.pac.1 (s.pac.2 ++ chunk) with ⟨more, e | pac⟩
  · simp only [hchunk] at happend
    exact Or.inl ⟨_, e, happend, rfl⟩
  · simp only [hchunk] at happend
    refine Or.inr ⟨_, happend, taken, sent, ?_, hnode, hresponses, hwritten⟩
    rw [← hmsgs, List.append_assoc]

theorem kept_serve (h : s.Kept n) (halive : s.node.alive = true) {stale : UInt32} (hserve : s.serve stale = some next) :
    next.Kept n := by
  obtain ⟨msgs, hdrain, taken, sent, hmsgs, hnode, hresponses, hwritten⟩ := h.accounts halive
  unfold serve at hserve
  cases hposted : s.posted with
  | nil =>
      rw [hposted] at hserve
      cases hserve
  | cons msg posted =>
      rw [hposted] at hserve
      cases hserve
      refine Or.inr ⟨msgs, hdrain, taken ++ [(stale, msg)], sent, ?_, ?_, ?_, hwritten⟩
      · rw [List.map_append, List.append_assoc, ← hmsgs, hposted]
        rfl
      · rw [serveAll_append, ← hnode]
        rfl
      · rw [serveAll_append, ← hnode, ← hresponses, List.append_assoc]
        rfl

theorem kept_write (h : s.Kept n) (halive : s.node.alive = true) (hwrite : s.write = some next) : next.Kept n := by
  obtain ⟨msgs, hdrain, taken, sent, hmsgs, hnode, hresponses, hwritten⟩ := h.accounts halive
  unfold write at hwrite
  cases hposted : s.responses with
  | nil =>
      rw [hposted] at hwrite
      cases hwrite
  | cons data responses =>
      rw [hposted] at hwrite
      cases hwrite
      refine Or.inr ⟨msgs, hdrain, taken, sent ++ [data], hmsgs, hnode, ?_, ?_⟩
      · rw [← hresponses, hposted, List.append_assoc]
        rfl
      · rw [List.flatten_append, List.flatten_singleton, ← hwritten]

theorem kept_step (n : Node) : Interaction.Transition.Keeps step (Kept n) := by
  intro s move next hs hstep
  unfold step at hstep
  by_cases halive : s.node.alive = true
  · rw [if_pos halive] at hstep
    cases move with
    | read chunk =>
        cases hstep
        exact kept_read hs halive chunk
    | serve stale => exact kept_serve hs halive hstep
    | write => exact kept_write hs halive hstep
  · rw [if_neg halive] at hstep
    cases hstep

end Session

-- Responses that have come whole resolve calls with their replies.
theorem responses_replyMessages {replies : List (Nat × Reply)} (h : ∀ reply ∈ replies, ∃ obj, reply.2.object = .ok obj) :
    ∃ resolved, (replies.map replyMessage).mapM response = .ok resolved ∧ List.Forall₂ Resolves replies resolved := by
  induction replies with
  | nil => exact ⟨[], rfl, .nil⟩
  | cons reply replies ih =>
      obtain ⟨obj, hobj⟩ := h reply List.mem_cons_self
      obtain ⟨first, hfirst, hresolves⟩ := response_replyMessage hobj
      obtain ⟨rest, hrest, hall⟩ := ih fun other hother => h other (List.mem_cons_of_mem reply hother)
      refine ⟨first :: rest, ?_, .cons hresolves hall⟩
      rw [List.map_cons, List.mapM_cons, hfirst, hrest]
      rfl

-- Calls over a connection, whatever the chunks in which they and the responses arrive and
-- whenever the worker takes them up: of those that have come whole the first have been taken
-- up, and of the replies of the participant to these the first resolve the calls of the client.
theorem serves_calls {calls : List (Nat × Request)} (hcalls : ∀ call ∈ calls, Callable call) {n : Node}
    {moves : List Move} {s : Session} (hrun : Transition.run Session.step (Session.start n) moves = some s)
    (hreceived : s.received <+: calls.flatMap fun call => call.2.buffer call.1) {chunks : List Bytes}
    (hchunks : chunks.flatten <+: s.written) :
    ∃ whole taken heard resolved,
      Machine.Whole (fun call => call.2.buffer call.1) calls whole s.received ∧ taken <+: whole ∧
        s.node = (answers n taken).2 ∧ heard <+: (answers n taken).1 ∧ responses chunks = .ok resolved ∧
        List.Forall₂ Resolves heard resolved ∧ (s.posted = [] → taken = whole) ∧
        (s.responses = [] → chunks.flatten = s.written → heard = (answers n taken).1) := by
  have hkept := (Session.kept_step n).run (Session.kept_start n) hrun
  have hreads : ∀ call ∈ calls, unpacker.Reads (call.2.buffer call.1) (callMessage call) := by
    intro call hcall
    obtain ⟨-, hbuffer, hfits⟩ := (hcalls call hcall).message
    rw [hbuffer]
    exact reads_pack hfits
  have hflatten : [s.received].flatten = s.received := List.flatten_singleton
  obtain ⟨whole, last, hwhole, hreceive⟩ := Machine.receive_words hreads (hflatten ▸ hreceived)
  rw [Machine.receive_start, hflatten] at hreceive
  rw [hflatten] at hwhole
  rcases hkept with ⟨msgs, e, hdrain, -⟩ | ⟨msgs, hdrain, took, sent, hmsgs, hnode, hresponses, hwritten⟩
  · rw [hreceive] at hdrain
    cases hdrain
  · rw [hreceive] at hdrain
    obtain ⟨rfl, -⟩ := Prod.mk.inj hdrain
    obtain ⟨taken, left, rfl, htook, hleft⟩ := List.map_eq_append_iff.mp hmsgs.symm
    have htaken : ∀ call ∈ taken, Callable call := by
      intro call hcall
      apply hcalls call
      exact hwhole.of_items.subset (List.mem_append_left _ hcall)
    rw [serveAll_callMessages htaken htook.symm] at hnode hresponses
    obtain ⟨replied, unwritten, hreplied, rfl, hunwritten⟩ := List.map_eq_append_iff.mp hresponses.symm
    have hobjects : ∀ reply ∈ replied, ∃ obj, reply.2.object = .ok obj := by
      intro reply hreply
      have hmem : reply ∈ (answers n taken).1 := by
        rw [hreplied]
        exact List.mem_append_left _ hreply
      exact answers_object hmem
    rw [hwritten, ← List.flatMap_def] at hchunks
    have hback : ∀ reply ∈ replied, unpacker.Reads (replyMessage reply).pack (replyMessage reply) := by
      intro reply _
      exact reads_pack (replyMessage_fits reply)
    obtain ⟨heard, last', hheard, hheardReceive⟩ := Machine.receive_words hback hchunks
    obtain ⟨resolved, hresolved, hall⟩ := responses_replyMessages fun reply hreply =>
      hobjects reply (hheard.of_items.subset hreply)
    refine ⟨taken ++ left, taken, heard, resolved, hwhole, List.prefix_append taken left, hnode, ?_, ?_, hall, ?_, ?_⟩
    · rw [hreplied]
      exact hheard.of_items.trans (List.prefix_append replied unwritten)
    · unfold responses
      rw [hheardReceive]
      simp only [hresolved]
      rfl
    · intro hposted
      rw [hposted, List.map_eq_nil_iff] at hleft
      rw [hleft, List.append_nil]
    · intro hnone hall'
      rw [hnone, List.map_eq_nil_iff] at hunwritten
      rw [hreplied, hunwritten, List.append_nil]
      exact hheard.of_all (hall'.trans (hwritten.trans List.flatMap_def.symm))

theorem serves_calls_first :
    let n : Node := ⟨⟨∅, 5, [], ⟨[], [], 5, ∅, ∅⟩⟩, true⟩
    ∃ s, Transition.run Session.step (Session.start n)
        [.read (Request.NEXT_ID.buffer 1), .serve 0, .write] = some s ∧
      ∃ taken heard resolved, taken = [(1, Request.NEXT_ID)] ∧ heard = (answers n taken).1 ∧
        responses [s.written] = .ok resolved ∧ List.Forall₂ Resolves heard resolved := by
  intro n
  have hcalls : ∀ call ∈ [(1, Request.NEXT_ID)], Callable call := by
    intro call hcall
    cases List.mem_singleton.mp hcall
    exact ⟨by decide, rfl⟩
  have hreads : unpacker.Reads (Request.NEXT_ID.buffer 1) (callMessage (1, Request.NEXT_ID)) := by
    obtain ⟨-, hbuffer, hfits⟩ := (hcalls _ List.mem_cons_self).message
    rw [hbuffer]
    exact reads_pack hfits
  have hdrain : unpacker.drain unpacker.start (Request.NEXT_ID.buffer 1) =
      ([callMessage (1, Request.NEXT_ID)], .ok (unpacker.start, [])) := by
    have hrun := hreads []
    rw [List.append_nil] at hrun
    rw [Machine.drain_of_value hrun, Machine.drain_of_waiting (unpacker.run_nil unpacker.start)]
  have hread : (Session.start n).step (.read (Request.NEXT_ID.buffer 1)) =
      some { Session.start n with
        posted := [callMessage (1, Request.NEXT_ID)]
        received := Request.NEXT_ID.buffer 1 } := by
    change some ((Session.start n).read _) = _
    unfold Session.read
    simp only [Session.start, List.nil_append, hdrain]
  obtain ⟨s, hrun, hposted, hnone, hreceived⟩ : ∃ s, Transition.run Session.step (Session.start n)
      [.read (Request.NEXT_ID.buffer 1), .serve 0, .write] = some s ∧
        s.posted = [] ∧ s.responses = [] ∧ s.received = Request.NEXT_ID.buffer 1 :=
    ⟨_, (Transition.run_cons hread [.serve 0, .write]).trans rfl, rfl, rfl, rfl⟩
  have hchunks : [s.written].flatten = s.written := List.flatten_singleton
  have hprefix : [s.written].flatten <+: s.written := by rw [hchunks]
  obtain ⟨whole, taken, heard, resolved, hwhole, -, -, -, hresponses, hall, htaken, hheard⟩ :=
    serves_calls hcalls hrun (hreceived ▸ List.prefix_refl _) hprefix
  have hcalls : whole = [(1, Request.NEXT_ID)] := hwhole.of_all hreceived
  exact ⟨s, hrun, taken, heard, resolved, (htaken hposted).trans hcalls, hheard hnone hchunks, hresponses, hall⟩

end Rpc

end CloudLabs.Cdb
