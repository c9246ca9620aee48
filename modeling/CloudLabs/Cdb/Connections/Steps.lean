import CloudLabs.Cdb.Connections

namespace CloudLabs.Cdb.Connections

open TcpServer

-- What a step of a job can do to what the threads share and to the job.
inductive JobStep (s : Shared) (busy : Kind × Nat → Bool) (job : Job) : Shared → Job → Prop
  | readNothing {c : Nat} (result : ReadResult) (hheld : job.held = some (.serve .rd c))
      (hnone : (s.clients c).readRequests = []) :
      JobStep s busy job s
        { job with held := none, todo := .onReadAvailable c result none :: job.todo }
  | received {c : Nat} {cb : Option Bytes} {requests : List (Option Bytes)} (data : Bytes)
      (hheld : job.held = some (.serve .rd c)) (hrequests : (s.clients c).readRequests = cb :: requests) :
      JobStep s busy job
        (s.setClient c { s.clients c with
          readRequests := requests, received := (s.clients c).received ++ [data] })
        (job.served .rd c requests.isEmpty (.onReadAvailable c (.success data) (some cb)))
  | recvFailed {c : Nat} {cb : Option Bytes} {requests : List (Option Bytes)}
      (hheld : job.held = some (.serve .rd c)) (hrequests : (s.clients c).readRequests = cb :: requests) :
      JobStep s busy job (s.setClient c { s.clients c with readRequests := requests })
        (job.served .rd c requests.isEmpty (.onReadAvailable c .failure (some cb)))
  | wroteNothing {c : Nat} (success : Bool) (hheld : job.held = some (.serve .wr c))
      (hnone : (s.clients c).writeRequests = []) :
      JobStep s busy job s
        { job with held := none, todo := .onWriteAvailable c success false :: job.todo }
  | sent {c : Nat} {request : WriteRequest} {requests : List WriteRequest} (success : Bool)
      (hheld : job.held = some (.serve .wr c))
      (hrequests : (s.clients c).writeRequests = request :: requests) :
      JobStep s busy job
        (s.setClient c { s.clients c with
          writeRequests := requests, sent := (s.clients c).sent ++ [request.data] })
        (job.served .wr c requests.isEmpty (.onWriteAvailable c success request.disconnects))
  | cleared {kind : Kind} {c : Nat} (hheld : job.held = some (.clearCallback kind c)) :
      JobStep s busy job (s.setCallback kind c none) { job with held := none }
  | refused {c : Nat} {request : Request} (hheld : job.held = some (.submit c request))
      (hconnected : (s.clients c).isConnected = false) :
      JobStep s busy job s { job with held := none, todo := Job.notConnected c request ++ job.todo }
  | submitted {c : Nat} {request : Request} (hheld : job.held = some (.submit c request))
      (hconnected : (s.clients c).isConnected = true) :
      JobStep s busy job s { job with held := some (.setCallback c request) }
  | callbackSet {c : Nat} {request : Request} (hheld : job.held = some (.setCallback c request)) :
      JobStep s busy job (s.setCallback request.kind c (some (.client c)))
        { job with held := some (.push c request) }
  | pushed {c : Nat} {request : Request} (hheld : job.held = some (.push c request)) :
      JobStep s busy job (s.setClient c ((s.clients c).push request)) { job with held := none }
  | serves {kind : Kind} {c : Nat} {rest : List Action} (hheld : job.held = none)
      (htodo : job.todo = .serve kind c :: rest) (hbusy : busy (kind, c) = false) :
      JobStep s busy job s { job with held := some (.serve kind c), todo := rest }
  | submits {c : Nat} {request : Request} {rest : List Action} (hheld : job.held = none)
      (htodo : job.todo = .submit c request :: rest) (hbusy : busy (request.kind, c) = false) :
      JobStep s busy job s { job with held := some (.submit c request), todo := rest }
  | accepted {fd : Fd} {rest : List Action} (hheld : job.held = none)
      (htodo : job.todo = .accept :: rest) (hfree : s.isFree fd = true) :
      JobStep s busy job (s.accept fd) { job with todo := .submit s.accepted (.read none) :: rest }
  | readAvailable {c : Nat} {result : ReadResult} {cb : Option (Option Bytes)} {rest : List Action}
      (hheld : job.held = none) (htodo : job.todo = .onReadAvailable c result cb :: rest) :
      JobStep s busy job s { job with todo := Job.afterRead c result cb ++ rest }
  | writeAvailable {c : Nat} {success disconnects : Bool} {rest : List Action} (hheld : job.held = none)
      (htodo : job.todo = .onWriteAvailable c success disconnects :: rest) :
      JobStep s busy job s { job with todo := Job.afterWrite c success disconnects ++ rest }
  | handledFailure {c : Nat} {prevData : Option Bytes} {rest : List Action} (hheld : job.held = none)
      (htodo : job.todo = .handleDbRequests c prevData .failure :: rest) :
      JobStep s busy job s { job with todo := .disconnect c false :: .returned c :: rest }
  | parsed {c : Nat} {prevData : Option Bytes} {data : Bytes} {rest : List Action}
      (hheld : job.held = none) (htodo : job.todo = .handleDbRequests c prevData (.success data) :: rest) :
      JobStep s busy job
        (s.setClient c { s.clients c with
          commands := (s.clients c).commands ++ (handleDbRequests prevData data).1 })
        { job with
          todo := .dispatch c (s.clients c).commands.length (handleDbRequests prevData data).1
            (handleDbRequests prevData data).2 :: .returned c :: rest }
  | dispatchedAll {c number : Nat} {after : NextRead} {rest : List Action} (hheld : job.held = none)
      (htodo : job.todo = .dispatch c number [] after :: rest) :
      JobStep s busy job s { job with todo := .submit c (Job.afterDispatch number after) :: rest }
  | replied {c number : Nat} {cmd : Command} {cmds : List Command} {after : NextRead}
      {rest : List Action} (data : Bytes) (disconnects : Bool) (hheld : job.held = none)
      (htodo : job.todo = .dispatch c number (cmd :: cmds) after :: rest) :
      JobStep s busy job s { job with
        todo := .submit c (.write ⟨data, disconnects, number⟩) ::
          .dispatch c number (cmd :: cmds) after :: rest }
  | dispatched {c number : Nat} {cmd : Command} {cmds : List Command} {after : NextRead}
      {rest : List Action} (hheld : job.held = none)
      (htodo : job.todo = .dispatch c number (cmd :: cmds) after :: rest) :
      JobStep s busy job s { job with todo := .dispatch c (number + 1) cmds after :: rest }
  | threw {c number : Nat} {cmd : Command} {cmds : List Command} {after : NextRead}
      {rest : List Action} (hheld : job.held = none)
      (htodo : job.todo = .dispatch c number (cmd :: cmds) after :: rest) :
      JobStep s busy job s { job with todo := [] }
  | returned {c : Nat} {rest : List Action} (hheld : job.held = none)
      (htodo : job.todo = .returned c :: rest) :
      JobStep s busy job s { job with todo := rest }
  | disconnects {c : Nat} {wait : Bool} {rest : List Action} (hheld : job.held = none)
      (htodo : job.todo = .disconnect c wait :: rest) :
      JobStep s busy job s { job with todo := .setDisconnected c wait :: rest }
  | notConnected {c : Nat} {wait : Bool} {rest : List Action} (hheld : job.held = none)
      (htodo : job.todo = .disconnect c wait :: rest) :
      JobStep s busy job s { job with todo := rest }
  | setDisconnected {c : Nat} {wait : Bool} {rest : List Action} (hheld : job.held = none)
      (htodo : job.todo = .setDisconnected c wait :: rest) :
      JobStep s busy job (s.setClient c { s.clients c with isConnected := false })
        { job with todo := .clearRequests .rd c :: .clearRequests .wr c :: .unregister c :: .close c ::
          ((if wait then [.waitOnRemoval c] else []) ++ rest) }
  | requestsCleared {kind : Kind} {c : Nat} {rest : List Action} (hheld : job.held = none)
      (htodo : job.todo = .clearRequests kind c :: rest) (hbusy : busy (kind, c) = false) :
      JobStep s busy job (s.setClient c ((s.clients c).clear kind)) { job with todo := rest }
  | unregistered {c : Nat} {rest : List Action} (hheld : job.held = none)
      (htodo : job.todo = .unregister c :: rest) :
      JobStep s busy job (s.unregister c) { job with todo := rest }
  | closed {c : Nat} {rest : List Action} (hheld : job.held = none)
      (htodo : job.todo = .close c :: rest) :
      JobStep s busy job (s.setClient c { s.clients c with fd := -1 }) { job with todo := rest }
  | removed {c : Nat} {rest : List Action} (hheld : job.held = none)
      (htodo : job.todo = .waitOnRemoval c :: rest) (hremoved : s.tracked.get (s.clients c).fd = none) :
      JobStep s busy job s { job with todo := rest }
  | completed {kind : Kind} {fd : Fd} {callback : Callback} {rest : List Action}
      (hheld : job.held = none) (htodo : job.todo = .complete :: rest)
      (hrole : job.role = .task kind fd callback) :
      JobStep s busy job (s.complete kind fd) { job with todo := [] }
  | ended {rest : List Action} (hheld : job.held = none) (htodo : job.todo = .complete :: rest)
      (hrole : job.role = .caller) :
      JobStep s busy job s { job with todo := [] }

variable {s next : Shared} {busy : Kind × Nat → Bool} {job job' : Job} {choice : Choice}

theorem jobStep_of_stepHeld {held : Held} (hheld : job.held = some held)
    (h : job.stepHeld s choice held = some (next, job')) : JobStep s busy job next job' := by
  cases held with
  | serve kind c =>
      cases kind with
      | rd =>
          simp only [Job.stepHeld, Job.doRead] at h
          split at h
          · next hnone =>
              cases h
              exact .readNothing _ hheld hnone
          · next hnone =>
              cases h
              exact .readNothing _ hheld hnone
          · next cb requests data hrequests =>
              split at h
              · cases h
                exact .received data hheld hrequests
              · cases h
          · next cb requests hrequests =>
              cases h
              exact .recvFailed hheld hrequests
          · cases h
      | wr =>
          simp only [Job.stepHeld, Job.doWrite] at h
          split at h
          · next hnone =>
              cases h
              exact .wroteNothing _ hheld hnone
          · next hnone =>
              cases h
              exact .wroteNothing _ hheld hnone
          · next request requests hrequests =>
              cases h
              exact .sent true hheld hrequests
          · next request requests hrequests =>
              cases h
              exact .sent false hheld hrequests
          · cases h
  | clearCallback kind c =>
      cases h
      exact .cleared hheld
  | submit c request =>
      simp only [Job.stepHeld] at h
      split at h
      · next hconnected =>
          cases h
          exact .submitted hheld hconnected
      · next hconnected =>
          cases h
          exact .refused hheld (by simpa using hconnected)
  | setCallback c request =>
      cases h
      exact .callbackSet hheld
  | push c request =>
      cases h
      exact .pushed hheld

theorem jobStep_of_stepAction {action : Action} {rest : List Action} (hheld : job.held = none)
    (htodo : job.todo = action :: rest)
    (h : job.stepAction s busy choice rest action = some (next, job')) :
    JobStep s busy job next job' := by
  cases action with
  | serve kind c =>
      simp only [Job.stepAction] at h
      split at h
      · cases h
      · next hbusy =>
          cases h
          exact .serves hheld htodo (by simpa using hbusy)
  | submit c request =>
      simp only [Job.stepAction] at h
      split at h
      · cases h
      · next hbusy =>
          cases h
          exact .submits hheld htodo (by simpa using hbusy)
  | accept =>
      simp only [Job.stepAction] at h
      split at h
      · split at h
        · next hfree =>
            cases h
            exact .accepted hheld htodo hfree
        · cases h
      · cases h
  | onReadAvailable c result cb =>
      cases h
      exact .readAvailable hheld htodo
  | onWriteAvailable c success disconnects =>
      cases h
      exact .writeAvailable hheld htodo
  | handleDbRequests c prevData result =>
      cases result with
      | failure =>
          cases h
          exact .handledFailure hheld htodo
      | success data =>
          cases h
          exact .parsed hheld htodo
  | dispatch c number cmds after =>
      cases cmds with
      | nil =>
          cases h
          exact .dispatchedAll hheld htodo
      | cons cmd cmds =>
          simp only [Job.stepAction] at h
          split at h
          · cases h
            exact .replied _ _ hheld htodo
          · cases h
            exact .dispatched hheld htodo
          · cases h
            exact .threw hheld htodo
          · cases h
  | returned c =>
      cases h
      exact .returned hheld htodo
  | disconnect c wait =>
      simp only [Job.stepAction] at h
      split at h
      · cases h
        exact .disconnects hheld htodo
      · cases h
        exact .notConnected hheld htodo
  | setDisconnected c wait =>
      cases h
      exact .setDisconnected hheld htodo
  | clearRequests kind c =>
      simp only [Job.stepAction] at h
      split at h
      · cases h
      · next hbusy =>
          cases h
          exact .requestsCleared hheld htodo (by simpa using hbusy)
  | unregister c =>
      cases h
      exact .unregistered hheld htodo
  | close c =>
      cases h
      exact .closed hheld htodo
  | waitOnRemoval c =>
      simp only [Job.stepAction] at h
      split at h
      · next hremoved =>
          cases h
          exact .removed hheld htodo hremoved
      · cases h
  | complete =>
      simp only [Job.stepAction] at h
      split at h
      · next hrole =>
          cases h
          exact .completed hheld htodo hrole
      · next hrole =>
          cases h
          exact .ended hheld htodo hrole

theorem jobStep_of_step (h : job.step s busy choice = some (next, job')) :
    JobStep s busy job next job' := by
  unfold Job.step at h
  split at h
  · next held hheld => exact jobStep_of_stepHeld hheld h
  · next hheld =>
      split at h
      · cases h
      · next action rest htodo => exact jobStep_of_stepAction hheld htodo h

end CloudLabs.Cdb.Connections
