import CloudLabs.Cdb.Coordinator.Rules
import CloudLabs.Cdb.System.Lemmas

namespace CloudLabs.Cdb

open Interaction Coordinator

-- A contract under which only the holder of the mutex changes the coordinator,
-- and which asks nothing of a thread that looks at it.
class Plain (K : Contract Effect World) : Prop where
  coordinator : ∀ {s t}, K.quiet s t → t.coordinator = s.coordinator
  follow : ∀ s t, K.follow s t
  get : ∀ mode s, K.issue mode s .get
  notifyAll : ∀ mode s, K.issue mode s .notifyAll

-- The update of a client, or one that a record has left.
abbrev Job := Option (Client × Command)

-- What the coordinator knows between its effects while an update is decided,
-- and that each effect leads from the one to the next. `settled` is what holds
-- in the end.
structure Deciding (T : Terms Effect World Choice) (K : Contract Effect World) (role : Role)
    (mode : Mode) where
  settled : K.Assertion
  toCommit : Job → UInt32 → K.Assertion
  committing : Job → UInt32 → List Addr → Bytes → K.Assertion
  uncommitted : Job → UInt32 → Addr → List Addr → Bytes → K.Assertion
  committed : Job → UInt32 → Bytes → K.Assertion
  replied : Job → UInt32 → K.Assertion
  logCommit : ∀ job id, Triple cdb T K role mode (toCommit job id) (log RECORD_COMMIT id)
    fun _ w => committing job id w.coordinator.participants.toList [] w
  commit : ∀ job id addr rest ret, Triple cdb T K role mode (committing job id (addr :: rest) ret)
    (call addr (.COMMIT id)) fun reply w => match reply with
      | some (.string value) => committing job id rest (if ret = [] then value else ret) w
      | _ => uncommitted job id addr rest ret w
  dropUncommitted : ∀ job id addr rest ret, Triple cdb T K role mode
    (uncommitted job id addr rest ret) (eraseParticipant addr) fun _ => committing job id rest ret
  logCommitDone : ∀ job id ret, Triple cdb T K role mode
    (fun w => committing job id [] ret w ∧ w.coordinator.participants ≠ ∅) (log RECORD_COMMIT_DONE id)
    fun _ => committed job id ret
  commitLost : ∀ job id ret w, K.always w → committing job id [] ret w →
    w.coordinator.participants = ∅ → committed job id ret w
  sendCommit : ∀ client cmd id ret, Triple cdb T K role mode (committed (some (client, cmd)) id ret)
    (sendResult client ret) fun _ => replied (some (client, cmd)) id
  keepCommit : ∀ id ret w, K.always w → committed none id ret w → replied none id w
  finishNone : ∀ id w, K.always w → replied none id w → settled w
  toAbort : Job → UInt32 → K.Assertion
  aborting : Job → UInt32 → List Addr → K.Assertion
  unaborted : Job → UInt32 → Addr → List Addr → K.Assertion
  aborted : Job → UInt32 → K.Assertion
  logAbort : ∀ job id, Triple cdb T K role mode (toAbort job id) (log RECORD_ABORT id)
    fun _ w => aborting job id w.coordinator.participants.toList w
  abort : ∀ job id addr rest, Triple cdb T K role mode (aborting job id (addr :: rest))
    (call addr (.ABORT id)) fun reply w => match reply with
      | some (.bool true) => aborting job id rest w
      | _ => unaborted job id addr rest w
  dropUnaborted : ∀ job id addr rest, Triple cdb T K role mode (unaborted job id addr rest)
    (eraseParticipant addr) fun _ => aborting job id rest
  logAbortDone : ∀ job id, Triple cdb T K role mode
    (fun w => aborting job id [] w ∧ w.coordinator.participants ≠ ∅) (log RECORD_ABORT_DONE id)
    fun _ => aborted job id
  abortLost : ∀ job id w, K.always w → aborting job id [] w →
    w.coordinator.participants = ∅ → aborted job id w
  sendAbort : ∀ client cmd id, Triple cdb T K role mode (aborted (some (client, cmd)) id)
    (sendError client (some id)) fun _ => settled
  keepAbort : ∀ id w, K.always w → aborted none id w → settled w

-- The same for what a client asks. `ready` holds when the mutex is taken, `asks`
-- says which requests there are, `unanswered` whether a GET can find nobody.
structure Serving (T : Terms Effect World Choice) (K : Contract Effect World) (role : Role)
    (mode : Mode) extends Deciding T K role mode where
  ready : K.Assertion
  asks : Client → Command → Prop
  refuse : ∀ client, Triple cdb T K role mode (fun w => ready w ∧ w.coordinator.participants = ∅)
    (sendError client none) fun _ => settled
  drawn : Client → Command → UInt32 → K.Assertion
  preparing : Client → Command → List Addr → K.Assertion
  unprepared : Client → Command → Addr → List Addr → K.Assertion
  prepared : Client → Command → Bool → K.Assertion
  draw : ∀ client cmd c, asks client cmd → cmd.isUpdate → Triple cdb T K role mode
    (fun w => ready w ∧ w.coordinator = c ∧ c.participants ≠ ∅)
    (modify fun c => { c with nextId := c.nextId + 1 }) fun _ => drawn client cmd c.nextId
  logUnresolved : ∀ client cmd id, Triple cdb T K role mode (drawn client cmd id)
    (log RECORD_UNRESOLVED id)
    fun _ w => preparing client (cmd.setId id) w.coordinator.participants.toList w
  prepare : ∀ client cmd request addr rest, request.prepares = some cmd →
    Triple cdb T K role mode (preparing client cmd (addr :: rest)) (call addr request)
      fun reply w => match reply with
        | some (.bool true) => preparing client cmd rest w
        | some (.bool false) => prepared client cmd false w
        | _ => unprepared client cmd addr rest w
  dropUnprepared : ∀ client cmd addr rest, Triple cdb T K role mode
    (unprepared client cmd addr rest) (eraseParticipant addr) fun _ => preparing client cmd rest
  allPrepared : ∀ client cmd w, K.always w → preparing client cmd [] w → prepared client cmd true w
  nobodyPrepared : ∀ client cmd ok, Triple cdb T K role mode
    (fun w => prepared client cmd ok w ∧ w.coordinator.participants = ∅)
    (sendError client (some cmd.id)) fun _ => settled
  accept : ∀ client cmd w, K.always w → prepared client cmd true w → w.coordinator.participants ≠ ∅ →
    toCommit (some (client, cmd)) cmd.id w
  reject : ∀ client cmd w, K.always w → prepared client cmd false w → w.coordinator.participants ≠ ∅ →
    toAbort (some (client, cmd)) cmd.id w
  finishSet : ∀ client cmd w, K.always w → replied (some (client, .set cmd)) cmd.id w → settled w
  finishDel : ∀ client cmd, Triple cdb T K role mode (replied (some (client, .del cmd)) cmd.id)
    (rememberDelKeys cmd.keys) fun _ => settled
  getting : Client → GetCommand → List Addr → K.Assertion
  ungot : Client → GetCommand → Addr → List Addr → K.Assertion
  got : Client → GetCommand → Bytes → K.Assertion
  unanswered : Prop
  startGet : ∀ client cmd w, K.always w → asks client (.get cmd) → ready w →
    w.coordinator.participants ≠ ∅ → getting client cmd w.coordinator.participants.toList w
  get : ∀ client cmd addr rest, Triple cdb T K role mode (getting client cmd (addr :: rest))
    (call addr (.GET cmd)) fun reply w => match reply with
      | some (.string value) => got client cmd value w
      | _ => ungot client cmd addr rest w
  dropUngot : ∀ client cmd addr rest, Triple cdb T K role mode (ungot client cmd addr rest)
    (eraseParticipant addr) fun _ => getting client cmd rest
  sendGot : ∀ client cmd value, Triple cdb T K role mode (got client cmd value)
    (sendResult client value) fun _ => settled
  noneGot : ∀ client cmd w, K.always w → getting client cmd [] w → settled w ∧ unanswered
  sendUnanswered : ∀ client, unanswered → Triple cdb T K role .outside (fun _ => True)
    (sendError client none) fun _ _ => True

-- The same for the heartbeats. `gone` says who may be dropped by them, `known`
-- what the addresses of the configuration have in common.
structure Rejoining (T : Terms Effect World Choice) (K : Contract Effect World) (role : Role)
    (mode : Mode) extends Deciding T K role mode where
  gone : Addr → Prop
  known : Addr → Prop
  configured : ∀ w, K.always w → ∀ addr ∈ w.coordinator.participantAddrs, known addr
  beat : ∀ addr, Triple cdb T K role .outside (fun _ => True) (call addr .HEARTBEAT)
    fun reply _ => reply = none → gone addr
  ready : K.Assertion
  absent : ∀ addr w, K.always w → ready w → ¬ w.coordinator.participants.contains addr → gone addr
  drop : ∀ addr, gone addr → Triple cdb T K role mode ready (eraseParticipant addr) fun _ => settled
  member : ∀ addr w, K.always w → ready w → w.coordinator.participants.contains addr → settled w
  told : Addr → UInt32 → K.Assertion
  reset : Addr → K.Assertion
  lagging : Addr → List Addr → K.Assertion
  donorLost : Addr → Addr → List Addr → K.Assertion
  fetched : Addr → Bytes → K.Assertion
  copied : Addr → K.Assertion
  returning : Addr → K.Assertion
  joined : K.Assertion
  setNextId : ∀ addr c, known addr → ¬ c.participants.contains addr → c.isRecovered = false →
    Triple cdb T K role mode (fun w => ready w ∧ w.coordinator = c)
      (call addr (.SET_NEXT_ID c.nextId)) fun reply w => match reply with
        | none => settled w
        | some _ => reset addr w
  recovered : ∀ addr, Triple cdb T K role mode (reset addr)
    (modify fun c => { c with isRecovered := true }) fun _ => returning addr
  nextId : ∀ addr c, known addr → ¬ c.participants.contains addr → c.isRecovered = true →
    Triple cdb T K role mode (fun w => ready w ∧ w.coordinator = c) (call addr .NEXT_ID)
      fun reply w => match reply with
        | some (.uint32 pNextId) => told addr pNextId w ∧ w.coordinator = c
        | _ => settled w
  same : ∀ addr w, K.always w → told addr w.coordinator.nextId w → returning addr w
  prepared : ∀ addr pNextId w, K.always w → told addr pNextId w → pNextId + 1 = w.coordinator.nextId →
    (w.coordinator.rManager.records[pNextId]?.map Record.status) = some RECORD_UNRESOLVED →
    returning addr w
  behind : ∀ addr pNextId w, K.always w → told addr pNextId w → pNextId ≠ w.coordinator.nextId →
    lagging addr w.coordinator.participants.toList w
  snapshot : ∀ addr donor rest, Triple cdb T K role mode (lagging addr (donor :: rest))
    (call donor .GET_SNAPSHOT) fun reply w => match reply with
      | some (.vector data) => fetched addr data w
      | _ => donorLost addr donor rest w
  dropDonor : ∀ addr donor rest, Triple cdb T K role mode (donorLost addr donor rest)
    (eraseParticipant donor) fun _ => lagging addr rest
  recover : ∀ addr data c, Triple cdb T K role mode (fun w => fetched addr data w ∧ w.coordinator = c)
    (call addr (.RECOVER data c.delKeys)) fun reply w => match reply with
      | none => settled w
      | some _ => copied addr w ∧ w.coordinator = c
  catchUp : ∀ addr c, Triple cdb T K role mode (fun w => copied addr w ∧ w.coordinator = c)
    (call addr (.SET_NEXT_ID c.nextId)) fun reply w => match reply with
      | none => settled w
      | some _ => returning addr w
  noDonor : ∀ addr w, K.always w → lagging addr [] w → settled w
  insert : ∀ addr, Triple cdb T K role mode (returning addr) (insertParticipant addr) fun _ => joined
  forget : Triple cdb T K role mode joined forgetDelKeys fun _ => joined
  copy : Triple cdb T K role mode joined copyRecords fun rs w => (rs = [] ∧ settled w) ∨
    ∃ r : Record, rs = [r] ∧
      ((r.status = RECORD_UNRESOLVED ∨ r.status = RECORD_ABORT) ∧ toAbort none r.id w ∨
        r.status = RECORD_COMMIT ∧ toCommit none r.id w)

-- The same for recovery(), which runs before anybody else does. `loaded` holds
-- when next_id_ is that of the log, `numbered` when it is the one to go on with.
structure Booting (T : Terms Effect World Choice) (K : Contract Effect World) (role : Role) extends
    Rejoining T K role .alone where
  started : K.Assertion
  loaded : K.Assertion
  fresh : K.Assertion
  numbered : K.Assertion
  inserted : Addr → K.Assertion
  bearing : Addr → UInt32 → K.Assertion
  loadNumber : Triple cdb T K role .alone started (modify fun c => { c with nextId := c.rManager.nextId })
    fun _ => loaded
  drawNumber : Triple cdb T K role .alone (fun w => loaded w ∧ w.coordinator.nextId = 0) rand fun _ => fresh
  takeNumber : ∀ next, Triple cdb T K role .alone fresh
    (modify fun c => { c with nextId := next, isRecovered := false }) fun _ => numbered
  goOn : ∀ w, K.always w → loaded w → w.coordinator.nextId ≠ 0 → numbered w
  nobody : ∀ w, K.always w → numbered w → joined w
  insertFirst : ∀ addr, known addr → Triple cdb T K role .alone joined (insertParticipant addr)
    fun _ => inserted addr
  askNumber : ∀ addr, Triple cdb T K role .alone (inserted addr) (call addr .NEXT_ID)
    fun reply w => match reply with
      | some (.uint32 pNextId) => bearing addr pNextId w
      | _ => inserted addr w
  bears : ∀ addr pNextId w, K.always w → bearing addr pNextId w → inserted addr w
  tellNumber : ∀ addr c, c.isRecovered = false →
    Triple cdb T K role .alone (fun w => inserted addr w ∧ w.coordinator = c)
      (call addr (.SET_NEXT_ID c.nextId)) fun reply w => match reply with
        | some _ => joined w
        | none => inserted addr w
  stays : ∀ addr w, K.always w → bearing addr w.coordinator.nextId w → joined w
  staysBehind : ∀ addr pNextId w, K.always w → bearing addr pNextId w → pNextId + 1 = w.coordinator.nextId →
    (w.coordinator.rManager.records[w.coordinator.nextId]?.map Record.status) = some RECORD_ABORT → joined w
  eraseFirst : ∀ addr, Triple cdb T K role .alone (inserted addr) (eraseParticipant addr) fun _ => joined

end CloudLabs.Cdb
