import CloudLabs.Cdb.System
import CloudLabs.Interaction.Triple

namespace CloudLabs.Cdb.Coordinator

open Interaction

variable {T : Terms Effect World Choice} {K : Contract Effect World} {role : Role} {mode : Mode}

section Updates

-- What SET and DEL do once the id of the update is logged; `finish` is what
-- comes after a commit.
def resolveUpdate (request : Request) (client : Client) (id : UInt32) (finish : Code Unit) : Code Unit := do
  let phase ← forEachParticipant request judgePrepare (← get).participants.toList (true, false)
  if (← get).participants.isEmpty then
    sendError client (some id)
  else if phase.1 then
    let dead ← commitDbRequest (some client) id phase.2
    finish
    notifyIf dead
  else
    let dead ← abortDbRequest (some client) id phase.2
    notifyIf dead

-- What SET and DEL do while they hold the mutex.
def handleUpdate (request : UInt32 → Request) (client : Client) (finish : Code Unit) : Code Unit := do
  if (← get).participants.isEmpty then
    sendError client none
  else
    let id ← fetchAddNextId
    log RECORD_UNRESOLVED id
    resolveUpdate (request id) client id finish

theorem handleDbSetRequest_eq (client : Client) (cmd : SetCommand) :
    handleDbSetRequest client cmd = Program.critical
      (handleUpdate (fun id => .PREPARE_SET { cmd with id }) client (.ret ())) := rfl

theorem handleDbDelRequest_eq (client : Client) (cmd : DelCommand) :
    handleDbDelRequest client cmd = Program.critical
      (handleUpdate (fun id => .PREPARE_DEL { cmd with id }) client (rememberDelKeys cmd.keys)) := rfl

end Updates

section Effects

variable {pre : World → Prop}

theorem log_triple {post : World → Prop} {status : RecordStatus} {id : UInt32}
    (hpre : K.Stable role mode pre) (hpost : K.Stable role mode post)
    (h : ∀ w, K.always w → pre w → K.issue mode w (.log status id) ∧
      (T.effect mode w (.log status id) .done →
        K.always (w.log status id) ∧ K.give role mode w (w.log status id) ∧ post (w.log status id))) :
    Triple cdb T K role mode pre (log status id) fun _ => post := by
  refine Triple.op hpre (fun _ => hpost) fun w ha hw => ⟨(h w ha hw).1, fun choice answer u hT hexec => ?_⟩
  cases choice with
  | done => cases hexec; exact (h w ha hw).2 hT
  | _ => cases hexec

theorem call_triple {post : Option Reply → World → Prop} {addr : Addr} {request : Request}
    (hpre : K.Stable role mode pre) (hpost : ∀ reply, K.Stable role mode (post reply))
    (h : ∀ w, K.always w → pre w → K.issue mode w (.call addr request) ∧
      ∀ choice reply u, T.effect mode w (.call addr request) choice →
        w.call addr request choice = some (reply, u) →
          K.always u ∧ K.give role mode w u ∧ post reply u) :
    Triple cdb T K role mode pre (call addr request) post :=
  Triple.op hpre hpost h

theorem get_triple {post : Coordinator → World → Prop}
    (hpre : K.Stable role mode pre) (hpost : ∀ c, K.Stable role mode (post c))
    (h : ∀ w, K.always w → pre w → K.issue mode w .get ∧ K.give role mode w w ∧ post w.coordinator w) :
    Triple cdb T K role mode pre get post := by
  refine Triple.op hpre hpost fun w ha hw => ⟨(h w ha hw).1, fun choice answer u hT hexec => ?_⟩
  cases choice with
  | done => cases hexec; exact ⟨ha, (h w ha hw).2⟩
  | _ => cases hexec

theorem modify_triple {post : World → Prop} {change : Coordinator → Coordinator}
    (hpre : K.Stable role mode pre) (hpost : K.Stable role mode post)
    (h : ∀ w, K.always w → pre w → K.issue mode w (.modify change) ∧
      K.always { w with coordinator := change w.coordinator } ∧
      K.give role mode w { w with coordinator := change w.coordinator } ∧
      post { w with coordinator := change w.coordinator }) :
    Triple cdb T K role mode pre (modify change) fun _ => post := by
  refine Triple.op hpre (fun _ => hpost) fun w ha hw => ⟨(h w ha hw).1, fun choice answer u hT hexec => ?_⟩
  cases choice with
  | done => cases hexec; exact (h w ha hw).2
  | _ => cases hexec

theorem copyRecords_triple {post : List Record → World → Prop}
    (hpre : K.Stable role mode pre) (hpost : ∀ rs, K.Stable role mode (post rs))
    (h : ∀ w, K.always w → pre w → K.issue mode w .copyRecords ∧ (T.effect mode w .copyRecords .done →
      K.give role mode w w ∧ post w.coordinator.rManager.records.values w)) :
    Triple cdb T K role mode pre copyRecords post := by
  refine Triple.op hpre hpost fun w ha hw => ⟨(h w ha hw).1, fun choice answer u hT hexec => ?_⟩
  cases choice with
  | done =>
      obtain ⟨hanswer, hworld⟩ := Prod.mk.inj (Option.some.inj hexec)
      rw [← hanswer, ← hworld]
      exact ⟨ha, (h w ha hw).2 hT⟩
  | _ => cases hexec

theorem rand_triple {post : UInt32 → World → Prop}
    (hpre : K.Stable role mode pre) (hpost : ∀ value, K.Stable role mode (post value))
    (h : ∀ w, K.always w → pre w → K.issue mode w .rand ∧ ∀ value, value ≤ RAND_MAX →
      T.effect mode w .rand (.draw value) → K.give role mode w w ∧ post value w) :
    Triple cdb T K role mode pre rand post := by
  refine Triple.op hpre hpost fun w ha hw => ⟨(h w ha hw).1, fun choice answer u hT hexec => ?_⟩
  cases choice with
  | draw value =>
      have hdraw : (if value ≤ RAND_MAX then some (value, w) else none) = some (answer, u) := hexec
      split at hdraw
      · rename_i hmax
        obtain ⟨hanswer, hworld⟩ := Prod.mk.inj (Option.some.inj hdraw)
        rw [← hanswer, ← hworld]
        exact ⟨ha, (h w ha hw).2 value hmax hT⟩
      · cases hdraw
  | _ => cases hexec

theorem sendResult_triple {post : World → Prop} {client : Client} {msg : Bytes}
    (hpre : K.Stable role mode pre) (hpost : K.Stable role mode post)
    (h : ∀ w, K.always w → pre w → K.issue mode w (.sendResult client msg) ∧
      K.always { w with replies := (client, msg) :: w.replies } ∧
      K.give role mode w { w with replies := (client, msg) :: w.replies } ∧
      post { w with replies := (client, msg) :: w.replies }) :
    Triple cdb T K role mode pre (sendResult client msg) fun _ => post := by
  refine Triple.op hpre (fun _ => hpost) fun w ha hw => ⟨(h w ha hw).1, fun choice answer u hT hexec => ?_⟩
  cases choice with
  | done => cases hexec; exact (h w ha hw).2
  | _ => cases hexec

theorem sendError_triple {post : World → Prop} {client : Client} {id : Option UInt32}
    (hpre : K.Stable role mode pre) (hpost : K.Stable role mode post)
    (h : ∀ w, K.always w → pre w → K.issue mode w (.sendError client id) ∧
      K.always { w with replies := (client, errorString) :: w.replies, refused := id.toList ++ w.refused } ∧
      K.give role mode w
        { w with replies := (client, errorString) :: w.replies, refused := id.toList ++ w.refused } ∧
      post { w with replies := (client, errorString) :: w.replies, refused := id.toList ++ w.refused }) :
    Triple cdb T K role mode pre (sendError client id) fun _ => post := by
  refine Triple.op hpre (fun _ => hpost) fun w ha hw => ⟨(h w ha hw).1, fun choice answer u hT hexec => ?_⟩
  cases choice with
  | done => cases hexec; exact (h w ha hw).2
  | _ => cases hexec

theorem notifyAll_triple {post : World → Prop} (hpre : K.Stable role mode pre)
    (hpost : K.Stable role mode post)
    (h : ∀ w, K.always w → pre w → K.issue mode w .notifyAll ∧ K.give role mode w w ∧ post w) :
    Triple cdb T K role mode pre notifyAll fun _ => post := by
  refine Triple.op hpre (fun _ => hpost) fun w ha hw => ⟨(h w ha hw).1, fun choice answer u hT hexec => ?_⟩
  cases choice with
  | done => cases hexec; exact ⟨ha, (h w ha hw).2⟩
  | _ => cases hexec

end Effects

section Loops

variable {α : Type} {request : Request} {judge : Option Reply → α → Verdict α}

-- The loop over participants_: `inv` holds before each turn, of the addresses
-- that are left and the state, and `erased` where a participant is to be dropped.
theorem forEachParticipant_triple (inv : List Addr → α → World → Prop)
    (erased : Addr → List Addr → α → World → Prop) {post : α → World → Prop}
    (hstop : ∀ state, K.Stable role mode (post state))
    (hend : ∀ state w, K.always w → inv [] state w → post state w)
    (hcall : ∀ addr rest state, Triple cdb T K role mode (inv (addr :: rest) state) (call addr request)
      fun reply w => match judge reply state with
        | .keep state => inv rest state w
        | .drop state => erased addr rest state w
        | .stop state => post state w)
    (herase : ∀ addr rest state, Triple cdb T K role mode (erased addr rest state)
      (eraseParticipant addr) fun _ => inv rest state)
    (hinv : ∀ state, K.Stable role mode (inv [] state)) (addrs : List Addr) (state : α) :
    Triple cdb T K role mode (inv addrs state) (forEachParticipant request judge addrs state) post := by
  induction addrs generalizing state with
  | nil => exact Triple.ret (hinv state) (hend state)
  | cons addr rest ih =>
      refine Triple.bind (hcall addr rest state) fun reply => ?_
      cases judge reply state with
      | keep next => exact ih next
      | stop next => exact Triple.ret (hstop next) fun _ _ h => h
      | drop next => exact Triple.bind (herase addr rest next) fun _ => ih next

end Loops

end CloudLabs.Cdb.Coordinator
