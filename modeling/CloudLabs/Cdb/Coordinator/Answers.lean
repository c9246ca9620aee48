import CloudLabs.Cdb.Coordinator.Rules
import CloudLabs.Cdb.Participant.Theorems
import CloudLabs.Interaction.Sequential

namespace CloudLabs.Cdb

open Interaction

-- How the RPCs of one handler turn out: the result, or `none` if the call throws.
-- A COMMIT returns what commit_handler_t returns.
structure Outcomes where
  rpc : Addr → Request → Option Reply
  committed : ∀ addr id ret, rpc addr (.COMMIT id) = some (.string ret) →
    ∃ p q : Participant, p.commit id = .ok (ret, q)

-- The coordinator and the replies that were queued, the last one first.
structure Desk where
  coordinator : Coordinator
  replies : List (Client × Bytes)

namespace Desk

variable (o : Outcomes)

def exec (s : Desk) (effect : Effect) : Option (effect.Answer × Desk) :=
  match effect with
  | .call addr request => some (o.rpc addr request, s)
  | .log status id => some ((), { s with
      coordinator := { s.coordinator with
        rManager := s.coordinator.rManager.log ⟨status, id, s.coordinator.nextId⟩ } })
  | .get => some (s.coordinator, s)
  | .modify change => some ((), { s with coordinator := change s.coordinator })
  | .copyRecords => some (s.coordinator.rManager.records.values, s)
  | .sendResult client msg => some ((), { s with replies := (client, msg) :: s.replies })
  | .sendError client _ => some ((), { s with replies := (client, errorString) :: s.replies })
  | .notifyAll => some ((), s)
  | .rand | .assertFalse => none

-- A coordinator whose RPCs turn out like that.
def service : Service Effect Effect.Answer Desk Unit (Client × Command) where
  exec := fun s effect _ => exec o s effect
  environment := fun _ _ => none
  recovery := Coordinator.recovery
  main := Coordinator.heartbeatParticipants
  handler := Coordinator.handle
  restart := fun _ => none

-- The whole run of a handler that holds the mutex, if it needs it.
def run {α : Type} (program : Code α) (mode : Mode) (s : Desk) : Option (α × Mode × Desk) :=
  program.outcome (service o) (fun _ _ => ()) mode s

-- The program returns the value and leaves the desk as `t`.
def Yields {α : Type} (program : Code α) (s : Desk) (value : α) (t : Desk) : Prop :=
  run o program .inside s = some (value, .inside, t)

end Desk

namespace Desk.Yields

variable {o : Outcomes} {α β : Type} {s t u : Desk}

theorem ret (value : α) : Yields o (.ret value) s value s := rfl

theorem bind {program : Code α} {rest : α → Code β} {value : α} {last : β}
    (h : Yields o program s value t) (hrest : Yields o (rest value) t last u) :
    Yields o (program.bind rest) s last u := by
  unfold Yields run at h hrest ⊢
  rw [Program.outcome_bind, h, Option.bind_some]
  exact hrest

theorem pos {cond : Prop} [Decidable cond] {program other : Code α} {value : α} (hcond : cond)
    (h : Yields o program s value t) : Yields o (if cond then program else other) s value t := by
  rw [if_pos hcond]
  exact h

theorem neg {cond : Prop} [Decidable cond] {program other : Code α} {value : α} (hcond : ¬ cond)
    (h : Yields o other s value t) : Yields o (if cond then program else other) s value t := by
  rw [if_neg hcond]
  exact h

end Desk.Yields

namespace Coordinator

open Desk

variable {o : Outcomes} {α : Type}

section Loop

-- What a loop over participants_ comes to: the state, and who was erased.
def sweep (answer : Addr → Option Reply) (judge : Option Reply → α → Verdict α) :
    List Addr → α → α × List Addr
  | [], state => (state, [])
  | addr :: rest, state =>
      match judge (answer addr) state with
      | .keep state => sweep answer judge rest state
      | .stop state => (state, [])
      | .drop state =>
          let (state, dropped) := sweep answer judge rest state
          (state, addr :: dropped)

def eraseAll (participants : AddrSet) (dropped : List Addr) : AddrSet := dropped.foldl .erase participants

def dropAll (s : Desk) (dropped : List Addr) : Desk :=
  { s with coordinator := { s.coordinator with
      participants := eraseAll s.coordinator.participants dropped } }

theorem forEachParticipant_yields (request : Request) (judge : Option Reply → α → Verdict α)
    (addrs : List Addr) (state : α) (s : Desk) :
    Yields o (forEachParticipant request judge addrs state) s
      (sweep (o.rpc · request) judge addrs state).1
      (dropAll s (sweep (o.rpc · request) judge addrs state).2) := by
  induction addrs generalizing state s with
  | nil => exact .ret state
  | cons addr rest ih =>
      have hcall : Yields o (call addr request) s (o.rpc addr request) s := rfl
      refine hcall.bind ?_
      simp only [sweep]
      cases judge (o.rpc addr request) state with
      | keep state => exact ih state s
      | stop state => exact .ret state
      | drop state =>
          have herase : Yields o (eraseParticipant addr) s () { s with coordinator :=
              { s.coordinator with participants := s.coordinator.participants.erase addr } } := rfl
          exact herase.bind (ih state _)

theorem mem_eraseAll {participants : AddrSet} {dropped : List Addr} {addr : Addr} :
    addr ∈ eraseAll participants dropped ↔ addr ∈ participants ∧ addr ∉ dropped := by
  induction dropped generalizing participants with
  | nil => simp [eraseAll]
  | cons head rest ih =>
      have hrest := @ih (participants.erase head)
      rw [eraseAll, List.foldl_cons, ← eraseAll, hrest, Std.ExtTreeSet.mem_erase, List.mem_cons]
      grind

-- Nobody who answered PREPARE is erased.
theorem not_mem_dropped {answer : Addr → Option Reply} {addrs : List Addr} {state : Bool × Bool}
    {addr : Addr} {ok : Bool} (hanswer : answer addr = some (.bool ok)) :
    addr ∉ (sweep answer judgePrepare addrs state).2 := by
  induction addrs generalizing state with
  | nil => simp [sweep]
  | cons head rest ih =>
      unfold sweep
      split
      · exact ih
      · simp
      · rename_i state' hjudge
        have hne : addr ≠ head := by
          rintro rfl
          rw [hanswer] at hjudge
          cases ok <;> simp [judgePrepare] at hjudge
        simp [hne, ih]

theorem sweep_refused {answer : Addr → Option Reply} {addrs : List Addr} {state : Bool × Bool}
    (h : ∃ addr ∈ addrs, answer addr = some (.bool false)) :
    (sweep answer judgePrepare addrs state).1.1 = false := by
  induction addrs generalizing state with
  | nil => simp at h
  | cons head rest ih =>
      by_cases hhead : answer head = some (.bool false)
      · simp [sweep, hhead, judgePrepare]
      · have hrest : ∃ addr ∈ rest, answer addr = some (.bool false) := by
          obtain ⟨addr, hmem, haddr⟩ := h
          rcases List.mem_cons.mp hmem with rfl | hmem
          · exact absurd haddr hhead
          · exact ⟨addr, hmem, haddr⟩
        unfold sweep
        split
        · exact ih hrest
        · rename_i state' hjudge
          unfold judgePrepare at hjudge
          split at hjudge <;> simp_all
        · exact ih hrest

-- With no refusal the phase is successful, and who is left has agreed.
theorem sweep_prepared {answer : Addr → Option Reply} {addrs : List Addr} {dead : Bool}
    (h : ∀ addr ∈ addrs, answer addr ≠ some (.bool false)) :
    (sweep answer judgePrepare addrs (true, dead)).1.1 = true ∧
      ∀ addr ∈ addrs, addr ∉ (sweep answer judgePrepare addrs (true, dead)).2 →
        answer addr = some (.bool true) := by
  induction addrs generalizing dead with
  | nil => simp [sweep]
  | cons head rest ih =>
      have hrest := fun dead => @ih dead fun addr hmem => h addr (by simp [hmem])
      have hhead := h head (by simp)
      by_cases hok : answer head = some (.bool true)
      · simp only [sweep, hok, judgePrepare]
        refine ⟨(hrest dead).1, fun addr hmem hkept => ?_⟩
        rcases List.mem_cons.mp hmem with rfl | hmem
        · exact hok
        · exact (hrest dead).2 addr hmem hkept
      · have hjudge : judgePrepare (answer head) (true, dead) = .drop (true, true) := by
          unfold judgePrepare
          split <;> simp_all
        simp only [sweep, hjudge]
        refine ⟨(hrest true).1, fun addr hmem hkept => ?_⟩
        obtain ⟨hne, hkept⟩ := not_or.mp (mt List.mem_cons.mpr hkept)
        exact (hrest true).2 addr ((List.mem_cons.mp hmem).resolve_left hne) hkept

-- The result of the commit phase is the first answer that is not empty.
theorem sweep_commit {answer : Addr → Option Reply} {addrs : List Addr} {ret : Bytes} {dead : Bool} :
    ((sweep answer judgeCommit addrs (ret, dead)).1.1 = [] ↔
      ret = [] ∧ ∀ addr ∈ addrs, ∀ value, answer addr = some (.string value) → value = []) ∧
    ((sweep answer judgeCommit addrs (ret, dead)).1.1 = ret ∨
      ∃ addr ∈ addrs, answer addr = some (.string (sweep answer judgeCommit addrs (ret, dead)).1.1)) := by
  induction addrs generalizing ret dead with
  | nil => simp [sweep]
  | cons head rest ih =>
      by_cases hstring : ∃ value, answer head = some (.string value)
      · obtain ⟨value, hvalue⟩ := hstring
        have hrest := @ih (if ret = [] then value else ret) dead
        simp only [sweep, hvalue, judgeCommit]
        constructor
        · rw [hrest.1]
          by_cases hret : ret = [] <;> simp [hret, hvalue]
        · rcases hrest.2 with hsame | ⟨addr, hmem, haddr⟩
          · by_cases hret : ret = []
            · rw [if_pos hret] at hsame ⊢
              exact .inr ⟨head, by simp, by rw [hvalue, hsame]⟩
            · rw [if_neg hret] at hsame ⊢
              exact .inl hsame
          · exact .inr ⟨addr, by simp [hmem], haddr⟩
      · have hjudge : judgeCommit (answer head) (ret, dead) = .drop (ret, true) := by
          unfold judgeCommit
          split <;> simp_all
        have hrest := @ih ret true
        simp only [sweep, hjudge]
        constructor
        · rw [hrest.1]
          simp only [List.forall_mem_cons]
          constructor
          · intro h
            exact ⟨h.1, fun value hvalue => absurd ⟨value, hvalue⟩ hstring, h.2⟩
          · intro h
            exact ⟨h.1, h.2.2⟩
        · rcases hrest.2 with hsame | ⟨addr, hmem, haddr⟩
          · exact .inl hsame
          · exact .inr ⟨addr, by simp [hmem], haddr⟩

end Loop

section Handlers

variable {s : Desk} {client : Client} {id : UInt32} {dead : Bool}

theorem log_yields (status : RecordStatus) : ∃ t, Yields o (log status id) s () t ∧
    t.replies = s.replies ∧ t.coordinator.participants = s.coordinator.participants :=
  ⟨_, rfl, rfl, rfl⟩

theorem logDone_yields (status : RecordStatus) : ∃ t, Yields o (logDone status id) s () t ∧
    t.replies = s.replies := by
  have hget : Yields o get s s.coordinator s := rfl
  by_cases hempty : s.coordinator.participants.isEmpty
  · exact ⟨s, hget.bind (.pos hempty (.ret ())), rfl⟩
  · obtain ⟨t, hlog, hreplies, -⟩ := @log_yields o s id status
    exact ⟨t, hget.bind (.neg hempty hlog), hreplies⟩

theorem notifyIf_yields : Yields o (notifyIf dead) s () s := by
  cases dead <;> rfl

-- A commit is answered with what the members return.
theorem commitDbRequest_yields : ∃ dead' t, Yields o (commitDbRequest (some client) id dead) s dead' t ∧
    t.replies = (client, (sweep (o.rpc · (.COMMIT id)) judgeCommit
      s.coordinator.participants.toList ([], dead)).1.1) :: s.replies := by
  obtain ⟨s1, hlog, hreplies1, hparticipants⟩ := @log_yields o s id RECORD_COMMIT
  let phase := sweep (o.rpc · (.COMMIT id)) judgeCommit s1.coordinator.participants.toList ([], dead)
  have hget : Yields o get s1 s1.coordinator s1 := rfl
  have hloop : Yields o (forEachParticipant (.COMMIT id) judgeCommit
      s1.coordinator.participants.toList ([], dead)) s1 phase.1 (dropAll s1 phase.2) :=
    forEachParticipant_yields _ _ _ _ _
  obtain ⟨s2, hdone, hreplies2⟩ := @logDone_yields o (dropAll s1 phase.2) id RECORD_COMMIT_DONE
  have hsend : Yields o (sendResultTo (some client) phase.1.1) s2 ()
      { s2 with replies := (client, phase.1.1) :: s2.replies } := rfl
  refine ⟨phase.1.2, _, hlog.bind (hget.bind (hloop.bind (hdone.bind (hsend.bind (.ret _))))), ?_⟩
  show (client, phase.1.1) :: s2.replies = _
  rw [hreplies2, ← hparticipants, ← hreplies1]
  rfl

-- An abort is answered with an error.
theorem abortDbRequest_yields : ∃ dead' t, Yields o (abortDbRequest (some client) id dead) s dead' t ∧
    t.replies = (client, errorString) :: s.replies := by
  obtain ⟨s1, hlog, hreplies1, -⟩ := @log_yields o s id RECORD_ABORT
  let phase := sweep (o.rpc · (.ABORT id)) judgeAbort s1.coordinator.participants.toList dead
  have hget : Yields o get s1 s1.coordinator s1 := rfl
  have hloop : Yields o (forEachParticipant (.ABORT id) judgeAbort
      s1.coordinator.participants.toList dead) s1 phase.1 (dropAll s1 phase.2) :=
    forEachParticipant_yields _ _ _ _ _
  obtain ⟨s2, hdone, hreplies2⟩ := @logDone_yields o (dropAll s1 phase.2) id RECORD_ABORT_DONE
  have hsend : Yields o (sendErrorTo (some client) id) s2 ()
      { s2 with replies := (client, errorString) :: s2.replies } := rfl
  refine ⟨phase.1, _, hlog.bind (hget.bind (hloop.bind (hdone.bind (hsend.bind (.ret _))))), ?_⟩
  show (client, errorString) :: s2.replies = _
  rw [hreplies2, ← hreplies1]
  rfl

-- What the client of an update is sent, from who is a member, how PREPARE turns
-- out and how COMMIT does.
def answerOf (o : Outcomes) (participants : AddrSet) (request : Request) (id : UInt32) : Bytes :=
  let phase := sweep (o.rpc · request) judgePrepare participants.toList (true, false)
  let left := eraseAll participants phase.2
  if left.isEmpty then errorString
  else if phase.1.1 then (sweep (o.rpc · (.COMMIT id)) judgeCommit left.toList ([], phase.1.2)).1.1
  else errorString

-- Code that sends nothing.
def Silent (o : Outcomes) (program : Code Unit) : Prop :=
  ∀ s, ∃ t, Yields o program s () t ∧ t.replies = s.replies

theorem rememberDelKeys_silent (keys : List Bytes) : Silent o (rememberDelKeys keys) := by
  intro s
  have hget : Yields o get s s.coordinator s := rfl
  by_cases hmissing : s.coordinator.participants.size < s.coordinator.participantAddrs.length
  · exact ⟨_, hget.bind (.pos hmissing rfl), rfl⟩
  · exact ⟨s, hget.bind (.neg hmissing (.ret ())), rfl⟩

theorem resolveUpdate_yields {request : Request} {finish : Code Unit} (hfinish : Silent o finish)
    (s : Desk) : ∃ t, Yields o (resolveUpdate request client id finish) s () t ∧
      t.replies = (client, answerOf o s.coordinator.participants request id) :: s.replies := by
  let phase := sweep (o.rpc · request) judgePrepare s.coordinator.participants.toList (true, false)
  let s1 := dropAll s phase.2
  have hget : Yields o get s s.coordinator s := rfl
  have hloop : Yields o (forEachParticipant request judgePrepare
      s.coordinator.participants.toList (true, false)) s phase.1 s1 := forEachParticipant_yields _ _ _ _ _
  have hget1 : Yields o get s1 s1.coordinator s1 := rfl
  by_cases hempty : s1.coordinator.participants.isEmpty
  · have hanswer : answerOf o s.coordinator.participants request id = errorString := if_pos hempty
    rw [hanswer]
    have hsend : Yields o (sendError client (some id)) s1 ()
        { s1 with replies := (client, errorString) :: s1.replies } := rfl
    exact ⟨_, hget.bind (hloop.bind (hget1.bind (.pos hempty hsend))), rfl⟩
  by_cases hok : phase.1.1
  · have hanswer : answerOf o s.coordinator.participants request id =
        (sweep (o.rpc · (.COMMIT id)) judgeCommit s1.coordinator.participants.toList
          ([], phase.1.2)).1.1 := (if_neg hempty).trans (if_pos hok)
    rw [hanswer]
    obtain ⟨dead, s2, hcommit, hreplies2⟩ := @commitDbRequest_yields o s1 client id phase.1.2
    obtain ⟨s3, hsilent, hreplies3⟩ := hfinish s2
    exact ⟨s3, hget.bind (hloop.bind (hget1.bind (.neg hempty (.pos hok
      (hcommit.bind (hsilent.bind notifyIf_yields)))))), hreplies3.trans hreplies2⟩
  · have hanswer : answerOf o s.coordinator.participants request id = errorString :=
      (if_neg hempty).trans (if_neg hok)
    rw [hanswer]
    obtain ⟨dead, s2, habort, hreplies2⟩ := @abortDbRequest_yields o s1 client id phase.1.2
    exact ⟨s2, hget.bind (hloop.bind (hget1.bind (.neg hempty (.neg hok
      (habort.bind notifyIf_yields))))), hreplies2⟩

theorem handleUpdate_yields {request : UInt32 → Request} {finish : Code Unit} (hfinish : Silent o finish)
    (s : Desk) : ∃ t, Yields o (handleUpdate request client finish) s () t ∧
      t.replies = (client, if s.coordinator.participants.isEmpty then errorString
        else answerOf o s.coordinator.participants (request s.coordinator.nextId)
          s.coordinator.nextId) :: s.replies := by
  have hget : Yields o get s s.coordinator s := rfl
  by_cases hempty : s.coordinator.participants.isEmpty
  · have hsend : Yields o (sendError client none) s ()
        { s with replies := (client, errorString) :: s.replies } := rfl
    rw [if_pos hempty]
    exact ⟨_, hget.bind (.pos hempty hsend), rfl⟩
  · let s1 : Desk := { s with coordinator := { s.coordinator with nextId := s.coordinator.nextId + 1 } }
    have hfetch : Yields o fetchAddNextId s s.coordinator.nextId s1 := rfl
    obtain ⟨s2, hlog, hreplies2, hparticipants⟩ :=
      @log_yields o s1 s.coordinator.nextId RECORD_UNRESOLVED
    obtain ⟨s3, hresolve, hreplies3⟩ := @resolveUpdate_yields o client s.coordinator.nextId
      (request s.coordinator.nextId) finish hfinish s2
    rw [if_neg hempty]
    refine ⟨s3, hget.bind (.neg hempty (hfetch.bind (hlog.bind hresolve))), ?_⟩
    rw [hreplies3, hparticipants, hreplies2]

end Handlers

section Replies

-- '+OK', ':n' or '-ERROR'.
def IsUpdateReply (msg : Bytes) : Prop :=
  msg = updateOkString ∨ msg = errorString ∨ ∃ count : Nat, msg = bytes ":" ++ toString count ++ separator

theorem IsUpdateReply.ne_nil {msg : Bytes} (h : IsUpdateReply msg) : msg ≠ [] := by
  rcases h with rfl | rfl | ⟨count, rfl⟩
  · decide
  · decide
  · have hcolon : bytes ":" = [58] := rfl
    simp [hcolon]

-- A COMMIT returns nothing for an update that it has seen, and a reply otherwise.
theorem commit_reply {p q : Participant} {id : UInt32} {ret : Bytes} (h : p.commit id = .ok (ret, q)) :
    ret = [] ∨ IsUpdateReply ret := by
  rcases Participant.commit_ok h with ⟨-, hret, -⟩ | ⟨-, cmd, rest, -, -, hdispatch, -⟩
  · exact .inl hret
  · refine .inr ?_
    cases cmd with
    | get cmd => cases hdispatch
    | set cmd =>
        simp only [Participant.dispatch, pure_eq_ok, Except.ok.injEq, Participant.handleSet] at hdispatch
        exact .inl (Prod.mk.inj hdispatch).1.symm
    | del cmd =>
        simp only [Participant.dispatch, pure_eq_ok, Except.ok.injEq, Participant.handleDel] at hdispatch
        split at hdispatch
        · exact .inr (.inl (Prod.mk.inj hdispatch).1.symm)
        · exact .inr (.inr ⟨_, (Prod.mk.inj hdispatch).1.symm⟩)

-- No member refuses, one agrees, and none of those that agree returns anything
-- from COMMIT.
def Unanswered (o : Outcomes) (c : Coordinator) (request : Request) : Prop :=
  (∀ addr ∈ c.participants, o.rpc addr request ≠ some (.bool false)) ∧
    (∃ addr ∈ c.participants, o.rpc addr request = some (.bool true)) ∧
    ∀ addr ∈ c.participants, o.rpc addr request = some (.bool true) →
      ∀ ret, o.rpc addr (.COMMIT c.nextId) = some (.string ret) → ret = []

theorem answerOf_reply (participants : AddrSet) (request : Request) (id : UInt32) :
    answerOf o participants request id = [] ∨ IsUpdateReply (answerOf o participants request id) := by
  unfold answerOf
  simp only
  split
  · exact .inr (.inr (.inl rfl))
  split
  · rcases (@sweep_commit (o.rpc · (.COMMIT id)) _ [] _).2 with hnone | ⟨addr, -, haddr⟩
    · exact .inl hnone
    · obtain ⟨p, q, hcommit⟩ := o.committed addr id _ haddr
      exact commit_reply hcommit
  · exact .inr (.inr (.inl rfl))

theorem answerOf_eq_nil (c : Coordinator) (request : Request) :
    answerOf o c.participants request c.nextId = [] ↔ Unanswered o c request := by
  let phase := sweep (o.rpc · request) judgePrepare c.participants.toList (true, false)
  let left := eraseAll c.participants phase.2
  have hleft : ∀ addr, addr ∈ left ↔ addr ∈ c.participants ∧ addr ∉ phase.2 := fun _ => mem_eraseAll
  have hagreed : ∀ addr ∈ c.participants, o.rpc addr request = some (.bool true) → addr ∈ left :=
    fun addr hmem hok => (hleft addr).mpr ⟨hmem, not_mem_dropped hok⟩
  have herror : errorString ≠ [] := by decide
  constructor
  · intro hnil
    have hsome : ¬ left.isEmpty := fun hempty => herror ((if_pos hempty).symm.trans hnil)
    have hok : phase.1.1 = true := by
      by_contra hno
      exact herror ((if_neg hno).symm.trans ((if_neg hsome).symm.trans hnil))
    have hcommit := ((@sweep_commit (o.rpc · (.COMMIT c.nextId)) left.toList [] phase.1.2).1.mp
      ((if_pos hok).symm.trans ((if_neg hsome).symm.trans hnil))).2
    have hnone : ∀ addr ∈ c.participants, o.rpc addr request ≠ some (.bool false) := by
      intro addr hmem hrefused
      have hfalse : phase.1.1 = false :=
        sweep_refused ⟨addr, Std.ExtTreeSet.mem_toList.mpr hmem, hrefused⟩
      rw [hok] at hfalse
      cases hfalse
    have hprepared := (@sweep_prepared (o.rpc · request) c.participants.toList false fun addr hmem =>
      hnone addr (Std.ExtTreeSet.mem_toList.mp hmem)).2
    have hlist : left.toList ≠ [] := by
      rwa [ne_eq, ← List.isEmpty_iff, Std.ExtTreeSet.isEmpty_toList]
    obtain ⟨addr, hmem⟩ := List.exists_mem_of_ne_nil _ hlist
    have hmember := (hleft addr).mp (Std.ExtTreeSet.mem_toList.mp hmem)
    refine ⟨hnone, ⟨addr, hmember.1, ?_⟩, ?_⟩
    · exact hprepared addr (Std.ExtTreeSet.mem_toList.mpr hmember.1) hmember.2
    · intro other hother hok ret hret
      exact hcommit other (Std.ExtTreeSet.mem_toList.mpr (hagreed other hother hok)) ret hret
  · rintro ⟨hnone, ⟨addr, hmem, hyes⟩, hcommit⟩
    obtain ⟨hok, hprepared⟩ := @sweep_prepared (o.rpc · request) c.participants.toList false
      fun addr hmem => hnone addr (Std.ExtTreeSet.mem_toList.mp hmem)
    have hsome : ¬ left.isEmpty := fun hempty => by
      have hin := hagreed addr hmem hyes
      simp [Std.ExtTreeSet.isEmpty_iff.mp hempty] at hin
    have hsilent := (@sweep_commit (o.rpc · (.COMMIT c.nextId)) left.toList [] phase.1.2).1.mpr
      ⟨rfl, fun other hother ret hret => ?_⟩
    · exact (if_neg hsome).trans ((if_pos hok).trans hsilent)
    · have hmember := (hleft other).mp (Std.ExtTreeSet.mem_toList.mp hother)
      have hagrees := hprepared other (Std.ExtTreeSet.mem_toList.mpr hmember.1) hmember.2
      exact hcommit other hmember.1 hagrees ret hret

-- The PREPARE of an update.
def prepareRequest (id : UInt32) : Command → Request
  | .get cmd => .GET cmd
  | .set cmd => .PREPARE_SET { cmd with id }
  | .del cmd => .PREPARE_DEL { cmd with id }

-- A handler that takes the mutex, and does under it what `body` does.
theorem run_critical {body : Code Unit} {s t : Desk} (h : Yields o body s () t) :
    Desk.run o (Program.critical body) .outside s = some ((), .outside, t) := by
  unfold Yields Desk.run at h
  unfold Desk.run Program.critical
  rw [Program.outcome, Program.outcome_bind, h]
  rfl

-- Every update gets one reply; it is empty exactly if nothing came back from
-- COMMIT.
theorem handle_replies (o : Outcomes) (client : Client) {cmd : Command} (hkind : cmd.isUpdate) (s : Desk) :
    ∃ msg t, Desk.run o (handle (client, cmd)) .outside s = some ((), .outside, t) ∧
      t.replies = (client, msg) :: s.replies ∧ (msg = [] ∨ IsUpdateReply msg) ∧
      (msg = [] ↔ Unanswered o s.coordinator (prepareRequest s.coordinator.nextId cmd)) := by
  have hupdate : ∀ (request : UInt32 → Request) (finish : Code Unit), Silent o finish →
      ∃ msg t, Desk.run o (Program.critical (handleUpdate request client finish)) .outside s =
          some ((), .outside, t) ∧ t.replies = (client, msg) :: s.replies ∧
        (msg = [] ∨ IsUpdateReply msg) ∧
        (msg = [] ↔ Unanswered o s.coordinator (request s.coordinator.nextId)) := by
    intro request finish hfinish
    obtain ⟨t, hrun, hreplies⟩ := @handleUpdate_yields o client request finish hfinish s
    refine ⟨_, t, run_critical hrun, hreplies, ?_⟩
    by_cases hempty : s.coordinator.participants.isEmpty
    · rw [if_pos hempty]
      have hnobody : ¬ Unanswered o s.coordinator (request s.coordinator.nextId) := by
        rintro ⟨-, ⟨addr, hmem, -⟩, -⟩
        simp [Std.ExtTreeSet.isEmpty_iff.mp hempty] at hmem
      exact ⟨.inr (.inr (.inl rfl)), iff_of_false (by decide) hnobody⟩
    · rw [if_neg hempty]
      exact ⟨answerOf_reply _ _ _, answerOf_eq_nil _ _⟩
  cases cmd with
  | get cmd => cases hkind
  | set cmd => exact hupdate (fun id => .PREPARE_SET { cmd with id }) (.ret ()) fun s => ⟨s, rfl, rfl⟩
  | del cmd =>
      exact hupdate (fun id => .PREPARE_DEL { cmd with id }) (rememberDelKeys cmd.keys)
        (rememberDelKeys_silent cmd.keys)

-- The handler queues one reply for the client, and it is a message.
def Answered (o : Outcomes) (client : Client) (cmd : Command) (s : Desk) : Prop :=
  ∃ msg t, Desk.run o (handle (client, cmd)) .outside s = some ((), .outside, t) ∧
    t.replies = (client, msg) :: s.replies ∧ IsUpdateReply msg

end Replies

section Examples

-- One participant that agrees to everything up to the COMMIT, which is lost.
def lostCommit : Outcomes where
  rpc := fun _ request =>
    match request with
    | .PREPARE_SET _ => some (.bool true)
    | _ => none
  committed := fun _ _ _ h => nomatch h

-- A coordinator with this one member.
def oneMember : Desk where
  coordinator := {
    participantAddrs := [[0]], nextId := 1, isRecovered := true
    participants := (∅ : AddrSet).insert [0]
    delKeys := ∅, rManager := ⟨[], [], 0, ∅, ∅⟩ }
  replies := []

-- The one participant is unreachable for PREPARE already.
def lostPrepare : Outcomes where
  rpc := fun _ _ => none
  committed := fun _ _ _ h => nomatch h

end Examples

end Coordinator

end CloudLabs.Cdb
