import CloudLabs.Cdb.Ledger.Runs
import CloudLabs.Interaction.Sequential

namespace CloudLabs.Cdb.Ledger

open Interaction RecordManager World Coordinator
open Program (Yields)

instance : Inhabited Choice := ⟨.done⟩

-- The coordinator crashes only where it has a log to reload, and serves nobody before
-- recovery() has returned.
def reloads : Terms Effect World Choice where
  effect _ _ _ _ := True
  environment _ _ := True
  crash w := w.coordinator.rManager.file ≠ []
  early := False

-- How the effects turn out when everything works, but for the answers to PREPARE
-- if it `refuses`.
def works (refuses : Bool) (_ : World) (effect : Effect) : Choice :=
  match effect with
  | .rand => .draw RAND_MAX
  | .call _ (.PREPARE_SET _) => if refuses then .refuse .logCommand else .done
  | _ => .done

-- One member, and nothing is open. The coordinator has issued `count` updates,
-- and its next number is as if it had counted them from `base` on.
structure Solo (base : UInt32) (count : Nat) (w : World) : Prop where
  members : w.coordinator.participants.toList = [[0]]
  addrs : w.coordinator.participantAddrs = [[0]]
  nextId : w.coordinator.nextId = base + UInt32.ofNat count
  recoverable : ∃ last, w.coordinator.rManager.Recoverable last
  closed : w.coordinator.rManager.records = ∅
  alive : (w.node [0]).alive = true
  level : (w.node [0]).participant.nextId = base + UInt32.ofNat count
  pending : (w.node [0]).participant.dbRequests = []
  issued : w.issued = count

section Calls

variable {mode : Mode} {w : World} {refuses : Bool} {request : Request} {reply : Reply} {q : Participant}

theorem not_isEmpty_of_members (hmembers : w.coordinator.participants.toList = [[0]]) :
    ¬ w.coordinator.participants.isEmpty = true := by
  intro hempty
  have hnone : w.coordinator.participants = ∅ := by simpa using hempty
  rw [hnone] at hmembers
  cases hmembers

-- A call that is executed and answered.
theorem call_yields (mode : Mode) (request : Request) (hchoice : works refuses w (.call [0] request) = .done) (halive : (w.node [0]).alive = true)
    (hhandle : (w.node [0]).participant.handle request = .ok (reply, q)) :
    ∃ u, Yields cdb (works refuses) mode (call [0] request) w (some reply) u ∧
      u.coordinator = w.coordinator ∧ u.logged = w.logged ∧ u.node [0] = ⟨q, true⟩ ∧
      u.sent = (w.send [0] request).sent := by
  obtain ⟨hcall, hnode⟩ := World.call_done halive hhandle
  refine ⟨((w.send [0] request).execute [0] request).2, Yields.op ?_, send_coordinator, ?_, hnode, rfl⟩
  · show w.call [0] request (works refuses w (.call [0] request)) = _
    rw [hchoice]
    exact hcall
  · show (w.send [0] request).logged = w.logged
    simp only [send]
    split <;> rfl

-- The loop over the only member.
theorem forEach_yields {α : Type} {judge : Option Reply → α → Verdict α} {answer : Option Reply} {state last : α}
    {members : List Addr} {u : World} (hmembers : members = [[0]])
    (hcall : Yields cdb (works refuses) mode (call [0] request) w answer u)
    (hjudge : judge answer state = .keep last ∨ judge answer state = .stop last) :
    Yields cdb (works refuses) mode (forEachParticipant request judge members state) w last u := by
  subst hmembers
  refine Yields.bind hcall ?_
  rcases hjudge with hkeep | hstop
  · rw [hkeep]
    exact .ret last
  · rw [hstop]
    exact .ret last

theorem logDone_yields (hmembers : w.coordinator.participants.toList = [[0]]) (status : RecordStatus)
    (id : UInt32) :
    Yields cdb (works refuses) mode (Coordinator.logDone status id) w () (w.log status id) := by
  have hget : Yields cdb (works refuses) mode Coordinator.get w w.coordinator w := rfl
  refine hget.bind ?_
  rw [if_neg (not_isEmpty_of_members hmembers)]
  rfl

end Calls

section Updates

variable {w : World} {base : UInt32} {count : Nat} {client : Client} {key value : Bytes}

-- What the handler does before it calls the member.
theorem Solo.issue (h : Solo base count w) (refuses : Bool) (client : Client) (key value : Bytes) :
    ∃ u : World, u.coordinator.participants.toList = [[0]] ∧ u.coordinator.participantAddrs = [[0]] ∧
      u.coordinator.nextId = base + UInt32.ofNat (count + 1) ∧
      u.coordinator.rManager.Opens (base + UInt32.ofNat count) RECORD_UNRESOLVED ∧
      u.coordinator.rManager.Recoverable (base + UInt32.ofNat (count + 1)) ∧
      u.node = w.node ∧ u.issued = count + 1 ∧ u.sent = w.sent ∧
      ∀ t, Yields cdb (works refuses) .inside (resolveUpdate
          (.PREPARE_SET ⟨base + UInt32.ofNat count, key, value⟩) client (base + UInt32.ofNat count) (.ret ()))
          u () t →
        Yields cdb (works refuses) .inside
          (handleUpdate (fun id => .PREPARE_SET ⟨id, key, value⟩) client (.ret ())) w () t := by
  let w1 : World := { w with coordinator := { w.coordinator with nextId := w.coordinator.nextId + 1 } }
  have hsucc : w.coordinator.nextId + 1 = base + UInt32.ofNat (count + 1) := by
    rw [h.nextId, UInt32.add_assoc, UInt32.ofNat_add]
    rfl
  refine ⟨w1.log RECORD_UNRESOLVED w.coordinator.nextId, h.members, h.addrs, hsucc, ?_, ?_, rfl, ?_, rfl,
    fun t ht => ?_⟩
  · rw [← h.nextId]
    exact log_opens h.closed (Record.done_unresolved _ _)
  · obtain ⟨last, hrecoverable⟩ := h.recoverable
    rw [← hsucc]
    exact hrecoverable.log _
  · rw [issued_log_unresolved]
    exact congrArg (· + 1) h.issued
  · rw [← h.nextId] at ht
    have hget : Yields cdb (works refuses) .inside Coordinator.get w w.coordinator w := rfl
    have hfetch : Yields cdb (works refuses) .inside fetchAddNextId w w.coordinator.nextId w1 := rfl
    have hlog : Yields cdb (works refuses) .inside (Coordinator.log RECORD_UNRESOLVED w.coordinator.nextId) w1 ()
        (w1.log RECORD_UNRESOLVED w.coordinator.nextId) := rfl
    refine hget.bind ?_
    rw [if_neg (not_isEmpty_of_members h.members)]
    exact hfetch.bind (hlog.bind ht)

-- An update is committed.
theorem Solo.update (h : Solo base count w) (client : Client) (key value : Bytes) :
    ∃ t, Yields cdb (works false) .inside
        (handleUpdate (fun id => .PREPARE_SET ⟨id, key, value⟩) client (.ret ())) w () t ∧
      Solo base (count + 1) t ∧ t.coordinator.rManager.Recoverable t.coordinator.nextId ∧
      t.coordinator.rManager.file ≠ [] ∧ ([0], .COMMIT (base + UInt32.ofNat count)) ∈ t.sent ∧
      ∀ message ∈ w.sent, message ∈ t.sent := by
  obtain ⟨w1, hmembers, haddrs, hnext, hopens, hrecoverable, hnode, hissued, hsent, hresolve⟩ :=
    h.issue false client key value
  have hsucc : base + UInt32.ofNat (count + 1) = base + UInt32.ofNat count + 1 := by
    rw [UInt32.ofNat_add, ← UInt32.add_assoc]
    rfl
  have hlevel := h.level
  rw [hsucc] at hnext hrecoverable
  generalize base + UInt32.ofNat count = id at hopens hnext hrecoverable hresolve hlevel hsucc ⊢
  -- The member prepares the command.
  obtain ⟨p, hprepare, -, hpnext, hpending⟩ :=
    Participant.prepare_of_empty h.pending (rfl : (Command.set ⟨id, key, value⟩).isUpdate = true)
  obtain ⟨w2, hcall, hc2, hl2, hn2, hs2⟩ := call_yields .inside (.PREPARE_SET ⟨id, key, value⟩)
    (rfl : works false w1 _ = _) (by rw [hnode]; exact h.alive)
    (Participant.handle_prepares rfl (by rw [hnode]; exact hprepare))
  have hmembers2 : w2.coordinator.participants.toList = [[0]] := by rw [hc2, hmembers]
  -- It commits it.
  let w3 := w2.log RECORD_COMMIT id
  obtain ⟨q, hcommit, -, hqnext, hqpending⟩ :=
    Participant.commit_of_pending (hpnext.trans hlevel) hpending rfl rfl
  have hhandle : (w3.node [0]).participant.handle (.COMMIT id) = .ok (.string updateOkString, q) := by
    show (w2.node [0]).participant.handle _ = _
    rw [hn2]
    simp only [Participant.handle, hcommit, ok_bind, pure_eq_ok]
  obtain ⟨w4, hcall', hc4, hl4, hn4, hs4⟩ := call_yields .inside (.COMMIT id) (rfl : works false w3 _ = _)
    (by show (w2.node [0]).alive = true; rw [hn2]) hhandle
  have hmembers4 : w4.coordinator.participants.toList = [[0]] := by rw [hc4]; exact hmembers2
  let w5 := w4.log RECORD_COMMIT_DONE id
  let t : World := { w5 with replies := (client, updateOkString) :: w5.replies }
  have hnext4 : w4.coordinator.nextId = id + 1 := by rw [hc4]; show w2.coordinator.nextId = _; rw [hc2, hnext]
  have hrecoverable4 : t.coordinator.rManager.Recoverable t.coordinator.nextId := by
    have hrecoverable3 : w4.coordinator.rManager.Recoverable (id + 1) := by
      rw [hc4, ← hnext, ← hc2]
      show (w2.coordinator.rManager.log ⟨RECORD_COMMIT, id, w2.coordinator.nextId⟩).Recoverable _
      rw [hc2]
      exact hrecoverable.log _
    exact hrecoverable3.log _
  refine ⟨t, hresolve t ?_, ?_, hrecoverable4, log_file_ne_nil _ _, ?_, ?_⟩
  · have hprepared : Yields cdb (works false) .inside (forEachParticipant (.PREPARE_SET ⟨id, key, value⟩)
        judgePrepare w1.coordinator.participants.toList (true, false)) w1 (true, false) w2 :=
      forEach_yields hmembers hcall (.inl rfl)
    have hcommitted : Yields cdb (works false) .inside (forEachParticipant (.COMMIT id) judgeCommit
        w3.coordinator.participants.toList ([], false)) w3 (updateOkString, false) w4 :=
      forEach_yields hmembers2 hcall' (.inl rfl)
    have hget1 : Yields cdb (works false) .inside Coordinator.get w1 w1.coordinator w1 := rfl
    have hget2 : Yields cdb (works false) .inside Coordinator.get w2 w2.coordinator w2 := rfl
    have hget3 : Yields cdb (works false) .inside Coordinator.get w3 w3.coordinator w3 := rfl
    have hlog : Yields cdb (works false) .inside (Coordinator.log RECORD_COMMIT id) w2 () w3 := rfl
    have hsend : Yields cdb (works false) .inside (sendResultTo (some client) updateOkString) w5 () t := rfl
    have hresolved : Yields cdb (works false) .inside (commitDbRequest (some client) id false) w2 false t :=
      hlog.bind (hget3.bind (hcommitted.bind ((logDone_yields hmembers4 _ _).bind (hsend.bind (.ret _)))))
    refine hget1.bind (hprepared.bind (hget2.bind ?_))
    rw [if_neg (not_isEmpty_of_members hmembers2), if_pos rfl]
    exact hresolved.bind ((Yields.ret ()).bind (.ret ()))
  · have hopens3 : w3.coordinator.rManager.Opens id RECORD_COMMIT := by
      show (w2.coordinator.rManager.log _).Opens id RECORD_COMMIT
      rw [hc2]
      exact hopens.log rfl rfl
    refine ⟨hmembers4, ?_, ?_, ⟨_, hrecoverable4⟩, ?_, ?_, ?_, ?_, ?_⟩
    · show w4.coordinator.participantAddrs = [[0]]
      rw [hc4]
      show w2.coordinator.participantAddrs = [[0]]
      rw [hc2, haddrs]
    · rw [hsucc]
      exact hnext4
    · show (w4.coordinator.rManager.log _).records = ∅
      rw [hc4]
      exact hopens3.log_done rfl rfl
    · show (w4.node [0]).alive = true
      rw [hn4]
    · show (w4.node [0]).participant.nextId = _
      rw [hn4, hsucc]
      exact hqnext
    · show (w4.node [0]).participant.dbRequests = []
      rw [hn4]
      exact hqpending
    · have hissued4 : w4.issued = count + 1 := by
        rw [World.issued, hl4]
        show (w2.log RECORD_COMMIT id).issued = _
        rw [issued_log (by decide), World.issued, hl2]
        exact hissued
      exact (issued_log (by decide)).trans hissued4
  · show ([0], Request.COMMIT id) ∈ w4.sent
    rw [hs4]
    exact List.mem_cons_self
  · intro message hmessage
    show message ∈ w4.sent
    have hsent2 : message ∈ w2.sent := by
      rw [hs2]
      show message ∈ w1.sent
      rw [hsent]
      exact hmessage
    rw [hs4]
    exact List.mem_cons_of_mem _ hsent2

-- The member refuses an update, and it is aborted.
theorem Solo.refuse (h : Solo base count w) (client : Client) (key value : Bytes) :
    ∃ t, Yields cdb (works true) .inside
        (handleUpdate (fun id => .PREPARE_SET ⟨id, key, value⟩) client (.ret ())) w () t ∧
      t.issued = count + 1 ∧ ([0], .ABORT (base + UInt32.ofNat count)) ∈ t.sent ∧
      ∀ message ∈ w.sent, message ∈ t.sent := by
  obtain ⟨w1, hmembers, -, -, -, -, hnode, hissued, hsent, hresolve⟩ := h.issue true client key value
  generalize base + UInt32.ofNat count = id at hresolve ⊢
  have halive1 : (w1.node [0]).alive = true := by rw [hnode]; exact h.alive
  let w2 : World := { w1.setNode [0] (w1.node [0]) with vetoed := w1.issued :: w1.vetoed }
  have hcall : Yields cdb (works true) .inside (call [0] (.PREPARE_SET ⟨id, key, value⟩)) w1
      (some (.bool false)) w2 := by
    refine Yields.op ?_
    show ((w1.node [0]).refuse .logCommand (.PREPARE_SET ⟨id, key, value⟩)).map _ = _
    rw [Node.refuse, if_pos halive1]
    rfl
  have halive2 : (w2.node [0]).alive = true := by
    show (Function.update w1.node [0] (w1.node [0]) [0]).alive = true
    rw [Function.update_self, halive1]
  let w3 := w2.log RECORD_ABORT id
  have hhandle : (w3.node [0]).participant.handle (.ABORT id) =
      .ok (.bool true, ((w3.node [0]).participant.abort id).2) := by
    simp only [Participant.handle, Participant.abort, pure_eq_ok]
    split <;> rfl
  obtain ⟨w4, hcall', hc4, hl4, -, hs4⟩ := call_yields .inside (.ABORT id) (rfl : works true w3 _ = _)
    halive2 hhandle
  have hmembers4 : w4.coordinator.participants.toList = [[0]] := by rw [hc4]; exact hmembers
  let w5 := w4.log RECORD_ABORT_DONE id
  let t : World := { w5 with replies := (client, errorString) :: w5.replies, refused := id :: w5.refused }
  refine ⟨t, hresolve t ?_, ?_, ?_, ?_⟩
  · have hrefused : Yields cdb (works true) .inside (forEachParticipant (.PREPARE_SET ⟨id, key, value⟩)
        judgePrepare w1.coordinator.participants.toList (true, false)) w1 (false, false) w2 :=
      forEach_yields hmembers hcall (.inr rfl)
    have haborted : Yields cdb (works true) .inside (forEachParticipant (.ABORT id) judgeAbort
        w3.coordinator.participants.toList false) w3 false w4 :=
      forEach_yields hmembers hcall' (.inl rfl)
    have hget1 : Yields cdb (works true) .inside Coordinator.get w1 w1.coordinator w1 := rfl
    have hget2 : Yields cdb (works true) .inside Coordinator.get w2 w2.coordinator w2 := rfl
    have hget3 : Yields cdb (works true) .inside Coordinator.get w3 w3.coordinator w3 := rfl
    have hlog : Yields cdb (works true) .inside (Coordinator.log RECORD_ABORT id) w2 () w3 := rfl
    have hsend : Yields cdb (works true) .inside (sendErrorTo (some client) id) w5 () t := rfl
    have hresolved : Yields cdb (works true) .inside (abortDbRequest (some client) id false) w2 false t :=
      hlog.bind (hget3.bind (haborted.bind ((logDone_yields hmembers4 _ _).bind (hsend.bind (.ret _)))))
    refine hget1.bind (hrefused.bind (hget2.bind ?_))
    have hmembers2 : w2.coordinator.participants.toList = [[0]] := hmembers
    rw [if_neg (not_isEmpty_of_members hmembers2), if_neg (by decide)]
    exact hresolved.bind (.ret ())
  · have hissued4 : w4.issued = count + 1 := by
      rw [World.issued, hl4]
      exact (issued_log (by decide)).trans hissued
    exact (issued_log (by decide)).trans hissued4
  · show ([0], Request.ABORT id) ∈ w4.sent
    rw [hs4]
    exact List.mem_cons_self
  · intro message hmessage
    show message ∈ w4.sent
    rw [hs4]
    refine List.mem_cons_of_mem _ ?_
    show message ∈ w1.sent
    rw [hsent]
    exact hmessage

end Updates

section Restart

variable {w : World} {base : UInt32} {count : Nat}

-- The coordinator starts on a log that does not give it a number.
theorem Solo.restart (h : Solo base count w) (hzero : w.coordinator.rManager.Recoverable 0) (refuses : Bool) :
    ∃ u t base', w.restart = some u ∧ Yields cdb (works refuses) .alone Coordinator.recovery u () t ∧
      Solo base' count t ∧ base' + UInt32.ofNat count = RAND_MAX ∧ t.sent = w.sent := by
  let loaded : RecordManager := { w.coordinator.rManager with nextId := 0, cmds := ∅ }
  let u : World := { w with coordinator := Coordinator.start [[0]] loaded }
  have hrestart : w.restart = some u := by
    rw [World.restart, hzero.load, h.addrs]
  let u1 : World := { u with coordinator := { u.coordinator with nextId := RAND_MAX, isRecovered := false } }
  let u2 : World := { u1 with coordinator := { u1.coordinator with
    participants := u1.coordinator.participants.insert [0] } }
  obtain ⟨u3, hcall, hc3, hl3, hn3, hs3⟩ := call_yields .alone .NEXT_ID (rfl : works refuses u2 _ = _) h.alive rfl
  obtain ⟨t, hcall', hct, hlt, hnt, hst⟩ := call_yields .alone (.SET_NEXT_ID RAND_MAX)
    (rfl : works refuses u3 _ = _) (by rw [hn3]) rfl
  refine ⟨u, t, RAND_MAX - UInt32.ofNat count, hrestart, ?_, ?_, UInt32.sub_add_cancel _ _, ?_⟩
  · have hnumber : Yields cdb (works refuses) .alone initNextId u () u1 := rfl
    have hget1 : Yields cdb (works refuses) .alone Coordinator.get u1 u1.coordinator u1 := rfl
    have hget3 : Yields cdb (works refuses) .alone Coordinator.get u3 u3.coordinator u3 := rfl
    have hinsert : Yields cdb (works refuses) .alone (insertParticipant [0]) u1 () u2 := rfl
    have hcopy : Yields cdb (works refuses) .alone copyRecords t [] t := by
      refine Yields.op ?_
      show some (t.coordinator.rManager.records.values, t) = _
      rw [hct, hc3]
      show some (w.coordinator.rManager.records.values, t) = _
      rw [h.closed]
      rfl
    have hinit : Yields cdb (works refuses) .alone (initParticipant [0]) u1 () t := by
      refine hinsert.bind (hcall.bind (hget3.bind ?_))
      rw [hc3]
      exact hcall'.bind (.ret ())
    exact hnumber.bind ((hget1.bind (hinit.bind (.ret ()))).critical_alone.bind (hcopy.bind (.ret ())))
  · have hbase : RAND_MAX - UInt32.ofNat count + UInt32.ofNat count = RAND_MAX := UInt32.sub_add_cancel _ _
    have hct' : t.coordinator = u2.coordinator := hct.trans hc3
    have hlt' : t.issued = w.issued := by rw [World.issued, hlt, hl3]; rfl
    refine ⟨?_, ?_, ?_, ⟨0, ?_⟩, ?_, ?_, ?_, ?_, hlt'.trans h.issued⟩
    · rw [hct']
      rfl
    · rw [hct']
      rfl
    · rw [hct', hbase]
    · rw [hct']
      exact hzero
    · rw [hct']
      exact h.closed
    · rw [hnt]
    · rw [hnt, hbase]
    · rw [hnt]
      show (u3.node [0]).participant.dbRequests = []
      rw [hn3]
      exact h.pending
  · rw [hst]
    show u3.sent = w.sent
    rw [hs3]
    rfl

end Restart

section Runs

variable {w : World} {base : UInt32} {count : Nat} {start : System} {threads : List (Code Unit)}

-- So many updates more are committed, one after the other.
theorem Solo.serve (h : Solo base count w) (hreach : cdb.Reachable reloads start ⟨w, .serving none threads⟩)
    (more : Nat) :
    ∃ t threads, cdb.Reachable reloads start ⟨t, .serving none threads⟩ ∧ Solo base (count + more + 1) t ∧
      t.coordinator.rManager.Recoverable t.coordinator.nextId ∧ t.coordinator.rManager.file ≠ [] ∧
      ([0], .COMMIT (base + UInt32.ofNat count)) ∈ t.sent := by
  induction more with
  | zero =>
      obtain ⟨t, hrun, ht, hrecoverable, hfile, hcommit, -⟩ := h.update 0 (bytes "k") (bytes "v")
      have hserved := hreach.serve (0, .set ⟨0, bytes "k", bytes "v"⟩) (fun _ _ _ => trivial)
        hrun.critical
      obtain ⟨threads', hreach'⟩ := hserved
      exact ⟨t, threads', hreach', ht, hrecoverable, hfile, hcommit⟩
  | succ more ih =>
      obtain ⟨u, threads', hreach', hu, -, -, hcommit⟩ := ih
      obtain ⟨t, hrun, ht, hrecoverable, hfile, -, hsent⟩ := hu.update 0 (bytes "k") (bytes "v")
      have hserved := hreach'.serve (0, .set ⟨0, bytes "k", bytes "v"⟩) (fun _ _ _ => trivial)
        hrun.critical
      obtain ⟨threads'', hreach''⟩ := hserved
      exact ⟨t, threads'', hreach'', ht, hrecoverable, hfile, hsent _ hcommit⟩

end Runs

-- A log that ends with the largest number that can be drawn.
def largest : RecordManager where
  file := fileOf [⟨RECORD_COMMIT_DONE, RAND_MAX - 1, RAND_MAX⟩]
  cmdFile := []
  nextId := RAND_MAX
  records := ∅
  cmds := ∅

def levelWith : Node where
  participant := { store := ∅, nextId := RAND_MAX, dbRequests := [], rManager := largest }
  alive := true

theorem largest_boots : ∃ t, Yields cdb (works false) .alone Coordinator.recovery
    (World.initial [[0]] largest fun _ => levelWith) () t ∧ Solo RAND_MAX 0 t := by
  have hload : RecordManager.load largest.file [] = .ok largest := rfl
  exact ⟨_, rfl, rfl, rfl, rfl, ⟨RAND_MAX, (recoverable_of_load hload).1⟩, rfl, rfl, rfl, rfl, rfl⟩

-- The number comes back to zero, the next start of the coordinator takes its log
-- for an empty one and draws the number of an update that was committed.
theorem not_atomic_of_wrap : ∃ (addrs : List Addr) (m : RecordManager) (node : Addr → Node) (pool : System),
    m.file ≠ [] ∧ RecordManager.load m.file m.cmdFile = .ok m ∧ m.OneOpen m.nextId ∧
      cdb.Reachable reloads (System.boot (World.initial addrs m node)) pool ∧ pool.shared.issued < 2 ^ 32 ∧
      ∃ addr id, (addr, .COMMIT id) ∈ pool.shared.sent ∧ (addr, .ABORT id) ∈ pool.shared.sent := by
  refine ⟨[[0]], largest, fun _ => levelWith, ?_⟩
  obtain ⟨w, hboot, hw⟩ := largest_boots
  have hbooted : cdb.Reachable reloads (System.boot (World.initial [[0]] largest fun _ => levelWith))
      ⟨w, .serving none [Coordinator.heartbeatParticipants 0]⟩ :=
    (Service.Reachable.boot .start recovery_balanced (fun _ _ _ => trivial) hboot).step (.serve 0) trivial rfl
  -- So many updates take the number from RAND_MAX to zero.
  obtain ⟨u, threads, hserved, hu, hrecoverable, hfile, hcommit⟩ := hw.serve hbooted (2 ^ 31)
  have hzero : u.coordinator.nextId = 0 := by
    rw [hu.nextId]
    decide
  rw [hzero] at hrecoverable
  obtain ⟨v, x, base, hrestart, hrecovery, hx, hbase, hsent⟩ := hu.restart hrecoverable true
  have hcrash : cdb.step ⟨u, .serving none threads⟩ .crash = some ⟨v, .booting false Coordinator.recovery⟩ := by
    show (World.restart u).map _ = _
    rw [hrestart]
    rfl
  have hcrashed : cdb.Reachable reloads (System.boot (World.initial [[0]] largest fun _ => levelWith))
      ⟨v, .booting false Coordinator.recovery⟩ := hserved.step .crash hfile hcrash
  have hrebooted : cdb.Reachable reloads (System.boot (World.initial [[0]] largest fun _ => levelWith))
      ⟨x, .serving none [Coordinator.heartbeatParticipants 0]⟩ :=
    (hcrashed.boot recovery_balanced (fun _ _ _ => trivial) hrecovery).step (.serve 0) trivial rfl
  obtain ⟨y, hrefused, hissued, habort, hkept⟩ := hx.refuse 0 (bytes "k") (bytes "v")
  have hlast := hrebooted.serve (0, .set ⟨0, bytes "k", bytes "v"⟩) (fun _ _ _ => trivial)
    hrefused.critical
  obtain ⟨threads', hlast⟩ := hlast
  rw [hbase] at habort
  have hbound : y.issued < 2 ^ 32 := by omega
  exact ⟨_, by decide, rfl, .inl rfl, hlast, hbound, [0], RAND_MAX, hkept _ (hsent ▸ hcommit), habort⟩

end CloudLabs.Cdb.Ledger
