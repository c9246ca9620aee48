import CloudLabs.Cdb.Coordinator.Requests
import CloudLabs.Cdb.Coordinator.Footprint
import CloudLabs.Cdb.Refinement
import CloudLabs.Interaction.Marks
import Mathlib.Data.Nat.Pairing

namespace CloudLabs.Cdb

open Interaction

namespace Coordinator

-- The loop of handle_db_requests over the commands, the first of which has this
-- number on its connection. Every request is a client of its own.
def dispatch (connection number : Nat) : List Command → Code Unit
  | [] => return
  | cmd :: cmds => do
      handle (Nat.pair connection number, cmd)
      dispatch connection (number + 1) cmds

-- A connection whose reads return these chunks: handle_db_requests asks for the
-- next read when it has served what it could parse.
def session (connection number : Nat) : NextRead → List Bytes → Code Unit
  | .closed, _ => return
  | .read _, [] => return
  | .read prevData, chunk :: chunks => do
      dispatch connection number (handleDbRequests prevData chunk).1
      session connection (number + (handleDbRequests prevData chunk).1.length)
        (handleDbRequests prevData chunk).2 chunks

theorem dispatch_append (connection number : Nat) (cmds more : List Command) :
    dispatch connection number (cmds ++ more) =
      (dispatch connection number cmds).bind fun _ => dispatch connection (number + cmds.length) more := by
  induction cmds generalizing number with
  | nil => rfl
  | cons cmd cmds ih =>
      have hnumber : number + (cmds.length + 1) = number + 1 + cmds.length := by omega
      simp only [List.cons_append, dispatch, Program.bind_eq, Program.bind_assoc, List.length_cons, hnumber, ih]

-- The commands are dispatched one after the other, wherever the reads are cut.
theorem session_eq (connection number : Nat) (next : NextRead) (chunks : List Bytes) :
    session connection number next chunks = dispatch connection number (handleReads next chunks).1 := by
  induction chunks generalizing number next with
  | nil => cases next <;> rfl
  | cons chunk chunks ih =>
      cases next with
      | closed => rfl
      | read prevData =>
          simp only [session, handleReads, dispatch_append, Program.bind_eq]
          congr 1
          funext _
          exact ih _ _

end Coordinator

section Queued

-- Whose reply the effect queues.
def Effect.answers : Effect → Option Client
  | .sendResult client _ => some client
  | .sendError client _ => some client
  | _ => none

namespace Coordinator

open Program (Within)

variable {word : List Client}

def Unanswering (effect : Effect) : Prop := effect.answers = none

theorem upkeep_unanswering (effect : Effect) (h : effect.Upkeep) : Unanswering effect := by
  cases effect with
  | sendResult client msg => exact h.elim
  | sendError client id => exact h.elim
  | _ => rfl

theorem carryCommit_unanswering (id : UInt32) (dead : Bool) : (carryCommit id dead).Within Unanswering :=
  carryCommit_within upkeep_unanswering (fun _ => rfl) rfl dead

theorem carryAbort_unanswering (id : UInt32) (dead : Bool) : (carryAbort id dead).Within Unanswering :=
  carryAbort_within upkeep_unanswering (fun _ => rfl) rfl dead

-- The program queues one reply, which is for this client.
abbrev AnswersOnce {α : Type} (client : Client) (program : Code α) : Prop :=
  ∀ word, program.Leaves Effect.answers word fun _ later => later = word ++ [client]

theorem AnswersOnce.after {α β : Type} {client : Client} {program : Code α} {rest : α → Code β}
    (hprogram : program.Within Unanswering) (hrest : ∀ value, AnswersOnce client (rest value)) :
    AnswersOnce client (program.bind rest) := fun word =>
  Program.Leaves.bind (.of_within hprogram (fun _ h => h) fun value => hrest value word)

theorem AnswersOnce.before {α β : Type} {client : Client} {program : Code α} {rest : α → Code β}
    (hprogram : AnswersOnce client program) (hrest : ∀ value, (rest value).Within Unanswering) :
    AnswersOnce client (program.bind rest) := fun word =>
  Program.Leaves.bind ((hprogram word).mono fun value _ hlater =>
    .of_within (hrest value) (fun _ h => h) fun _ => hlater)

theorem commitDbRequest_answers (client : Client) (id : UInt32) (dead : Bool) :
    AnswersOnce client (commitDbRequest (some client) id dead) := by
  rw [commitDbRequest_eq]
  refine .after ⟨rfl, fun _ => trivial⟩ fun _ => .after (carryCommit_unanswering id dead) fun result => ?_
  exact .before (fun _ _ => rfl) fun _ => trivial

theorem abortDbRequest_answers (client : Client) (id : UInt32) (dead : Bool) :
    AnswersOnce client (abortDbRequest (some client) id dead) := by
  rw [abortDbRequest_eq]
  refine .after ⟨rfl, fun _ => trivial⟩ fun _ => .after (carryAbort_unanswering id dead) fun dead => ?_
  exact .before (fun _ _ => rfl) fun _ => trivial

theorem handleUpdate_answers (request : UInt32 → Request) (client : Client) {finish : Code Unit}
    (hfinish : finish.Within Effect.Upkeep) : AnswersOnce client (handleUpdate request client finish) := by
  have hnotify : ∀ dead, (notifyIf dead).Within Unanswering := fun dead => (notifyIf_upkeep dead).mono upkeep_unanswering
  refine .after ⟨rfl, fun _ => trivial⟩ fun c => ?_
  split
  · exact fun _ _ => rfl
  refine .after (fetchAddNextId_upkeep.mono upkeep_unanswering) fun id => .after ⟨rfl, fun _ => trivial⟩ fun _ => ?_
  refine .after ⟨rfl, fun _ => trivial⟩ fun c => ?_
  refine .after (forEachParticipant_within upkeep_unanswering (fun _ => rfl) judgePrepare _ _) fun phase => ?_
  refine .after ⟨rfl, fun _ => trivial⟩ fun c => ?_
  split
  · exact fun _ _ => rfl
  split
  · exact .before (commitDbRequest_answers client id phase.2) fun dead =>
      (hfinish.mono upkeep_unanswering).bind fun _ => hnotify dead
  · exact .before (abortDbRequest_answers client id phase.2) hnotify

-- What is left when a program that queues no reply has run.
theorem leaves_after {α β : Type} {program : Code α} {rest : α → Code β} {post : β → List Client → Prop}
    (hprogram : program.Within Unanswering) (hrest : ∀ value, (rest value).Leaves Effect.answers word post) :
    (program.bind rest).Leaves Effect.answers word post :=
  Program.Leaves.bind (.of_within hprogram (fun _ h => h) hrest)

-- The reply is queued in the loop exactly if it says so.
theorem getFromParticipants_answers (client : Client) (cmd : GetCommand) (addrs : List Addr) (dead : Bool) :
    (getFromParticipants client cmd addrs dead).Leaves Effect.answers word fun result later =>
      later = word ++ if result.1 then [client] else [] := by
  induction addrs generalizing dead with
  | nil => exact (List.append_nil word).symm
  | cons addr rest ih =>
      refine leaves_after ⟨rfl, fun _ => trivial⟩ fun reply => ?_
      split
      · exact fun _ => rfl
      · exact leaves_after ⟨rfl, fun _ => trivial⟩ fun _ => ih true

-- What has been queued when the scope of the lock is left.
def queuedInside (client : Client) : Option (Bool × Bool) → List Client
  | some (false, _) => []
  | _ => [client]

theorem handleDbGetRequest_answers (client : Client) (cmd : GetCommand) :
    AnswersOnce client (handleDbGetRequest client cmd) := by
  intro word
  have hscope : (Program.critical (do
      if (← get).participants.isEmpty then
        sendError client none
        return none
      else
        return some (← getFromParticipants client cmd (← get).participants.toList false)) :
      Code (Option (Bool × Bool))).Leaves Effect.answers word fun answered later =>
        later = word ++ queuedInside client answered := by
    refine Program.Leaves.critical (leaves_after ⟨rfl, fun _ => trivial⟩ fun c => ?_)
    split
    · exact fun _ => rfl
    · refine leaves_after ⟨rfl, fun _ => trivial⟩ fun c => ?_
      refine Program.Leaves.bind ((getFromParticipants_answers client cmd _ false).mono ?_)
      rintro ⟨answered, dead⟩ later hlater
      cases answered <;> exact hlater
  refine Program.Leaves.bind (hscope.mono fun answered later hlater => ?_)
  match answered with
  | none => exact hlater
  | some (true, dead) => exact .of_within (notifyIf_upkeep dead) upkeep_unanswering fun _ => hlater
  | some (false, dead) =>
      refine fun _ => .of_within (notifyIf_upkeep dead) upkeep_unanswering fun _ => ?_
      rw [hlater]
      exact congrArg (· ++ [client]) (List.append_nil word)

theorem handle_answers (client : Client) (cmd : Command) : AnswersOnce client (handle (client, cmd)) := by
  intro word
  cases cmd with
  | get cmd => exact handleDbGetRequest_answers client cmd word
  | set cmd =>
      have hfinish : (Program.ret () : Code Unit).Within Effect.Upkeep := trivial
      simp only [handle, handleDbSetRequest_eq]
      exact (handleUpdate_answers _ client hfinish word).critical
  | del cmd =>
      simp only [handle, handleDbDelRequest_eq]
      exact (handleUpdate_answers _ client (rememberDelKeys_upkeep cmd.keys) word).critical

section Heartbeats

-- Nobody waits for what becomes of a record of the log.
theorem resolveRecords_unanswering (records : List Record) : (resolveRecords records).Within Unanswering :=
  resolveRecords_within upkeep_unanswering (fun _ _ => rfl) (fun _ _ _ => rfl) records

theorem readmitParticipant_unanswering (addr : Addr) : (readmitParticipant addr).Within Unanswering := by
  refine Within.bind ⟨rfl, fun _ => trivial⟩ fun c => ?_
  split
  · trivial
  refine ((recoverParticipant_upkeep addr).mono upkeep_unanswering).bind fun recovered => ?_
  split
  · trivial
  · trivial
  · refine Within.bind ⟨rfl, fun _ => trivial⟩ fun _ => (forgetDelKeys_upkeep.mono upkeep_unanswering).bind fun _ => ?_
    refine Within.bind (Within.bind ⟨rfl, fun _ => trivial⟩ fun records => ?_) fun _ => trivial
    exact resolveRecords_unanswering records

-- The scopes of the lock stand between the effects, so the marks are followed.
theorem heartbeatParticipant_answers (addr : Addr) :
    (heartbeatParticipant addr).Leaves Effect.answers word fun _ later => later = word := by
  have herase : (Program.critical (eraseParticipant addr)).Leaves Effect.answers word fun _ later => later = word :=
    Program.Leaves.critical (.of_within (eraseParticipant_upkeep addr) upkeep_unanswering fun _ => rfl)
  have hscope : (Program.critical (readmitParticipant addr)).Leaves Effect.answers word
      fun _ later => later = word :=
    Program.Leaves.critical (.of_within (readmitParticipant_unanswering addr) (fun _ h => h) fun _ => rfl)
  refine leaves_after ⟨rfl, fun _ => trivial⟩ fun reply => ?_
  cases reply with
  | none => exact herase
  | some _ =>
      refine Program.Leaves.bind (hscope.mono fun ok later hlater => ?_)
      subst hlater
      cases ok with
      | true => exact rfl
      | false => exact herase

theorem heartbeatList_answers (addrs : List Addr) :
    (heartbeatList addrs).Leaves Effect.answers word fun _ later => later = word := by
  induction addrs with
  | nil => exact rfl
  | cons addr rest ih =>
      refine Program.Leaves.bind ((heartbeatParticipant_answers addr).mono fun _ later hlater => ?_)
      rw [hlater]
      exact ih

theorem heartbeatParticipants_answers (passes : Nat) :
    (heartbeatParticipants passes).Leaves Effect.answers word fun _ later => later = word := by
  induction passes with
  | zero => exact rfl
  | succ passes ih =>
      refine leaves_after ⟨rfl, fun _ => trivial⟩ fun c => ?_
      refine Program.Leaves.bind ((heartbeatList_answers c.participantAddrs).mono fun _ later hlater => ?_)
      rw [hlater]
      exact ih

end Heartbeats

-- The clients of a connection, in the order of its commands.
def clients (connection : Nat) (first count : Nat) : List Client :=
  (List.range' first count).map (Nat.pair connection)

theorem dispatch_answers (connection number : Nat) (cmds : List Command) (word : List Client) :
    (dispatch connection number cmds).Leaves Effect.answers word fun _ later =>
      later = word ++ clients connection number cmds.length := by
  induction cmds generalizing number word with
  | nil => exact (List.append_nil word).symm
  | cons cmd cmds ih =>
      refine Program.Leaves.bind ((handle_answers _ cmd word).mono fun _ later hlater => ?_)
      rw [hlater]
      refine (ih (number + 1) _).mono fun _ last hlast => ?_
      rw [hlast, List.append_assoc]
      rfl

end Coordinator

end Queued

end CloudLabs.Cdb
