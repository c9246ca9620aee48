import CloudLabs.Cdb.CommandParser.RoundTrip
import CloudLabs.Cdb.Refinement.Theorems
import CloudLabs.Cdb.Sessions.Reads

namespace CloudLabs.Cdb

open Interaction Coordinator Parsing

-- The commands of a client come back, however their bytes are cut into reads.
theorem handleReads_encode {cmds : List ClientCommand} {chunks : List Bytes}
    (hcut : chunks.flatten = cmds.flatMap ClientCommand.encode)
    (hfits : (cmds.flatMap ClientCommand.encode).length ≤ maxSize) :
    handleReads (.read none) chunks = (cmds.map ClientCommand.toCommand, .read none) := by
  have hreads : ∀ cmd ∈ cmds, Reader.Reads CommandParser.readCommand cmd.encode cmd.toCommand ∧
      cmd.encode ≠ [] := by
    intro cmd hcmd
    obtain ⟨before, after, rfl⟩ := List.append_of_mem hcmd
    simp only [List.flatMap_append, List.flatMap_cons, List.length_append] at hfits
    have hlen := flatMap_lt_encodeArray (cmd.name :: cmd.args)
    exact ⟨cmd.reads (by omega), List.ne_nil_of_length_pos (by unfold ClientCommand.encode; omega)⟩
  have hall := ReadsTo.readAll CommandParser.readCommand_steady CommandParser.readCommand_progresses
    (cmds.flatMap ClientCommand.encode)
  obtain ⟨hcmds, hlast, hstop⟩ := hall.unique (ReadsTo.of_reads [] hreads)
  have hwhole : handleDbRequests none (cmds.flatMap ClientCommand.encode) =
      (cmds.map ClientCommand.toCommand, .read none) := by
    rw [handleDbRequests]
    simp only [Option.getD_none, List.nil_append, parseDbRequests, hstop, hcmds]
  have hstart : NextRead.read none = NextRead.ofIncoming (.waiting []) := rfl
  cases chunks with
  | nil =>
      cases cmds with
      | nil => rfl
      | cons cmd cmds =>
          have hempty : cmd.encode = [] := (List.append_eq_nil_iff.mp hcut.symm).1
          exact absurd hempty (hreads cmd (by simp)).2
  | cons chunk chunks =>
      rw [List.flatten_cons] at hcut
      rw [hstart, handleReads_eq, Incoming.feedAll_flatten CommandParser.readCommand_steady
        CommandParser.readCommand_progresses, ← handleDbRequests_eq, hcut]
      exact hwhole

-- Connections to a cluster of which one participant survives. The clients of the run
-- are their commands.
structure Sessions extends Refinement where
  reads : Reads
  named : ∀ connection number cmd, (reads.commands connection)[number]? = some cmd →
    asked (Nat.pair connection number) = cmd

namespace Sessions

open Reads (service queued Ended)

variable (X : Sessions)

abbrev commands (connection : Nat) : List Command := X.reads.commands connection

abbrev pool (passes : Nat) : System := X.reads.pool X.start passes

variable {X} {connection : Nat}

section Contract

-- Each command is served as the request of a client of its own.
theorem dispatch_triple {number : Nat} {cmds : List Command}
    (hasked : ∀ k cmd, cmds[k]? = some cmd → X.asked (Nat.pair connection (number + k)) = cmd) :
    Triple cdb X.terms X.contract .worker .outside (fun _ => True) (dispatch connection number cmds)
      fun _ _ => True := by
  induction cmds generalizing number with
  | nil => exact Triple.ret (.const _) fun _ _ h => h
  | cons cmd cmds ih =>
      have hinside : Mode.inside ≠ .outside := by decide
      have hcmd : X.asked (Nat.pair connection number) = cmd := hasked 0 cmd rfl
      refine Triple.bind (Serving.handle_triple
        (fun found => Refinement.serving hinside (Nat.pair connection number) found.replies)
        (fun w hidle => ⟨rfl, hidle⟩) (fun found w hw => hw.2) _ cmd fun _ => ⟨rfl, hcmd.symm⟩) fun _ => ?_
      apply ih
      intro k next hnext
      rw [Nat.add_assoc, Nat.add_comm 1 k]
      exact hasked (k + 1) next hnext

theorem program_triple (X : Sessions) (connection : Nat) :
    Triple cdb X.terms X.contract .worker .outside (fun _ => True) (X.reads.program connection) fun _ _ => True := by
  rw [Reads.program, session_eq]
  apply dispatch_triple
  intro k cmd hcmd
  rw [Nat.zero_add]
  exact X.named connection k cmd hcmd

theorem honours (X : Sessions) : Honours service X.terms X.contract where
  main passes w ha hidle :=
    Safe.congr (show X.toRefinement.service.exec = service.exec from rfl)
      (X.toRefinement.honours.main passes w ha hidle)
  handler request := request.elim
  environment := X.toRefinement.honours.environment
  effect := False.elim
  restart _ _ _ hT _ := hT.elim

theorem kept_pool (X : Sessions) (passes : Nat) : Kept service X.terms X.contract (X.pool passes) := by
  have hidle := X.idle_start
  have hmain := X.toRefinement.honours.main passes X.start hidle.agrees hidle
  exact Reads.kept_pool hidle.agrees hidle (Safe.congr (show X.toRefinement.service.exec = cdb.exec from rfl) hmain)
    X.program_triple

end Contract

section Order

-- The requests of a connection that have been answered.
theorem asked_clients (X : Sessions) {count : Nat} (hcount : count ≤ (X.commands connection).length) :
    (clients connection 0 count).map X.asked = (X.commands connection).take count := by
  apply List.ext_getElem
  · simpa [clients] using hcount
  · intro number hnumber hlt
    have hrange : number < (X.commands connection).length := by
      rw [List.length_take] at hlt
      omega
    have hnamed := X.named connection number _ (List.getElem?_eq_getElem hrange)
    simp only [clients, List.map_map, List.getElem_map, List.getElem_range', Function.comp_apply, Nat.zero_add,
      Nat.one_mul, hnamed, List.getElem_take]

end Order

section Chat

def put : ClientCommand := .set (bytes "k") (bytes "v") []

def ask : ClientCommand := .get (bytes "k") []

-- One connection puts a pair, in two reads, and the other asks for it.
def talk : Reads := [[put.encode.take 7, put.encode.drop 7], [ask.encode]]

theorem talk_handled : handleReads (.read none) (talk.getD 0 []) = ([.set ⟨0, bytes "k", bytes "v"⟩], .read none) ∧
    handleReads (.read none) (talk.getD 1 []) = ([.get ⟨bytes "k"⟩], .read none) := by
  have hput : ([put.encode.take 7, put.encode.drop 7] : List Bytes).flatten =
      [put].flatMap ClientCommand.encode := by decide
  have hask : ([ask.encode] : List Bytes).flatten = [ask].flatMap ClientCommand.encode := by decide
  exact ⟨handleReads_encode hput (by decide), handleReads_encode hask (by decide)⟩

def chat : Sessions where
  toRefinement := Refinement.pair
  reads := talk
  named connection number cmd hcmd := by
    unfold Reads.commands at hcmd
    match connection with
    | 0 =>
        rw [talk_handled.1] at hcmd
        match number with
        | 0 => exact Option.some.inj hcmd
        | number + 1 => cases hcmd
    | 1 =>
        rw [talk_handled.2] at hcmd
        match number with
        | 0 => exact Option.some.inj hcmd
        | number + 1 => cases hcmd
    | connection + 2 => cases hcmd

def chat.allowed (pool : System) : Move Choice Empty → Bool
  | .advance thread choice => Refinement.pair.allowed pool (.advance thread choice)
  | _ => false

theorem chat_permits (pool : System) (move : Move Choice Empty) (h : chat.allowed pool move = true) :
    chat.terms.permits pool move := by
  cases move with
  | advance thread choice => exact Refinement.pair_permits pool (.advance thread choice) h
  | _ => cases h

theorem talk_pool (w : World) : talk.pool w 0 = ⟨w, .serving none [heartbeatParticipants 0,
    dispatch 0 0 [.set ⟨0, bytes "k", bytes "v"⟩], dispatch 1 0 [.get ⟨bytes "k"⟩]]⟩ := by
  have hfirst : talk.program 0 = dispatch 0 0 [.set ⟨0, bytes "k", bytes "v"⟩] := by
    rw [Reads.program, session_eq, talk_handled.1]
  have hsecond : talk.program 1 = dispatch 1 0 [.get ⟨bytes "k"⟩] := by
    rw [Reads.program, session_eq, talk_handled.2]
  show (⟨w, .serving none [heartbeatParticipants 0, talk.program 0, talk.program 1]⟩ : System) = _
  rw [hfirst, hsecond]

end Chat

end Sessions

end CloudLabs.Cdb
