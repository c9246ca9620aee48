import CloudLabs.Cdb.Sessions
import CloudLabs.Interaction.Contract.Theorems
import Mathlib.Data.List.GetD

namespace CloudLabs.Cdb

open Interaction Coordinator

-- What the reads of connections return that are served at the same time, one after
-- the other.
abbrev Reads := List (List Bytes)

namespace Reads

-- No connection comes up later.
def service : Service Effect Effect.Answer World Choice Empty :=
  { cdb with handler := nofun }

variable (reads : Reads)

def commands (connection : Nat) : List Command := (handleReads (.read none) (reads.getD connection [])).1

def program (connection : Nat) : Code Unit := session connection 0 (.read none) (reads.getD connection [])

-- The heartbeats and one thread for each of the connections.
def pool (w : World) (passes : Nat) : System :=
  ⟨w, .serving none (heartbeatParticipants passes :: (List.range reads.length).map reads.program)⟩

-- Whose requests have been answered on the connection, in the order of the replies.
def queued (w : World) (connection : Nat) : List Client :=
  (w.replies.map Prod.fst).reverse.filter fun client => client.unpair.1 = connection

-- The thread of the connection has ended.
def Ended (pool : System) (connection : Nat) : Prop :=
  ∃ holder threads, pool.phase = .serving holder threads ∧ threads[connection + 1]? = some (.ret ())

variable {reads} {w : World} {connection : Nat}

section Contract

variable {T : Terms Effect World Choice} {K : Contract Effect World}

-- All threads of the pool keep the contract if they do so by themselves.
theorem kept_pool {passes : Nat} (ha : K.always w) (hidle : K.idle w)
    (hmain : Safe cdb T K .leader endsOutside .outside (heartbeatParticipants passes) w)
    (hprogram : ∀ connection, Triple cdb T K .worker .outside (fun _ => True) (reads.program connection)
      fun _ _ => True) : Kept service T K (reads.pool w passes) := by
  refine ⟨ha, by simp, fun _ => hidle, (fun thread hnone => by cases hnone), fun thread program hp => ?_⟩
  rw [Mode.of_none]
  cases thread with
  | zero =>
      cases hp
      exact Safe.congr (show cdb.exec = service.exec from rfl) hmain
  | succ connection =>
      have hrole : Role.of (connection + 1) = .worker := if_neg (by omega)
      rw [List.getElem?_cons_succ] at hp
      obtain ⟨other, -, rfl⟩ := List.mem_map.mp (List.mem_of_getElem? hp)
      rw [hrole]
      exact Safe.congr (show cdb.exec = service.exec from rfl) ((hprogram other).ends ha trivial)

end Contract

section Order

theorem records :
    Records service Effect.answers fun w => w.replies.map Prod.fst where
  exec w effect choice answer u h := by
    have hexec : w.exec effect choice = some (answer, u) := h
    cases effect with
    | call addr request => rw [(World.call_frame hexec).2.2.2.1]; rfl
    | rand =>
        cases choice with
        | draw value =>
            have hdraw : (if value ≤ RAND_MAX then some (value, w) else none) = some (answer, u) := hexec
            split at hdraw
            · rw [← (Prod.mk.inj (Option.some.inj hdraw)).2]
              rfl
            · cases hdraw
        | _ => cases hexec
    | assertFalse => cases choice <;> cases hexec
    | _ =>
        cases choice with
        | done => cases hexec; rfl
        | _ => cases hexec
  environment w choice u h := by
    have henv : w.environment choice = some u := h
    cases choice with
    | deliver index =>
        obtain ⟨message, -, rfl⟩ := Option.map_eq_some_iff.mp henv
        rfl
    | restart addr => cases henv; rfl
    | _ => cases henv

theorem answer_nonempty (effect : Effect) : Nonempty effect.Answer := by
  cases effect
  case call => exact ⟨(none : Option Reply)⟩
  case get => exact ⟨Coordinator.start [] ⟨[], [], 0, ∅, ∅⟩⟩
  case copyRecords => exact ⟨([] : List Record)⟩
  case rand => exact ⟨(0 : UInt32)⟩
  all_goals exact ⟨()⟩

-- The thread that queues the replies of a client.
def owner (client : Client) : Nat := client.unpair.1 + 1

def word (reads : Reads) : Nat → List Client
  | 0 => []
  | connection + 1 => clients connection 0 (reads.commands connection).length

theorem owner_word (reads : Reads) (thread : Nat) : ∀ client ∈ reads.word thread, owner client = thread := by
  cases thread with
  | zero => simp [word]
  | succ connection =>
      intro client hclient
      obtain ⟨number, -, rfl⟩ := List.mem_map.mp hclient
      rw [owner, Nat.unpair_pair]

theorem leaves_pool (reads : Reads) (passes : Nat) (hunserved : w.replies = []) :
    (reads.pool w passes).Leaves Effect.answers (fun w => w.replies.map Prod.fst) owner reads.word
      (reads.length + 1) := by
  refine ⟨none, _, rfl, by simp, fun thread program hp => ?_⟩
  have hempty : (reads.pool w passes).shared.replies = [] := hunserved
  simp only [hempty, List.map_nil, List.reverse_nil, List.filter_nil]
  cases thread with
  | zero =>
      cases hp
      exact heartbeatParticipants_answers passes
  | succ connection =>
      rw [List.getElem?_cons_succ, List.getElem?_map] at hp
      obtain ⟨index, hindex, rfl⟩ := Option.map_eq_some_iff.mp hp
      have hlt : connection < (List.range reads.length).length := (List.getElem?_eq_some_iff.mp hindex).1
      rw [List.getElem?_range (by simpa using hlt)] at hindex
      cases hindex
      rw [program, session_eq]
      exact (dispatch_answers connection 0 _ []).mono fun _ later hlater => hlater

-- The clients of a connection have been answered up to one of them.
theorem queued_clients {pool : System} (h : pool.Leaves Effect.answers
      (fun w => w.replies.map Prod.fst) owner reads.word (reads.length + 1)) (hlt : connection < reads.length) :
    ∃ count ≤ (reads.commands connection).length, queued pool.shared connection = clients connection 0 count ∧
      (Ended pool connection → count = (reads.commands connection).length) := by
  obtain ⟨holder, threads, hphase, hcount, hthreads⟩ := h
  have hqueued : ((pool.shared.replies.map Prod.fst).reverse.filter fun client => owner client = connection + 1) =
      queued pool.shared connection := by
    unfold queued owner
    congr 1
    funext client
    simp
  have hself := hthreads (connection + 1) _ (List.getElem?_eq_getElem (by omega))
  rw [hqueued] at hself
  obtain ⟨_, more, hword⟩ := hself.exists_append answer_nonempty
  obtain ⟨first, rest, hrange, hfirst, -⟩ := List.map_eq_append_iff.mp hword.symm
  obtain ⟨count, hle, rfl, -⟩ := List.range'_eq_append_iff.mp hrange
  refine ⟨count, hle, hfirst.symm, ?_⟩
  rintro ⟨_, _, hphase', hended⟩
  cases hphase.symm.trans hphase'
  have hall := hthreads (connection + 1) _ hended
  rw [hqueued] at hall
  have hlength : (queued pool.shared connection).length = (reads.commands connection).length := by
    rw [show queued pool.shared connection = _ from hall, word, clients, List.length_map, List.length_range']
  rw [← hlength, ← hfirst, List.length_map, List.length_range']

end Order

end Reads

end CloudLabs.Cdb
