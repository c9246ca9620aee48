import CloudLabs.HttpServer.Message

namespace CloudLabs.HttpServer

-- What a call of ::recv finds: bytes that have arrived together, or a signal.
inductive Arrival where
  | data (first : UInt8) (rest : Bytes)
  | interrupt

namespace Arrival

def bytes : Arrival → Bytes
  | data first rest => first :: rest
  | interrupt => []

def ofBytes : Bytes → List Arrival
  | [] => []
  | first :: rest => [data first rest]

end Arrival

-- What the other side of a connection sends, and which of the calls behind the last
-- arrival fail; the others find the end of the stream.
structure Peer where
  arrivals : List Arrival
  failing : Nat → Bool

namespace Peer

-- The bytes that are still to be read.
def pending (peer : Peer) : Bytes := peer.arrivals.flatMap Arrival.bytes

-- The side that sends the bytes at once and closes.
def sending (data : Bytes) : Peer := ⟨Arrival.ofBytes data, fun _ => false⟩

end Peer

-- How the one call of TCPSocket::send on a connection ends. It sends all there is; or
-- ::send fails, of which nobody takes notice; or the peer has reset the connection, and
-- SIGPIPE, which is neither caught nor turned off, ends the process; or the peer takes
-- nothing more, and the call does not come back.
inductive Delivery where
  | sent
  | failed
  | signalled
  | blocked
  deriving DecidableEq

def Delivery.comesBack : Delivery → Bool
  | sent | failed => true
  | signalled | blocked => false

structure Client where
  peer : Peer
  delivery : Delivery

namespace TcpSocket

-- ::recv goes again after EINTR.
def recvFrom (size : Nat) (failing : Nat → Bool) : List Arrival → Option Bytes × Peer
  | [] => (if failing 0 then none else some [], ⟨[], fun call => failing (call + 1)⟩)
  | .interrupt :: arrivals => recvFrom size failing arrivals
  | .data first rest :: arrivals =>
      (some ((first :: rest).take size), ⟨Arrival.ofBytes ((first :: rest).drop size) ++ arrivals, failing⟩)

-- What is received, or `none` for -1. It is empty only at the end of the stream.
def recv (size : Nat) (peer : Peer) : Option Bytes × Peer := recvFrom size peer.failing peer.arrivals

-- Every round takes a byte, so there are at most as many as bytes left to read.
def recvBytesFrom : Nat → Nat → Peer → Bytes × Peer
  | 0, _, peer => ([], peer)
  | rounds + 1, nleft, peer =>
      if nleft = 0 then ([], peer)
      else
        match recv nleft peer with
        | (none, peer) => ([], peer)
        | (some [], peer) => ([], peer)
        | (some chunk, peer) =>
            let (later, peer) := recvBytesFrom rounds (nleft - chunk.length) peer
            (chunk ++ later, peer)

-- What it writes to the buffer; nobody looks at what it returns.
def recvBytes (n : Nat) (peer : Peer) : Bytes × Peer := recvBytesFrom n n peer

-- The line is empty after an error.
def recvLineFrom : Nat → Bytes → Peer → Bytes × Peer
  | 0, line, peer => (line, peer)
  | rounds + 1, line, peer =>
      match recv 1 peer with
      | (none, peer) => ([], peer)
      | (some [], peer) => (line, peer)
      | (some (ch :: _), peer) =>
          if ch = 10 then (line ++ [ch], peer) else recvLineFrom rounds (line ++ [ch]) peer

-- Every round but the last takes a byte.
def recvLine (peer : Peer) : Bytes × Peer := recvLineFrom (peer.pending.length + 1) [] peer

section Received

variable {peer : Peer} {size : Nat}

theorem pending_ofBytes (data : Bytes) (arrivals : List Arrival) :
    (Arrival.ofBytes data ++ arrivals).flatMap Arrival.bytes = data ++ arrivals.flatMap Arrival.bytes := by
  cases data with
  | nil => rfl
  | cons first rest => simp [Arrival.ofBytes, Arrival.bytes]

@[simp] theorem pending_sending (data : Bytes) : (Peer.sending data).pending = data := by
  have h := pending_ofBytes data []
  simpa [Peer.sending, Peer.pending] using h

theorem recvFrom_of_pending {failing : Nat → Bool} {arrivals : List Arrival}
    (h : arrivals.flatMap Arrival.bytes ≠ []) (hsize : 0 < size) :
    ∃ chunk, chunk ≠ [] ∧ chunk.length ≤ size ∧ (recvFrom size failing arrivals).1 = some chunk ∧
      arrivals.flatMap Arrival.bytes = chunk ++ (recvFrom size failing arrivals).2.pending ∧
      (recvFrom size failing arrivals).2.failing = failing := by
  induction arrivals with
  | nil => exact absurd rfl h
  | cons arrival arrivals ih =>
      cases arrival with
      | interrupt => exact ih h
      | data first rest =>
          refine ⟨(first :: rest).take size, ?_, ?_, rfl, ?_, rfl⟩
          · intro hnil
            rcases List.take_eq_nil_iff.mp hnil with hzero | hempty
            · omega
            · cases hempty
          · rw [List.length_take]
            omega
          · unfold Peer.pending recvFrom
            rw [pending_ofBytes, ← List.append_assoc, List.take_append_drop]
            rfl

theorem recvFrom_of_nothing {failing : Nat → Bool} {arrivals : List Arrival}
    (h : arrivals.flatMap Arrival.bytes = []) :
    recvFrom size failing arrivals =
      (if failing 0 then none else some [], ⟨[], fun call => failing (call + 1)⟩) := by
  induction arrivals with
  | nil => rfl
  | cons arrival arrivals ih =>
      cases arrival with
      | interrupt => exact ih h
      | data first rest => cases h

-- While there are bytes, some of them are received, and nothing else changes.
theorem recv_of_pending (h : peer.pending ≠ []) (hsize : 0 < size) :
    ∃ chunk, chunk ≠ [] ∧ chunk.length ≤ size ∧ (recv size peer).1 = some chunk ∧
      peer.pending = chunk ++ (recv size peer).2.pending ∧ (recv size peer).2.failing = peer.failing :=
  recvFrom_of_pending h hsize

theorem recv_of_nothing (h : peer.pending = []) : recv size peer =
    (if peer.failing 0 then none else some [], ⟨[], fun call => peer.failing (call + 1)⟩) :=
  recvFrom_of_nothing h

theorem recvBytesFrom_eq (rounds n : Nat) (peer : Peer) (h : n ≤ rounds) :
    (recvBytesFrom rounds n peer).1 = peer.pending.take n := by
  induction rounds generalizing n peer with
  | zero =>
      have hzero : n = 0 := by omega
      simp [recvBytesFrom, hzero]
  | succ rounds ih =>
      unfold recvBytesFrom
      by_cases hzero : n = 0
      · simp [hzero]
      rw [if_neg hzero]
      by_cases hnothing : peer.pending = []
      · rw [recv_of_nothing hnothing, hnothing]
        by_cases hfailing : peer.failing 0 = true
        · simp [hfailing]
        · simp [hfailing]
      · obtain ⟨chunk, hne, hlen, hchunk, hpending, -⟩ := recv_of_pending hnothing (by omega : 0 < n)
        obtain ⟨ch, others, rfl⟩ := List.exists_cons_of_ne_nil hne
        have hpos : 0 < (ch :: others).length := by simp
        have hlater := ih (n - (ch :: others).length) (recv n peer).2 (by omega)
        rw [show recv n peer = (some (ch :: others), (recv n peer).2) from Prod.ext hchunk rfl]
        rw [hpending, List.take_append, List.take_of_length_le hlen, ← hlater]

-- However the bytes arrive, what is written is the first ones that come.
theorem recvBytes_fst (n : Nat) (peer : Peer) : (recvBytes n peer).1 = peer.pending.take n :=
  recvBytesFrom_eq n n peer (Nat.le_refl n)

theorem recv_one (ch : UInt8) (rest : Bytes) (h : peer.pending = ch :: rest) :
    ∃ next, recv 1 peer = (some [ch], next) ∧ next.pending = rest ∧ next.failing = peer.failing := by
  have hne : peer.pending ≠ [] := by simp [h]
  obtain ⟨chunk, hchunkne, hlen, hchunk, hpending, hfailing⟩ := recv_of_pending hne Nat.zero_lt_one
  obtain ⟨first, others, rfl⟩ := List.exists_cons_of_ne_nil hchunkne
  have hothers : others = [] := by
    rw [List.length_cons] at hlen
    exact List.length_eq_zero_iff.mp (by omega)
  subst hothers
  rw [h, List.singleton_append] at hpending
  obtain ⟨hch, hrest⟩ := List.cons.inj hpending
  exact ⟨(recv 1 peer).2, Prod.ext (by rw [hchunk, hch]) rfl, hrest.symm, hfailing⟩

theorem recvLineFrom_of_append {rounds : Nat} (before : Bytes) {line rest : Bytes} (hline : 10 ∉ line)
    (h : peer.pending = line ++ 10 :: rest) (hrounds : line.length < rounds) :
    ∃ next, recvLineFrom rounds before peer = (before ++ (line ++ [10]), next) ∧ next.pending = rest ∧
      next.failing = peer.failing := by
  induction line generalizing rounds before peer with
  | nil =>
      obtain ⟨rounds, rfl⟩ := Nat.exists_eq_add_of_lt hrounds
      obtain ⟨next, hrecv, hrest, hfailing⟩ := recv_one 10 rest h
      refine ⟨next, ?_, hrest, hfailing⟩
      rw [List.length_nil, Nat.zero_add, recvLineFrom, hrecv]
      simp
  | cons ch line ih =>
      rw [List.length_cons] at hrounds
      obtain ⟨rounds, rfl⟩ : ∃ later, rounds = later + 1 := ⟨rounds - 1, by omega⟩
      have hch : ch ≠ 10 := fun heq => hline (heq ▸ List.mem_cons_self)
      obtain ⟨next, hrecv, hrest, hfailing⟩ := recv_one ch (line ++ 10 :: rest) h
      obtain ⟨last, hlast, hpending, hsame⟩ := ih (before ++ [ch])
        (fun hmem => hline (List.mem_cons_of_mem ch hmem)) hrest (by omega : line.length < rounds)
      refine ⟨last, ?_, hpending, hsame.trans hfailing⟩
      rw [recvLineFrom, hrecv]
      simp only [if_neg hch]
      rw [hlast, List.append_assoc]
      rfl

theorem recvLineFrom_of_not_mem {rounds : Nat} (before : Bytes) (h : 10 ∉ peer.pending)
    (hrounds : peer.pending.length < rounds) :
    recvLineFrom rounds before peer =
      (if peer.failing 0 then [] else before ++ peer.pending,
        ⟨[], fun call => peer.failing (call + 1)⟩) := by
  induction hpending : peer.pending generalizing rounds before peer with
  | nil =>
      obtain ⟨rounds, rfl⟩ : ∃ later, rounds = later + 1 := ⟨rounds - 1, by omega⟩
      rw [recvLineFrom, recv_of_nothing hpending]
      by_cases hfailing : peer.failing 0 = true
      · simp [hfailing]
      · simp [hfailing]
  | cons ch rest ih =>
      rw [hpending] at h hrounds
      rw [List.length_cons] at hrounds
      obtain ⟨rounds, rfl⟩ : ∃ later, rounds = later + 1 := ⟨rounds - 1, by omega⟩
      have hch : ch ≠ 10 := fun heq => h (heq ▸ List.mem_cons_self)
      obtain ⟨next, hrecv, hrest, hfailing⟩ := recv_one ch rest hpending
      have hnot : 10 ∉ next.pending := by
        rw [hrest]
        exact fun hmem => h (List.mem_cons_of_mem ch hmem)
      have hlen : next.pending.length < rounds := by
        rw [hrest]
        omega
      have hlast := ih (before ++ [ch]) hnot hlen hrest
      rw [recvLineFrom, hrecv]
      simp only [if_neg hch]
      rw [hlast, hfailing, List.append_assoc]
      rfl

-- A line that ends is read with its end.
theorem recvLine_of_append {line rest : Bytes} (hline : 10 ∉ line)
    (h : peer.pending = line ++ 10 :: rest) :
    ∃ next, recvLine peer = (line ++ [10], next) ∧ next.pending = rest ∧ next.failing = peer.failing := by
  have hrounds : line.length < peer.pending.length + 1 := by
    rw [h, List.length_append]
    omega
  exact recvLineFrom_of_append [] hline h hrounds

-- The last line is read without an end, or it is lost.
theorem recvLine_of_not_mem (h : 10 ∉ peer.pending) : recvLine peer =
    (if peer.failing 0 then [] else peer.pending, ⟨[], fun call => peer.failing (call + 1)⟩) := by
  have hline := recvLineFrom_of_not_mem [] h (Nat.lt_succ_self peer.pending.length)
  rw [List.nil_append] at hline
  exact hline

end Received

end TcpSocket

end CloudLabs.HttpServer
