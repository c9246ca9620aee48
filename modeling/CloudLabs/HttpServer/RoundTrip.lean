import CloudLabs.HttpServer.Serving

namespace CloudLabs.HttpServer

-- A word of a request line.
structure IsWord (word : Bytes) : Prop where
  nonempty : word ≠ []
  plain : ∀ ch ∈ word, isWhitespace ch = false

-- A request as a client writes one.
structure WrittenRequest where
  request : Request
  method : IsWord request.method
  resource : IsWord request.resource
  version : IsWord request.version
  headers : ∀ name value : Bytes, request.headers[name]? = some value →
    (trimWhitespace name = name ∧ name ≠ [] ∧ 58 ∉ name ∧ 10 ∉ name) ∧
    (trimWhitespace value = value ∧ value ≠ [] ∧ 58 ∉ value ∧ 10 ∉ value)
  length : request.body ≠ [] → contentLength request.headers = some (toString request.body.length)

-- The server reads the request that was written, in one of the ways in which its bytes
-- can arrive.
def ReadsBack (host : Host) (order : Order) (req : Request) : Prop :=
  ∃ (peer : Peer) (fresh : Nat → UInt8) (rounds : Nat), peer.pending = req.serialize order ∧
    readRequest host fresh rounds peer = some (.ok (.request req))

section RequestLine

variable {word : Bytes}

theorem isWord_of_all (hne : word ≠ []) (h : word.all (fun ch => !isWhitespace ch) = true) : IsWord word :=
  ⟨hne, fun ch hch => by simpa using List.all_eq_true.mp h ch hch⟩

theorem IsWord.not_mem (h : IsWord word) {ch : UInt8} (hch : isWhitespace ch = true) : ch ∉ word := by
  intro hmem
  rw [h.plain ch hmem] at hch
  cases hch

-- A line of two words is no request line.
theorem parseReqLine_of_two {first second after : Bytes} (hfirst : IsWord first) (hsecond : IsWord second)
    (hafter : ∀ ch ∈ after, isWhitespace ch = true) : parseReqLine (first ++ 32 :: second ++ after) = none := by
  have htrim : trimWhitespace (first ++ 32 :: second ++ after) = first ++ 32 :: second := by
    have hblank := Parsing.trim_append_blank (first ++ 32 :: second) (List.forall_mem_nil _) hafter
    refine hblank.trans (Parsing.trim_eq_self ?_ ?_)
    · intro ch rest heq
      obtain ⟨own, others, rfl⟩ := List.exists_cons_of_ne_nil hfirst.nonempty
      rw [List.cons_append, List.cons.injEq] at heq
      rw [← heq.1]
      exact hfirst.plain own List.mem_cons_self
    · intro last hlast
      rw [List.getLast?_append, List.getLast?_cons, List.getLast?_eq_some_getLast hsecond.nonempty] at hlast
      apply hsecond.plain
      rw [← Option.some.inj hlast]
      exact List.getLast_mem hsecond.nonempty
  have hsplit : split (first ++ 32 :: second) 32 = [first, second] := by
    unfold split
    rw [Parsing.split_append (hfirst.not_mem (by decide)), Parsing.split_of_not_mem (hsecond.not_mem (by decide)),
      if_neg hsecond.nonempty]
  unfold parseReqLine
  rw [htrim, hsplit]

theorem IsWord.append {other : Bytes} (h : IsWord word) (hother : IsWord other) : IsWord (word ++ other) where
  nonempty := List.append_ne_nil_of_left_ne_nil h.nonempty _
  plain := fun ch hmem => (List.mem_append.mp hmem).elim (h.plain ch) (hother.plain ch)

end RequestLine

-- The request line that is written has two words, and the server reads three.
theorem readRequest_serialize (host : Host) (order : Order) (w : WrittenRequest) {peer : Peer}
    (h : peer.pending = w.request.serialize order) (fresh : Nat → UInt8) (rounds : Nat) :
    readRequest host fresh rounds peer = some (.ok .rejected) := by
  have htarget := w.resource.append w.version
  have hspace : bytes " " = [32] := by decide
  have hend : lineEnd = [13] ++ 10 :: [] := by decide
  have hline : 10 ∉ w.request.method ++ 32 :: (w.request.resource ++ w.request.version) ++ [13] := by
    have hmethod := w.method.not_mem (by decide : isWhitespace 10 = true)
    have hrest := htarget.not_mem (by decide : isWhitespace 10 = true)
    simp only [List.mem_append, List.mem_cons, List.not_mem_nil, not_or, or_false] at hrest ⊢
    exact ⟨⟨hmethod, by decide, hrest⟩, by decide⟩
  have hpending : ∃ rest, peer.pending =
      (w.request.method ++ 32 :: (w.request.resource ++ w.request.version) ++ [13]) ++ 10 :: rest := by
    refine ⟨Headers.serialize order w.request.headers ++ (lineEnd ++ (w.request.body ++ lineEnd)), ?_⟩
    rw [h, Request.serialize, hspace]
    conv_lhs => rw [show w.request.method ++ [32] ++ w.request.resource ++ w.request.version ++ lineEnd =
      w.request.method ++ [32] ++ w.request.resource ++ w.request.version ++ ([13] ++ 10 :: []) by rw [← hend]]
    simp
  obtain ⟨rest, hrest⟩ := hpending
  obtain ⟨next, hrecv, -⟩ := TcpSocket.recvLine_of_append hline hrest
  have hend : ∀ ch ∈ [(13 : UInt8), 10], isWhitespace ch = true := by simp [isWhitespace]
  have hparse := parseReqLine_of_two w.method htarget hend
  have hreqLine : (w.request.method ++ 32 :: (w.request.resource ++ w.request.version) ++ [13]) ++ [10] =
      w.request.method ++ 32 :: (w.request.resource ++ w.request.version) ++ [13, 10] := by simp
  rw [hreqLine] at hrecv
  simp only [readRequest, hrecv, hparse]

theorem not_readsBack (host : Host) (order : Order) (w : WrittenRequest) :
    ¬ ReadsBack host order w.request := by
  rintro ⟨peer, fresh, rounds, hpending, hread⟩
  rw [readRequest_serialize host order w hpending] at hread
  cases hread

-- GET / HTTP/1.1 without headers and body.
def getRoot : WrittenRequest where
  request := ⟨bytes "HTTP/1.1", bytes "GET", ∅, bytes "/", []⟩
  method := isWord_of_all (by decide) (by decide)
  resource := isWord_of_all (by decide) (by decide)
  version := isWord_of_all (by decide) (by decide)
  headers := fun name value hget => by simp at hget
  length := fun hne => absurd rfl hne

theorem getRoot_not_readsBack : ¬ ReadsBack Host.bare .sorted getRoot.request := by
  rintro ⟨peer, fresh, rounds, hpending, hread⟩
  rw [readRequest_serialize Host.bare .sorted getRoot hpending] at hread
  cases hread

end CloudLabs.HttpServer
