import CloudLabs.HttpServer.Reading

namespace CloudLabs.HttpServer

open Parsing TcpSocket

-- What stoll needs of the Content-Length of a request that has one, and what new needs.
def LengthFits (host : Host) (headers : Headers) : Prop :=
  ∀ text, contentLength headers = some text → ∃ numeral, readNumeral text = some numeral ∧
    -2 ^ 63 ≤ numeral.value ∧ numeral.value < 2 ^ 63 ∧
    (0 < numeral.value → host.allocates numeral.value.toNat = true)

-- A GET names a file that is not there or that can be read.
def FileFits (host : Host) (method uri : Bytes) : Prop :=
  method = bytes "GET" → ∃ f, parseUri host.contentBase uri = .ok f ∧ host.ifstream f ≠ .unreadable

section Steps

variable {host : Host} {fresh : Nat → UInt8} {headers : Headers} {peer : Peer} {text : Bytes} {n : Int}

theorem stoll_eq_ok_iff : stoll text = .ok n ↔
    ∃ numeral, readNumeral text = some numeral ∧ -2 ^ 63 ≤ numeral.value ∧ numeral.value < 2 ^ 63 ∧
      numeral.value = n := by
  unfold stoll
  cases hread : readNumeral text with
  | none => simp
  | some numeral =>
      by_cases hrange : -2 ^ 63 ≤ numeral.value ∧ numeral.value < 2 ^ 63
      · simp only [Option.some.injEq, exists_eq_left', hrange.1, hrange.2, true_and, if_true,
          Except.ok.injEq]
      · simp only [if_neg hrange, reduceCtorEq, Option.some.injEq, false_iff]
        rintro ⟨numeral', rfl, hlow, hhigh, -⟩
        exact hrange ⟨hlow, hhigh⟩

theorem recvBody_of_none (h : contentLength headers = none) : recvBody host fresh headers peer = .ok [] := by
  simp only [recvBody, h]

theorem recvBody_of_some (h : contentLength headers = some text) (hlen : stoll text = .ok n) :
    recvBody host fresh headers peer =
      if n ≤ 0 then .ok []
      else if host.allocates n.toNat then
        .ok (peer.pending.take n.toNat ++
          (List.range' (peer.pending.take n.toNat).length
            (n.toNat - (peer.pending.take n.toNat).length)).map fresh)
      else .error .badAlloc := by
  simp only [recvBody, h, hlen, recvBytes_fst]
  by_cases hn : n ≤ 0
  · rw [if_pos hn]
    simp only [bind, Except.bind, if_neg (by omega : ¬ 0 < n)]
    rfl
  · rw [if_neg hn]
    simp only [bind, Except.bind, if_pos (by omega : 0 < n)]
    rfl

theorem recvBody_of_error (h : contentLength headers = some text) {fault : Fault}
    (hlen : stoll text = .error fault) : recvBody host fresh headers peer = .error fault := by
  simp only [recvBody, h, hlen]
  rfl

theorem recvBody_ok_iff : (∃ body, recvBody host fresh headers peer = .ok body) ↔ LengthFits host headers := by
  unfold LengthFits
  cases hheader : contentLength headers with
  | none => simp [recvBody_of_none hheader]
  | some text =>
      simp only [Option.some.injEq, forall_eq']
      cases hlen : stoll text with
      | error fault =>
          rw [recvBody_of_error hheader hlen]
          simp only [reduceCtorEq, exists_false, false_iff]
          rintro ⟨numeral, hread, hlow, hhigh, -⟩
          rw [stoll_eq_ok_iff.mpr ⟨numeral, hread, hlow, hhigh, rfl⟩] at hlen
          cases hlen
      | ok n =>
          obtain ⟨numeral, hread, hlow, hhigh, rfl⟩ := stoll_eq_ok_iff.mp hlen
          rw [recvBody_of_some hheader hlen]
          simp only [hread, Option.some.injEq, exists_eq_left', hlow, hhigh, true_and]
          by_cases hn : numeral.value ≤ 0
          · have hnot : ¬ 0 < numeral.value := by omega
            simp [hn, hnot]
          · have hpos : 0 < numeral.value := by omega
            by_cases hallocates : host.allocates numeral.value.toNat = true
            · simp [hn, hallocates]
            · simp [hn, hpos, hallocates]

theorem dispatch_ok_iff (req : Request) :
    (∃ outcome, dispatch host (.request req) = .ok outcome) ↔ FileFits host req.method req.resource := by
  unfold FileFits
  simp only [dispatch]
  by_cases hget : req.method = bytes "GET"
  · simp only [hget, if_true, true_imp_iff, handleGet]
    cases hparse : parseUri host.contentBase req.resource with
    | error fault => simp [bind, Except.bind, Except.map]
    | ok f =>
        simp only [bind, Except.bind, Except.ok.injEq, exists_eq_left']
        cases hfile : host.ifstream f with
        | absent => simp [pure, Except.pure, Except.map]
        | readable content => simp [pure, Except.pure, Except.map]
        | unreadable => simp [throw, throwThe, MonadExceptOf.throw, Except.map]
  · simp only [hget, if_false, false_imp_iff, iff_true]
    by_cases hpost : req.method = bytes "POST"
    · rw [if_pos hpost]
      exact ⟨_, rfl⟩
    · rw [if_neg hpost]
      exact ⟨_, rfl⟩

theorem dispatch_dismissed (host : Host) {reading : Reading} (h : reading = .rejected ∨ reading = .unsupported) :
    ∃ outcome, dispatch host reading = .ok outcome := by
  rcases h with rfl | rfl
  · exact ⟨_, rfl⟩
  · exact ⟨_, rfl⟩

-- Whoever is not rejected is answered.
theorem dispatch_dropped {reading : Reading} (h : dispatch host reading = .ok .dropped) :
    reading = .rejected := by
  cases reading with
  | rejected => rfl
  | unsupported => cases h
  | request req =>
      simp only [dispatch] at h
      split at h
      · cases hget : handleGet host req with
        | error fault =>
            rw [hget] at h
            cases h
        | ok sent =>
            rw [hget] at h
            cases h
      · split at h
        · cases h
        · cases h

theorem handled_iff (host : Host) (fresh : Nat → UInt8) (method uri header rest : Bytes) :
    (∃ outcome, (readingOf host fresh method uri header rest).bind (dispatch host) = .ok outcome) ↔
      LengthFits host (parseHeaders header) ∧ FileFits host method uri := by
  have hok : (∃ body, recvBody host fresh (parseHeaders header) (.sending rest) = .ok body) ↔
      LengthFits host (parseHeaders header) := recvBody_ok_iff
  rw [← hok]
  unfold readingOf
  cases hbody : recvBody host fresh (parseHeaders header) (.sending rest) with
  | error fault => simp [Except.map, Except.bind]
  | ok body =>
      simp only [Except.map, Except.bind, Except.ok.injEq, exists_eq', true_and]
      exact dispatch_ok_iff _

end Steps

section Results

variable (host : Host) (fresh : Nat → UInt8) (peer : Peer)

-- The loops of serve_client come to an end, and there is something to send or an
-- exception.
def Ends : Prop := ∃ rounds result, serveClient host fresh rounds peer = some result

def Answers : Prop := ∃ rounds outcome, serveClient host fresh rounds peer = some (.ok outcome)

def Returns (client : Client) : Prop :=
  ∃ rounds outcome, serveToEnd host fresh rounds client = some (.returned outcome)

-- No exception leaves serve_client.
def Contained : Prop := ∀ rounds fault, serveClient host fresh rounds peer ≠ some (.error fault)

variable {host fresh peer} {method uri header rest : Bytes}

theorem exists_of_not_dismissed (h : ¬ Dismissed peer) :
    ∃ method uri, parseReqLine peer.requestLine = some (method, uri, bytes "HTTP/1.1") := by
  unfold Dismissed at h
  push Not at h
  obtain ⟨method, uri, version, hparse, rfl⟩ := h
  exact ⟨method, uri, hparse⟩

theorem not_dismissed (h : parseReqLine peer.requestLine = some (method, uri, bytes "HTTP/1.1")) :
    ¬ Dismissed peer := fun hdismissed => hdismissed method uri _ h rfl

theorem answers_of_dismissed (host : Host) (fresh : Nat → UInt8) (h : Dismissed peer) : ∃ outcome, ∀ rounds,
    serveClient host fresh rounds peer = some (.ok outcome) := by
  obtain ⟨reading, hreading, hreads⟩ := readRequest_of_dismissed h
  obtain ⟨outcome, houtcome⟩ := dispatch_dismissed host hreading
  refine ⟨outcome, fun rounds => ?_⟩
  unfold serveClient
  rw [hreads, Option.map_some, ← houtcome]
  rfl

theorem serveClient_of_block (h : parseReqLine peer.requestLine = some (method, uri, bytes "HTTP/1.1"))
    (hblock : HeaderBlock peer.behindLine header rest) : ∃ enough, ∀ host fresh rounds, enough ≤ rounds →
      serveClient host fresh rounds peer =
        some ((readingOf host fresh method uri header rest).bind (dispatch host)) := by
  obtain ⟨enough, hreads⟩ := readRequest_of_block h hblock
  refine ⟨enough, fun host fresh rounds hle => ?_⟩
  unfold serveClient
  rw [hreads host fresh rounds hle, Option.map_some]

theorem serveClient_eq (h : parseReqLine peer.requestLine = some (method, uri, bytes "HTTP/1.1"))
    {rounds : Nat} {result : Except Fault Outcome} (hserve : serveClient host fresh rounds peer = some result) :
    ∃ header rest, HeaderBlock peer.behindLine header rest ∧
      result = (readingOf host fresh method uri header rest).bind (dispatch host) := by
  obtain ⟨reading, hread, rfl⟩ := Option.map_eq_some_iff.mp hserve
  obtain ⟨header, rest, hblock, rfl⟩ := readRequest_eq h hread
  exact ⟨header, rest, hblock, rfl⟩

theorem ends_iff : Ends host fresh peer ↔ Dismissed peer ∨ HasBlankLine peer.behindLine := by
  constructor
  · rintro ⟨rounds, result, hserve⟩
    by_cases hdismissed : Dismissed peer
    · exact .inl hdismissed
    · obtain ⟨method, uri, hparse⟩ := exists_of_not_dismissed hdismissed
      obtain ⟨header, rest, hblock, -⟩ := serveClient_eq hparse hserve
      exact .inr hblock.hasBlankLine
  · intro h
    by_cases hdismissed : Dismissed peer
    · obtain ⟨outcome, hserve⟩ := answers_of_dismissed host fresh hdismissed
      exact ⟨0, .ok outcome, hserve 0⟩
    · obtain ⟨method, uri, hparse⟩ := exists_of_not_dismissed hdismissed
      obtain ⟨header, rest, hblock⟩ := HeaderBlock.exists_of_hasBlankLine (h.resolve_left hdismissed)
      obtain ⟨enough, hserve⟩ := serveClient_of_block hparse hblock
      exact ⟨enough, _, hserve host fresh enough (Nat.le_refl enough)⟩

theorem answers_iff : Answers host fresh peer ↔ Dismissed peer ∨
    ∃ method uri header rest, parseReqLine peer.requestLine = some (method, uri, bytes "HTTP/1.1") ∧
      HeaderBlock peer.behindLine header rest ∧ LengthFits host (parseHeaders header) ∧
      FileFits host method uri := by
  constructor
  · rintro ⟨rounds, outcome, hserve⟩
    by_cases hdismissed : Dismissed peer
    · exact .inl hdismissed
    · obtain ⟨method, uri, hparse⟩ := exists_of_not_dismissed hdismissed
      obtain ⟨header, rest, hblock, hresult⟩ := serveClient_eq hparse hserve
      obtain ⟨hlength, hfile⟩ := (handled_iff host fresh method uri header rest).mp ⟨outcome, hresult.symm⟩
      exact .inr ⟨method, uri, header, rest, hparse, hblock, hlength, hfile⟩
  · rintro (hdismissed | ⟨method, uri, header, rest, hparse, hblock, hlength, hfile⟩)
    · obtain ⟨outcome, hserve⟩ := answers_of_dismissed host fresh hdismissed
      exact ⟨0, outcome, hserve 0⟩
    · obtain ⟨enough, hserve⟩ := serveClient_of_block hparse hblock
      obtain ⟨outcome, houtcome⟩ := (handled_iff host fresh method uri header rest).mpr ⟨hlength, hfile⟩
      refine ⟨enough, outcome, ?_⟩
      rw [hserve host fresh enough (Nat.le_refl enough), houtcome]

-- Whether it throws is in what the client sends, not in the memory that is found.
theorem answered_of_answers {fresh' : Nat → UInt8} {rounds : Nat} {result : Except Fault Outcome} (hanswers : Answers host fresh peer)
    (hserve : serveClient host fresh' rounds peer = some result) : ∃ outcome, result = .ok outcome := by
  rcases answers_iff.mp hanswers with hdismissed | ⟨method, uri, header, rest, hparse, hblock, hlength, hfile⟩
  · obtain ⟨outcome, hanswered⟩ := answers_of_dismissed host fresh' hdismissed
    rw [hanswered rounds] at hserve
    cases hserve
    exact ⟨outcome, rfl⟩
  · obtain ⟨header', rest', hblock', hresult⟩ := serveClient_eq hparse hserve
    obtain ⟨rfl, rfl⟩ := hblock.unique hblock'
    obtain ⟨outcome, houtcome⟩ := (handled_iff host fresh' method uri header rest).mpr ⟨hlength, hfile⟩
    exact ⟨outcome, hresult.trans houtcome⟩

-- The connection is closed without an answer on account of the request line alone.
theorem serveClient_dropped_iff {rounds : Nat} :
    serveClient host fresh rounds peer = some (.ok .dropped) ↔ parseReqLine peer.requestLine = none := by
  obtain ⟨next, hrecv, -⟩ := recvLine_eq peer
  unfold serveClient
  simp only [readRequest, hrecv]
  cases hparse : parseReqLine peer.requestLine with
  | none => exact ⟨fun _ => rfl, fun _ => rfl⟩
  | some parts =>
      obtain ⟨method, uri, version⟩ := parts
      simp only [reduceCtorEq, iff_false]
      intro hdropped
      obtain ⟨reading, hreading, hresult⟩ := Option.map_eq_some_iff.mp hdropped
      have hnot : reading ≠ .ok .rejected := by
        rintro rfl
        split at hreading
        · cases hreading
        · obtain ⟨found, -, hrequest⟩ := Option.map_eq_some_iff.mp hreading
          cases hbody : recvBody host fresh (parseHeaders found.1) found.2 with
          | error fault => simp [hbody, bind, Except.bind] at hrequest
          | ok body => simp [hbody, bind, Except.bind, pure, Except.pure] at hrequest
      cases reading with
      | error fault => cases hresult
      | ok reading => exact hnot (congrArg Except.ok (dispatch_dropped hresult))

theorem serveToEnd_returned_iff {rounds : Nat} {client : Client} {outcome : Outcome} :
    serveToEnd host fresh rounds client = some (.returned outcome) ↔
      serveClient host fresh rounds client.peer = some (.ok outcome) ∧
        (outcome = .dropped ∨ client.delivery.comesBack = true) := by
  unfold serveToEnd
  cases hserve : serveClient host fresh rounds client.peer with
  | none => simp
  | some result =>
      cases result with
      | error fault => simp [deliver]
      | ok found =>
          cases found with
          | dropped => cases outcome <;> simp [deliver]
          | answered sent =>
              cases client.delivery <;> simp [deliver, Delivery.comesBack]
              all_goals rintro rfl
              all_goals simp

theorem returns_iff {client : Client} : Returns host fresh client ↔
    parseReqLine client.peer.requestLine = none ∨ client.delivery.comesBack = true ∧ Answers host fresh client.peer := by
  unfold Returns Answers
  simp only [serveToEnd_returned_iff]
  constructor
  · rintro ⟨rounds, outcome, hserve, rfl | hback⟩
    · exact .inl (serveClient_dropped_iff.mp hserve)
    · exact .inr ⟨hback, rounds, outcome, hserve⟩
  · rintro (hparse | ⟨hback, rounds, outcome, hserve⟩)
    · exact ⟨0, .dropped, serveClient_dropped_iff.mpr hparse, .inl rfl⟩
    · exact ⟨rounds, outcome, hserve, .inr hback⟩

-- Every reading ends if the request line is enough or a blank line comes. serve_client
-- returns if moreover nothing is thrown behind that and send comes back from what it is
-- given, unless there is nothing to send.
theorem serving_iff (host : Host) (fresh : Nat → UInt8) (client : Client) :
    (Ends host fresh client.peer ↔ Dismissed client.peer ∨ HasBlankLine client.peer.behindLine) ∧
    (Returns host fresh client ↔ parseReqLine client.peer.requestLine = none ∨
      client.delivery.comesBack = true ∧ (Dismissed client.peer ∨
        ∃ method uri header rest, parseReqLine client.peer.requestLine = some (method, uri, bytes "HTTP/1.1") ∧
          HeaderBlock client.peer.behindLine header rest ∧ LengthFits host (parseHeaders header) ∧
          FileFits host method uri)) :=
  ⟨ends_iff, returns_iff.trans (or_congr_right (and_congr_right fun _ => answers_iff))⟩

-- A host without files.
def Host.bare : Host := ⟨bytes "/srv/www", fun _ => .absent, fun _ => true, .sorted⟩

-- The client closes its side behind the request line.
def unfinished : Peer := .sending (bytes "GET / HTTP/1.1\r\n")

set_option maxRecDepth 10000 in
theorem unfinished_not_ends : ¬ Ends Host.bare (fun _ => 0) unfinished := by
  have hparse : parseReqLine unfinished.requestLine = some (bytes "GET", bytes "/", bytes "HTTP/1.1") := by decide
  have hbehind : unfinished.behindLine = [] := by decide
  rw [ends_iff, hbehind]
  rintro (hdismissed | ⟨before, after, heq, -⟩)
  · exact not_dismissed hparse hdismissed
  · exact absurd heq (by simp)

theorem contained_iff (host : Host) (fresh : Nat → UInt8) (hblock : HeaderBlock peer.behindLine header rest) :
    Contained host fresh peer ↔
      ∀ method uri, parseReqLine peer.requestLine = some (method, uri, bytes "HTTP/1.1") →
        LengthFits host (parseHeaders header) ∧ FileFits host method uri := by
  constructor
  · intro hcontained method uri hparse
    obtain ⟨enough, hserve⟩ := serveClient_of_block hparse hblock
    have hresult := hcontained enough
    rw [hserve host fresh enough (Nat.le_refl enough)] at hresult
    apply (handled_iff host fresh method uri header rest).mp
    cases hhandled : (readingOf host fresh method uri header rest).bind (dispatch host) with
    | ok outcome => exact ⟨outcome, rfl⟩
    | error fault => exact absurd (congrArg some hhandled) (hresult fault)
  · intro h rounds fault hserve
    have hanswers : Answers host fresh peer := by
      apply answers_iff.mpr
      by_cases hdismissed : Dismissed peer
      · exact .inl hdismissed
      · obtain ⟨method, uri, hparse⟩ := exists_of_not_dismissed hdismissed
        obtain ⟨hlength, hfile⟩ := h method uri hparse
        exact .inr ⟨method, uri, header, rest, hparse, hblock, hlength, hfile⟩
    obtain ⟨outcome, houtcome⟩ := answered_of_answers hanswers hserve
    cases houtcome

def malformed : Peer := .sending (bytes "POST / HTTP/1.1\r\nContent-Length: x\r\n\r\n")

set_option maxRecDepth 10000 in
theorem contained_iff_malformed : Contained Host.bare (fun _ => 0) malformed ↔
    ∀ method uri, parseReqLine malformed.requestLine = some (method, uri, bytes "HTTP/1.1") →
      LengthFits Host.bare (parseHeaders (bytes "Content-Length: x\r" ++ [10])) ∧
        FileFits Host.bare method uri := by
  have hbehind : malformed.behindLine = bytes "Content-Length: x\r" ++ 10 :: 13 :: 10 :: [] := by decide
  have hblock : HeaderBlock malformed.behindLine (bytes "Content-Length: x\r" ++ [10]) [] := by
    rw [hbehind]
    exact .line (by decide) (by decide) (.blank [])
  exact contained_iff Host.bare (fun _ => 0) hblock

set_option maxRecDepth 10000 in
theorem malformed_not_contained : ¬ Contained Host.bare (fun _ => 0) malformed := by
  intro h
  have hthrown : serveClient Host.bare (fun _ => 0) 2 malformed = some (.error .invalidArgument) := by decide
  exact h 2 .invalidArgument hthrown

end Results

end CloudLabs.HttpServer
