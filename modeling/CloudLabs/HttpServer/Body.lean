import CloudLabs.HttpServer.Serving

namespace CloudLabs.HttpServer

open Parsing TcpSocket

-- What a request becomes does not depend on what its buffer held before: its body is
-- received, and so is what the answer is made of.
def OnlyReceived (host : Host) (peer : Peer) : Prop :=
  (∀ fresh rounds req, readRequest host fresh rounds peer = some (.ok (.request req)) →
    ∃ header rest, HeaderBlock peer.behindLine header rest ∧ req.body <+: rest) ∧
  ∀ fresh fresh' rounds, serveClient host fresh rounds peer = serveClient host fresh' rounds peer

-- No body is shorter than its header says.
def Delivered (host : Host) (headers : Headers) (rest : Bytes) : Prop :=
  ∀ text numeral, contentLength headers = some text → readNumeral text = some numeral →
    numeral.value < 2 ^ 63 → host.allocates numeral.value.toNat = true → numeral.value ≤ rest.length

section Body

variable {host : Host} {headers : Headers} {peer : Peer} {text rest : Bytes} {n : Int}

-- The length that the header announces is the length of the body.
theorem length_of_recvBody (h : contentLength headers = some text) (hlen : stoll text = .ok n)
    {fresh : Nat → UInt8} {body : Bytes} (hbody : recvBody host fresh headers peer = .ok body) :
    body.length = n.toNat := by
  rw [recvBody_of_some h hlen] at hbody
  split at hbody
  · cases hbody
    rw [List.length_nil]
    omega
  · split at hbody
    · cases hbody
      rw [List.length_append, List.length_map, List.length_range', List.length_take]
      omega
    · cases hbody

theorem recvBody_of_delivered (h : Delivered host headers peer.pending) :
    (∀ fresh fresh', recvBody host fresh headers peer = recvBody host fresh' headers peer) ∧
      ∀ fresh body, recvBody host fresh headers peer = .ok body → body <+: peer.pending := by
  cases hheader : contentLength headers with
  | none =>
      refine ⟨fun fresh fresh' => ?_, fun fresh body hbody => ?_⟩
      · rw [recvBody_of_none hheader, recvBody_of_none hheader]
      · rw [recvBody_of_none hheader] at hbody
        cases hbody
        exact List.nil_prefix
  | some text =>
      cases hlen : stoll text with
      | error fault =>
          refine ⟨fun fresh fresh' => ?_, fun fresh body hbody => ?_⟩
          · rw [recvBody_of_error hheader hlen, recvBody_of_error hheader hlen]
          · rw [recvBody_of_error hheader hlen] at hbody
            cases hbody
      | ok n =>
          obtain ⟨numeral, hread, -, hhigh, rfl⟩ := stoll_eq_ok_iff.mp hlen
          -- Nothing of the buffer is left over behind what is received.
          have hwhole : host.allocates numeral.value.toNat = true →
              numeral.value.toNat - (peer.pending.take numeral.value.toNat).length = 0 := by
            intro hallocates
            have hle := h text numeral hheader hread hhigh hallocates
            rw [List.length_take]
            omega
          have hbody : ∀ fresh, recvBody host fresh headers peer =
              if numeral.value ≤ 0 then .ok []
              else if host.allocates numeral.value.toNat then .ok (peer.pending.take numeral.value.toNat)
              else .error .badAlloc := by
            intro fresh
            rw [recvBody_of_some hheader hlen]
            by_cases hallocates : host.allocates numeral.value.toNat = true
            · simp only [hallocates, if_true, hwhole hallocates, List.range'_zero, List.map_nil,
                List.append_nil]
            · simp [hallocates]
          refine ⟨fun fresh fresh' => by rw [hbody, hbody], fun fresh body hok => ?_⟩
          rw [hbody] at hok
          split at hok
          · cases hok
            exact List.nil_prefix
          · split at hok
            · cases hok
              exact List.take_prefix _ _
            · cases hok

-- Of every accepted request, for its header block and what is behind that.
theorem readRequest_of_delivered (h : ∀ method uri header rest,
    parseReqLine peer.requestLine = some (method, uri, bytes "HTTP/1.1") →
      HeaderBlock peer.behindLine header rest → Delivered host (parseHeaders header) rest)
    (fresh fresh' : Nat → UInt8) (rounds : Nat) :
    readRequest host fresh rounds peer = readRequest host fresh' rounds peer := by
  by_cases hdismissed : Dismissed peer
  · obtain ⟨reading, -, hreads⟩ := readRequest_of_dismissed hdismissed
    rw [hreads, hreads]
  · obtain ⟨method, uri, hparse⟩ := exists_of_not_dismissed hdismissed
    obtain ⟨next, hnext, hreads⟩ := readRequest_of_accepted hparse
    rw [hreads, hreads]
    cases hheaders : recvHeaders rounds [] next with
    | none => rfl
    | some found =>
        obtain ⟨header, heq, hblock⟩ := block_of_recvHeaders hheaders
        rw [List.nil_append] at heq
        rw [hnext, ← heq] at hblock
        have hdelivered := h method uri found.1 found.2.pending hparse hblock
        rw [← pending_sending found.2.pending] at hdelivered
        simp only [Option.map_some, readingOf, (recvBody_of_delivered hdelivered).1 fresh fresh']

theorem onlyReceived_iff (host : Host) (peer : Peer) : OnlyReceived host peer ↔
    ∀ method uri header rest, parseReqLine peer.requestLine = some (method, uri, bytes "HTTP/1.1") →
      HeaderBlock peer.behindLine header rest → Delivered host (parseHeaders header) rest := by
  constructor
  · intro h method uri header rest hparse hblock text numeral hheader hread hhigh hallocates
    by_contra hshort
    -- A body that is announced longer than what comes is as long as announced.
    have hlen : stoll text = .ok numeral.value :=
      stoll_eq_ok_iff.mpr ⟨numeral, hread, by omega, hhigh, rfl⟩
    obtain ⟨body, hbody⟩ : ∃ body, recvBody host (fun _ => 0) (parseHeaders header) (.sending rest) = .ok body := by
      rw [recvBody_of_some hheader hlen, if_neg (by omega), if_pos hallocates]
      exact ⟨_, rfl⟩
    obtain ⟨enough, hreads⟩ := readRequest_of_block hparse hblock
    have hread := hreads host (fun _ => 0) enough (Nat.le_refl enough)
    simp only [readingOf, hbody, Except.map] at hread
    obtain ⟨header', rest', hblock', hprefix⟩ := h.1 _ _ _ hread
    obtain ⟨rfl, rfl⟩ := hblock.unique hblock'
    have hle := hprefix.length_le
    simp only [length_of_recvBody hheader hlen hbody] at hle
    omega
  · intro h
    constructor
    · intro fresh rounds req hread
      by_cases hdismissed : Dismissed peer
      · obtain ⟨reading, hreading, hreads⟩ := readRequest_of_dismissed hdismissed
        rw [hreads] at hread
        rcases hreading with rfl | rfl
        · cases hread
        · cases hread
      · obtain ⟨method, uri, hparse⟩ := exists_of_not_dismissed hdismissed
        obtain ⟨header, rest, hblock, heq⟩ := readRequest_eq hparse hread
        refine ⟨header, rest, hblock, ?_⟩
        have hdelivered := h method uri header rest hparse hblock
        rw [← pending_sending rest] at hdelivered
        cases hbody : recvBody host fresh (parseHeaders header) (.sending rest) with
        | error fault =>
            simp only [readingOf, hbody, Except.map] at heq
            cases heq
        | ok body =>
            simp only [readingOf, hbody, Except.map] at heq
            cases heq
            have hprefix := (recvBody_of_delivered hdelivered).2 fresh body hbody
            rw [pending_sending] at hprefix
            exact hprefix
    · intro fresh fresh' rounds
      unfold serveClient
      rw [readRequest_of_delivered h fresh fresh' rounds]

end Body

-- One byte less comes than is announced, and whatever the buffer held is answered.
def shortened : Peer :=
  .sending (bytes "POST /Post_show HTTP/1.1\r\nContent-Length: 12\r\n\r\nName=a&ID=b")

set_option maxRecDepth 20000 in
theorem shortened_not_onlyReceived : ¬ OnlyReceived Host.bare shortened ∧
    serveClient Host.bare (fun _ => 99) 2 shortened ≠ serveClient Host.bare (fun _ => 100) 2 shortened := by
  have hdiffer : serveClient Host.bare (fun _ => 99) 2 shortened ≠
      serveClient Host.bare (fun _ => 100) 2 shortened := by decide
  exact ⟨fun h => hdiffer (h.2 _ _ 2), hdiffer⟩

end CloudLabs.HttpServer
