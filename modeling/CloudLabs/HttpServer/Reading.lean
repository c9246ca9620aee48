import CloudLabs.HttpServer.Server

namespace CloudLabs.HttpServer

open TcpSocket

-- What the first call of recv_line returns, and what is left behind it.
def Peer.requestLine (peer : Peer) : Bytes :=
  if 10 ∈ peer.pending then peer.pending.takeWhile (· ≠ 10) ++ [10]
  else if peer.failing 0 then [] else peer.pending

def Peer.behindLine (peer : Peer) : Bytes := (peer.pending.dropWhile (· ≠ 10)).tail

-- The client is answered or dropped on its request line alone.
def Dismissed (peer : Peer) : Prop :=
  ∀ method uri version, parseReqLine peer.requestLine = some (method, uri, version) →
    version ≠ bytes "HTTP/1.1"

-- A text is a header block and a rest: lines up to the first one that is CR LF.
inductive HeaderBlock : Bytes → Bytes → Bytes → Prop where
  | blank (rest : Bytes) : HeaderBlock (13 :: 10 :: rest) [] rest
  | line {line text header rest : Bytes} : 10 ∉ line → line ≠ [13] → HeaderBlock text header rest →
      HeaderBlock (line ++ 10 :: text) (line ++ 10 :: header) rest

-- Some line of the text is CR LF.
def HasBlankLine (text : Bytes) : Prop :=
  ∃ before after, text = before ++ 13 :: 10 :: after ∧ (before = [] ∨ before.getLast? = some 10)

section Lines

theorem span_line {line : Bytes} (h : 10 ∉ line) (rest : Bytes) :
    (line ++ 10 :: rest).takeWhile (· ≠ 10) = line ∧ (line ++ 10 :: rest).dropWhile (· ≠ 10) = 10 :: rest := by
  have hall : ∀ ch ∈ line, decide (ch ≠ 10) = true := by
    intro ch hmem
    exact decide_eq_true fun heq => h (heq ▸ hmem)
  constructor
  · rw [List.takeWhile_append_of_pos hall]
    simp
  · rw [List.dropWhile_append_of_pos hall]
    simp

theorem line_unique {line line' rest rest' : Bytes} (h : 10 ∉ line) (h' : 10 ∉ line')
    (heq : line ++ 10 :: rest = line' ++ 10 :: rest') : line = line' ∧ rest = rest' := by
  obtain ⟨htake, hdrop⟩ := span_line h rest
  obtain ⟨htake', hdrop'⟩ := span_line h' rest'
  rw [heq] at htake hdrop
  exact ⟨htake.symm.trans htake', (List.cons.inj (hdrop.symm.trans hdrop')).2⟩

theorem not_mem_cr : (10 : UInt8) ∉ [(13 : UInt8)] := by decide

theorem line_eq_blank_iff {line : Bytes} : line ++ [10] = bytes "\r\n" ↔ line = [13] := by
  rw [show bytes "\r\n" = [13] ++ [10] by decide]
  exact List.append_left_inj [10]

theorem recvLine_eq (peer : Peer) :
    ∃ next, recvLine peer = (peer.requestLine, next) ∧ next.pending = peer.behindLine := by
  unfold Peer.requestLine Peer.behindLine
  by_cases hmem : 10 ∈ peer.pending
  · obtain ⟨line, rest, hpending, hline⟩ := List.eq_append_cons_of_mem hmem
    obtain ⟨next, hrecv, hrest, -⟩ := recvLine_of_append hline hpending
    obtain ⟨htake, hdrop⟩ := span_line hline rest
    refine ⟨next, ?_, ?_⟩
    · rw [if_pos hmem, hrecv, hpending, htake]
    · rw [hrest, hpending, hdrop]
      rfl
  · have hall : ∀ ch ∈ peer.pending, decide (ch ≠ 10) = true := by
      intro ch hch
      exact decide_eq_true fun heq => hmem (heq ▸ hch)
    refine ⟨⟨[], fun call => peer.failing (call + 1)⟩, ?_, ?_⟩
    · rw [if_neg hmem]
      exact recvLine_of_not_mem hmem
    · rw [List.dropWhile_eq_nil_iff.mpr hall]
      rfl

end Lines

namespace HeaderBlock

variable {text header header' rest rest' : Bytes}

theorem unique (h : HeaderBlock text header rest) (h' : HeaderBlock text header' rest') :
    header = header' ∧ rest = rest' := by
  induction h generalizing header' with
  | blank rest =>
      generalize htext : 13 :: 10 :: rest = text at h'
      cases h' with
      | blank rest' =>
          cases htext
          exact ⟨rfl, rfl⟩
      | line hline hne hblock => exact absurd (line_unique not_mem_cr hline htext).1.symm hne
  | @line line text header rest hline hne hblock ih =>
      generalize htext : line ++ 10 :: text = whole at h'
      cases h' with
      | blank rest' => exact absurd (line_unique hline not_mem_cr htext).1 hne
      | line hline' hne' hblock' =>
          obtain ⟨rfl, rfl⟩ := line_unique hline hline' htext
          obtain ⟨rfl, rfl⟩ := ih hblock'
          exact ⟨rfl, rfl⟩

theorem hasBlankLine (h : HeaderBlock text header rest) : HasBlankLine text := by
  induction h with
  | blank rest => exact ⟨[], rest, rfl, .inl rfl⟩
  | @line line text header rest hline hne hblock ih =>
      obtain ⟨before, after, rfl, hbefore⟩ := ih
      refine ⟨line ++ 10 :: before, after, by simp, .inr ?_⟩
      rcases hbefore with rfl | hlast
      · simp
      · rw [List.getLast?_append, List.getLast?_cons, hlast]
        simp

-- By induction on the lines of the text.
theorem exists_of_hasBlankLine (h : HasBlankLine text) : ∃ header rest, HeaderBlock text header rest := by
  induction text using Parsing.word_induction (10 : UInt8) with
  | last text hnot =>
      obtain ⟨before, after, rfl, -⟩ := h
      exact absurd (by simp) hnot
  | step line text hline ih =>
      by_cases hblank : line = [13]
      · subst hblank
        exact ⟨[], text, .blank text⟩
      · have htext : HasBlankLine text := by
          obtain ⟨before, after, heq, hbefore⟩ := h
          rcases hbefore with rfl | hlast
          · exact absurd (line_unique hline not_mem_cr heq).1 hblank
          · -- The first LF of the text is in front of the blank line or ends what is.
            have hmem : 10 ∈ before := List.mem_of_getLast? hlast
            obtain ⟨first, others, rfl, hfirst⟩ := List.eq_append_cons_of_mem hmem
            rw [List.append_assoc, List.cons_append] at heq
            obtain ⟨-, rfl⟩ := line_unique hline hfirst heq
            refine ⟨others, after, rfl, ?_⟩
            by_cases hnil : others = []
            · exact .inl hnil
            · right
              rw [List.getLast?_append, List.getLast?_cons, List.getLast?_eq_some_getLast hnil] at hlast
              rw [List.getLast?_eq_some_getLast hnil]
              simpa using hlast
        obtain ⟨header, rest, hblock⟩ := ih htext
        exact ⟨_, rest, .line hline hblank hblock⟩

end HeaderBlock

section Headers

variable {peer : Peer} {text header rest : Bytes}

-- A block is read with as many rounds as it has lines, or more.
theorem recvHeaders_of_block (h : HeaderBlock text header rest) {peer : Peer} (hpending : peer.pending = text)
    (before : Bytes) : ∃ enough next, next.pending = rest ∧
      ∀ rounds, enough ≤ rounds → recvHeaders rounds before peer = some (before ++ header, next) := by
  induction h generalizing peer before with
  | blank rest =>
      obtain ⟨next, hrecv, hrest, -⟩ := recvLine_of_append not_mem_cr hpending
      refine ⟨1, next, hrest, fun rounds hrounds => ?_⟩
      obtain ⟨rounds, rfl⟩ : ∃ later, rounds = later + 1 := ⟨rounds - 1, by omega⟩
      rw [recvHeaders, hrecv]
      simp only [if_pos (line_eq_blank_iff.mpr rfl), List.append_nil]
  | @line line text header rest hline hne hblock ih =>
      obtain ⟨next, hrecv, hrest, -⟩ := recvLine_of_append hline hpending
      obtain ⟨enough, last, hlast, hrounds⟩ := ih hrest (before ++ (line ++ [10]))
      refine ⟨enough + 1, last, hlast, fun rounds hle => ?_⟩
      obtain ⟨rounds, rfl⟩ : ∃ later, rounds = later + 1 := ⟨rounds - 1, by omega⟩
      rw [recvHeaders, hrecv]
      simp only [if_neg (mt line_eq_blank_iff.mp hne)]
      rw [hrounds rounds (by omega)]
      simp

-- By induction on the rounds; the end of the stream is no blank line.
theorem block_of_recvHeaders {rounds : Nat} {before headerStr : Bytes} {next : Peer}
    (h : recvHeaders rounds before peer = some (headerStr, next)) :
    ∃ header, headerStr = before ++ header ∧ HeaderBlock peer.pending header next.pending := by
  induction rounds generalizing peer before with
  | zero => cases h
  | succ rounds ih =>
      rw [recvHeaders] at h
      by_cases hmem : 10 ∈ peer.pending
      · obtain ⟨line, rest, hpending, hline⟩ := List.eq_append_cons_of_mem hmem
        obtain ⟨mid, hrecv, hrest, -⟩ := recvLine_of_append hline hpending
        rw [hrecv] at h
        by_cases hblank : line = [13]
        · subst hblank
          simp only [if_pos (line_eq_blank_iff.mpr rfl), Option.some.injEq, Prod.mk.injEq] at h
          obtain ⟨rfl, rfl⟩ := h
          rw [hpending, hrest]
          exact ⟨[], (List.append_nil _).symm, .blank rest⟩
        · simp only [if_neg (mt line_eq_blank_iff.mp hblank)] at h
          obtain ⟨header, rfl, hblock⟩ := ih h
          rw [hrest] at hblock
          rw [hpending]
          exact ⟨line ++ 10 :: header, by simp, .line hline hblank hblock⟩
      · rw [recvLine_of_not_mem hmem] at h
        have hnot : (if peer.failing 0 then [] else peer.pending) ≠ bytes "\r\n" := by
          intro heq
          have hlf : (10 : UInt8) ∈ bytes "\r\n" := by decide
          rw [← heq] at hlf
          by_cases hfailing : peer.failing 0 = true
          · rw [if_pos hfailing] at hlf
            cases hlf
          · rw [if_neg hfailing] at hlf
            exact hmem hlf
        simp only [if_neg hnot] at h
        obtain ⟨header, -, hblock⟩ := ih h
        generalize htext : Peer.pending _ = text at hblock
        cases hblock with
        | blank rest => cases htext
        | @line line text header rest _ _ _ =>
            have hlen := congrArg List.length htext
            rw [List.length_append] at hlen
            simp [Peer.pending] at hlen

end Headers

section Request

variable {host : Host} {peer : Peer} {method uri header rest : Bytes}

-- The body depends on the bytes that are left, not on how they arrive.
theorem recvBody_congr (host : Host) (fresh : Nat → UInt8) (headers : Headers) {peer peer' : Peer}
    (h : peer.pending = peer'.pending) : recvBody host fresh headers peer = recvBody host fresh headers peer' := by
  unfold recvBody
  simp only [recvBytes_fst, h]

-- What is read of a request whose header block and rest are given.
def readingOf (host : Host) (fresh : Nat → UInt8) (method uri header rest : Bytes) : Except Fault Reading :=
  (recvBody host fresh (parseHeaders header) (.sending rest)).map fun body =>
    .request ⟨bytes "HTTP/1.1", method, parseHeaders header, uri, body⟩

theorem readRequest_of_dismissed (h : Dismissed peer) : ∃ reading, (reading = .rejected ∨ reading = .unsupported) ∧
    ∀ host fresh rounds, readRequest host fresh rounds peer = some (.ok reading) := by
  obtain ⟨next, hrecv, -⟩ := recvLine_eq peer
  cases hparse : parseReqLine peer.requestLine with
  | none =>
      refine ⟨.rejected, .inl rfl, fun host fresh rounds => ?_⟩
      simp only [readRequest, hrecv, hparse]
  | some parts =>
      obtain ⟨method, uri, version⟩ := parts
      refine ⟨.unsupported, .inr rfl, fun host fresh rounds => ?_⟩
      simp only [readRequest, hrecv, hparse, if_pos (h method uri version hparse)]

theorem readRequest_of_accepted (h : parseReqLine peer.requestLine = some (method, uri, bytes "HTTP/1.1")) :
    ∃ next, next.pending = peer.behindLine ∧ ∀ host fresh rounds,
      readRequest host fresh rounds peer = (recvHeaders rounds [] next).map fun found =>
        readingOf host fresh method uri found.1 found.2.pending := by
  obtain ⟨next, hrecv, hnext⟩ := recvLine_eq peer
  refine ⟨next, hnext, fun host fresh rounds => ?_⟩
  simp only [readRequest, hrecv, h, if_neg (not_not_intro (rfl : bytes "HTTP/1.1" = bytes "HTTP/1.1"))]
  cases hheaders : recvHeaders rounds [] next with
  | none => rfl
  | some found =>
      obtain ⟨headerStr, last⟩ := found
      have hbody := recvBody_congr host fresh (parseHeaders headerStr)
        (pending_sending last.pending).symm
      simp only [Option.map_some, readingOf, ← hbody]
      rfl

-- A request that is read has a header block, and is read with enough rounds if it has one.
theorem readRequest_eq (h : parseReqLine peer.requestLine = some (method, uri, bytes "HTTP/1.1"))
    {fresh : Nat → UInt8} {rounds : Nat} {reading : Except Fault Reading}
    (hread : readRequest host fresh rounds peer = some reading) :
    ∃ header rest, HeaderBlock peer.behindLine header rest ∧
      reading = readingOf host fresh method uri header rest := by
  obtain ⟨next, hnext, hreads⟩ := readRequest_of_accepted h
  rw [hreads] at hread
  obtain ⟨⟨headerStr, last⟩, hheaders, rfl⟩ := Option.map_eq_some_iff.mp hread
  obtain ⟨header, hheader, hblock⟩ := block_of_recvHeaders hheaders
  rw [List.nil_append] at hheader
  rw [hnext, ← hheader] at hblock
  exact ⟨headerStr, last.pending, hblock, rfl⟩

theorem readRequest_of_block (h : parseReqLine peer.requestLine = some (method, uri, bytes "HTTP/1.1"))
    (hblock : HeaderBlock peer.behindLine header rest) : ∃ enough, ∀ host fresh rounds, enough ≤ rounds →
      readRequest host fresh rounds peer = some (readingOf host fresh method uri header rest) := by
  obtain ⟨next, hnext, hreads⟩ := readRequest_of_accepted h
  obtain ⟨enough, last, hlast, hrounds⟩ := recvHeaders_of_block hblock hnext []
  refine ⟨enough, fun host fresh rounds hle => ?_⟩
  rw [hreads, hrounds rounds hle, Option.map_some, List.nil_append, hlast]

end Request

end CloudLabs.HttpServer
