import CloudLabs.HttpServer.Serving

namespace CloudLabs.HttpServer

def linesOf (lines : List Bytes) : Bytes := lines.flatMap fun line => line ++ lineEnd

-- A status line, header lines, a blank line and as many bytes as the header says.
def Framed (sent : Bytes) : Prop :=
  ∃ status lines body, sent = status ++ (lineEnd ++ (linesOf lines ++ (lineEnd ++ body))) ∧
    10 ∉ status ∧ (∀ line ∈ lines, line ≠ [] ∧ 10 ∉ line) ∧
    bytes "Content-length: " ++ toString body.length ∈ lines

section Head

variable {line line' rest rest' : Bytes} {lines lines' : List Bytes} {body body' : Bytes}

theorem line_end_unique (h : 10 ∉ line) (h' : 10 ∉ line')
    (heq : line ++ (lineEnd ++ rest) = line' ++ (lineEnd ++ rest')) : line = line' ∧ rest = rest' := by
  have hend : lineEnd = [13] ++ 10 :: [] := by decide
  have hcut : ∀ line rest : Bytes, line ++ (lineEnd ++ rest) = (line ++ [13]) ++ 10 :: rest := by
    intro line rest
    rw [hend]
    simp
  have hcr : ∀ line : Bytes, 10 ∉ line → 10 ∉ line ++ [13] := by
    intro line hline hmem
    rcases List.mem_append.mp hmem with hfront | hlast
    · exact hline hfront
    · exact absurd hlast (by decide)
  rw [hcut, hcut] at heq
  obtain ⟨hline, hrest⟩ := line_unique (hcr line h) (hcr line' h') heq
  exact ⟨List.append_cancel_right hline, hrest⟩

-- The lines up to the first one that is blank, and what is behind it, are determined.
theorem head_unique (h : ∀ line ∈ lines, line ≠ [] ∧ 10 ∉ line) (h' : ∀ line ∈ lines', line ≠ [] ∧ 10 ∉ line)
    (heq : linesOf lines ++ (lineEnd ++ body) = linesOf lines' ++ (lineEnd ++ body')) :
    lines = lines' ∧ body = body' := by
  have hnone : (10 : UInt8) ∉ ([] : Bytes) := List.not_mem_nil
  have hcons : ∀ (line : Bytes) (lines : List Bytes) (rest : Bytes),
      linesOf (line :: lines) ++ rest = line ++ (lineEnd ++ (linesOf lines ++ rest)) := by
    intro line lines rest
    simp [linesOf]
  induction lines generalizing lines' with
  | nil =>
      cases lines' with
      | nil => exact ⟨rfl, List.append_cancel_left heq⟩
      | cons line' lines' =>
          obtain ⟨hne, hline'⟩ := h' line' List.mem_cons_self
          rw [hcons] at heq
          exact absurd (line_end_unique hnone hline' heq).1.symm hne
  | cons line lines ih =>
      obtain ⟨hne, hline⟩ := h line List.mem_cons_self
      rw [hcons] at heq
      cases lines' with
      | nil => exact absurd (line_end_unique hline hnone heq).1 hne
      | cons line' lines' =>
          obtain ⟨hne', hline'⟩ := h' line' List.mem_cons_self
          rw [hcons] at heq
          obtain ⟨rfl, hrest⟩ := line_end_unique hline hline' heq
          obtain ⟨rfl, hbody⟩ := ih (fun other hmem => h other (List.mem_cons_of_mem line hmem))
            (fun other hmem => h' other (List.mem_cons_of_mem line hmem)) hrest
          exact ⟨rfl, hbody⟩

end Head

section Html

variable (order : Order) (statusCode : Nat) (status body : Bytes)

theorem toString_injective {number number' : Nat} (h : toString number = toString number') : number = number' :=
  Parsing.decimal_injective h

theorem not_mem_toString (number : Nat) : 10 ∉ toString number := by
  intro hmem
  have hdigit := Parsing.isDigit_of_mem_decimal number 10 hmem
  exact absurd hdigit (by decide)

theorem getElem?_htmlHeaders (body name value : Bytes) : (htmlHeaders body)[name]? = some value ↔
    (name, value) ∈ [(bytes "Server", serverName), (bytes "Content-type", bytes "text/html"),
      (bytes "Content-length", toString body.length)] := by
  have htype : bytes "Server" ≠ bytes "Content-type" := by decide
  have hlength : bytes "Server" ≠ bytes "Content-length" := by decide
  have hdiffer : bytes "Content-type" ≠ bytes "Content-length" := by decide
  unfold htmlHeaders
  simp only [Std.ExtTreeMap.getElem?_insertIfNew, Std.ExtTreeMap.mem_insertIfNew, Std.compare_eq_iff_eq,
    Std.ExtTreeMap.not_mem_empty, Std.ExtTreeMap.getElem?_empty, List.mem_cons, List.not_mem_nil, or_false,
    Prod.mk.injEq, htype, hlength, hdiffer, not_false_eq_true, and_true]
  by_cases hname : bytes "Content-length" = name
  · subst hname
    simp [hlength.symm, hdiffer.symm, eq_comm]
  by_cases hname' : bytes "Content-type" = name
  · subst hname'
    simp [htype.symm, hdiffer, hdiffer.symm, eq_comm]
  · simp [hname, hname', Ne.symm hname, Ne.symm hname', eq_comm]

-- The header lines of a response, in the order in which they are written.
def htmlLines : List Bytes := (order.list (htmlHeaders body)).map fun KV => KV.1 ++ bytes ": " ++ KV.2

theorem mem_htmlLines (line : Bytes) : line ∈ htmlLines order body ↔
    line = bytes "Server: Cloud-fantasy server" ∨ line = bytes "Content-type: text/html" ∨
      line = bytes "Content-length: " ++ toString body.length := by
  have hserver : bytes "Server" ++ bytes ": " ++ serverName = bytes "Server: Cloud-fantasy server" := by decide
  have htype : bytes "Content-type" ++ bytes ": " ++ bytes "text/html" = bytes "Content-type: text/html" := by decide
  have hlength : bytes "Content-length" ++ bytes ": " = bytes "Content-length: " := by decide
  have hKV : ∀ KV, KV ∈ order.list (htmlHeaders body) ↔
      KV = (bytes "Server", serverName) ∨ KV = (bytes "Content-type", bytes "text/html") ∨
        KV = (bytes "Content-length", toString body.length) := by
    intro KV
    rw [(order.perm _).mem_iff, Std.ExtTreeMap.mem_toList_iff_getElem?_eq_some, getElem?_htmlHeaders]
    simp only [List.mem_cons, List.not_mem_nil, or_false]
  unfold htmlLines
  simp only [List.mem_map, hKV, or_and_right, exists_or, exists_eq_left, hserver, htype, hlength]
  simp only [eq_comm]

theorem htmlLines_plain : ∀ line ∈ htmlLines order body, line ≠ [] ∧ 10 ∉ line := by
  intro line hline
  rcases (mem_htmlLines order body line).mp hline with rfl | rfl | rfl
  · decide
  · decide
  · constructor
    · exact List.append_ne_nil_of_left_ne_nil (by decide) _
    · intro hmem
      rcases List.mem_append.mp hmem with hname | hvalue
      · exact absurd hname (by decide)
      · exact not_mem_toString _ hvalue

-- Only one line announces a length.
theorem length_of_mem_htmlLines {n : Nat} (h : bytes "Content-length: " ++ toString n ∈ htmlLines order body) :
    n = body.length := by
  have hname : bytes "Content-length: " = bytes "Content-" ++ 108 :: bytes "ength: " := by decide
  have hserver : bytes "Server: Cloud-fantasy server" = 83 :: bytes "erver: Cloud-fantasy server" := by decide
  have htype : bytes "Content-type: text/html" = bytes "Content-" ++ 116 :: bytes "ype: text/html" := by decide
  have hcontent : bytes "Content-" = 67 :: bytes "ontent-" := by decide
  rcases (mem_htmlLines order body _).mp h with heq | heq | heq
  · rw [hname, hserver, hcontent, List.append_assoc, List.cons_append] at heq
    exact absurd (List.cons.inj heq).1 (by decide)
  · rw [hname, htype, List.append_assoc, List.cons_append] at heq
    exact absurd (List.cons.inj (List.append_cancel_left heq)).1 (by decide)
  · exact toString_injective (List.append_cancel_left heq)

def statusLine : Bytes := bytes "HTTP/1.1" ++ bytes " " ++ toString statusCode ++ bytes " " ++ status

theorem html_eq : html order statusCode status body =
    statusLine statusCode status ++ (lineEnd ++ (linesOf (htmlLines order body) ++
      (lineEnd ++ (body ++ lineEnd)))) := by
  unfold html Response.serialize Headers.serialize statusLine linesOf htmlLines
  rw [List.flatMap_map]
  simp [Response.new]

theorem not_mem_statusLine {status : Bytes} (hstatus : 10 ∉ status) : 10 ∉ statusLine statusCode status := by
  have hversion : 10 ∉ bytes "HTTP/1.1" := by decide
  have hspace : 10 ∉ bytes " " := by decide
  have hcode := not_mem_toString statusCode
  unfold statusLine
  simp only [List.mem_append, not_or]
  exact ⟨⟨⟨⟨hversion, hspace⟩, hcode⟩, hspace⟩, hstatus⟩

-- Without the line end behind the body.
theorem framed_front {status : Bytes} (hstatus : 10 ∉ status) :
    ∃ front, html order statusCode status body = front ++ lineEnd ∧ Framed front := by
  refine ⟨statusLine statusCode status ++ (lineEnd ++ (linesOf (htmlLines order body) ++ (lineEnd ++ body))),
    ?_, statusLine statusCode status, htmlLines order body, body, rfl, not_mem_statusLine statusCode hstatus,
    htmlLines_plain order body, ?_⟩
  · rw [html_eq]
    simp
  · exact (mem_htmlLines order body _).mpr (.inr (.inr rfl))

-- Two bytes more come than are announced.
theorem not_framed {status : Bytes} (hstatus : 10 ∉ status) : ¬ Framed (html order statusCode status body) := by
  rintro ⟨status', lines, body', heq, hstatus', hlines, hlength⟩
  rw [html_eq] at heq
  obtain ⟨-, hrest⟩ := line_end_unique (not_mem_statusLine statusCode hstatus) hstatus' heq
  obtain ⟨rfl, rfl⟩ := head_unique (htmlLines_plain order body) hlines hrest
  have hlen := length_of_mem_htmlLines order body hlength
  have hend : lineEnd.length = 2 := by decide
  rw [List.length_append, hend] at hlen
  omega

end Html

section Answers

variable {host : Host} {sent : Bytes}

-- Every answer is a page with a status of the source.
theorem html_of_dispatch {reading : Reading} (h : dispatch host reading = .ok (.answered sent)) :
    ∃ statusCode status body, sent = html host.order statusCode status body ∧ 10 ∉ status := by
  have hok : 10 ∉ bytes "OK" := by decide
  have hmissing : 10 ∉ bytes "Page Not Found" := by decide
  have hnot : 10 ∉ bytes "Not Implemented" := by decide
  cases reading with
  | rejected => cases h
  | unsupported =>
      cases h
      exact ⟨_, _, _, rfl, hnot⟩
  | request req =>
      simp only [dispatch] at h
      split at h
      · unfold handleGet at h
        cases hparse : parseUri host.contentBase req.resource with
        | error fault =>
            rw [hparse] at h
            cases h
        | ok filename =>
            simp only [hparse, bind, Except.bind] at h
            cases hfile : host.ifstream filename with
            | absent =>
                rw [hfile] at h
                cases h
                exact ⟨_, _, _, rfl, hmissing⟩
            | unreadable =>
                rw [hfile] at h
                cases h
            | readable content =>
                rw [hfile] at h
                cases h
                exact ⟨_, _, _, rfl, hok⟩
      · split at h
        · cases h
          unfold handlePost
          simp only
          split
          · split
            · exact ⟨_, _, _, rfl, hmissing⟩
            · exact ⟨_, _, _, rfl, hok⟩
          · exact ⟨_, _, _, rfl, hmissing⟩
        · cases h
          exact ⟨_, _, _, rfl, hnot⟩

theorem html_of_serveClient {fresh : Nat → UInt8} {rounds : Nat} {peer : Peer}
    (h : serveClient host fresh rounds peer = some (.ok (.answered sent))) :
    ∃ statusCode status body, sent = html host.order statusCode status body ∧ 10 ∉ status := by
  obtain ⟨reading, -, hreading⟩ := Option.map_eq_some_iff.mp h
  cases reading with
  | error fault => cases hreading
  | ok reading => exact html_of_dispatch hreading

-- No answer is framed by its length, and each is but for the line end behind its body.
theorem answer_not_framed {fresh : Nat → UInt8} {rounds : Nat} {peer : Peer}
    (h : serveClient host fresh rounds peer = some (.ok (.answered sent))) :
    ¬ Framed sent ∧ ∃ front, sent = front ++ lineEnd ∧ Framed front := by
  obtain ⟨statusCode, status, body, rfl, hstatus⟩ := html_of_serveClient h
  exact ⟨not_framed host.order statusCode body hstatus, framed_front host.order statusCode body hstatus⟩

def missing : Peer := .sending (bytes "GET /missing HTTP/1.1\r\n\r\n")

set_option maxRecDepth 10000 in
theorem answer_not_framed_missing : ¬ Framed (pageNotFound .sorted (bytes "/missing")) ∧
    ∃ front, pageNotFound .sorted (bytes "/missing") = front ++ lineEnd ∧ Framed front :=
  answer_not_framed (show serveClient Host.bare (fun _ => 0) 1 missing =
    some (.ok (.answered (pageNotFound .sorted (bytes "/missing")))) by decide)

set_option maxRecDepth 10000 in
theorem missing_not_framed : ∃ sent, serveClient Host.bare (fun _ => 0) 1 missing = some (.ok (.answered sent)) ∧
    ¬ Framed sent := by
  refine ⟨pageNotFound .sorted (bytes "/missing"), by decide, ?_⟩
  exact not_framed .sorted 404 _ (by decide : 10 ∉ bytes "Page Not Found")

end Answers

end CloudLabs.HttpServer
