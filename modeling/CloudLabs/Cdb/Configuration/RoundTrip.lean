import CloudLabs.Cdb.Configuration.Theorems

namespace CloudLabs.Cdb

open CloudLabs.Parsing ConfigurationManager

-- A server as its operator thinks of it: where it listens, and whom it talks to.
inductive Description where
  | coordinator (own : Bytes × UInt16) (participants : List (Bytes × UInt16))
  | participant (own server : Bytes × UInt16)

def printAddr (addr : Bytes × UInt16) : Bytes := addr.1 ++ 58 :: decimal addr.2.toNat

namespace Description

def line (op : String) (value : Bytes) : Bytes := bytes op ++ 32 :: value

-- The configuration file that says so.
def file (description : Description) : Bytes :=
  let lines := match description with
    | coordinator own participants => line "mode" (bytes "coordinator") :: line "coordinator_info" (printAddr own) ::
        participants.map fun addr => line "participant_info" (printAddr addr)
    | participant own server => [line "mode" (bytes "participant"), line "participant_info" (printAddr own),
        line "coordinator_info" (printAddr server)]
  lines.flatMap fun line => line ++ [10]

-- The command line that says so.
def flags : Description → Flags
  | coordinator own participants =>
      ⟨bytes "coordinator", own.1, own.2, participants.flatMap fun addr => printAddr addr ++ [59], []⟩
  | participant own server => ⟨bytes "participant", own.1, own.2, [], printAddr server⟩

-- The configuration that a server holds which is started so.
def configuration : Description → AnyConfiguration
  | coordinator own participants =>
      .coordinator ⟨⟨own.1, own.2, 2⟩, participants.map Prod.fst, participants.map Prod.snd⟩
  | participant own server =>
      .participant ⟨⟨own.1, own.2, 2⟩, server.1, server.2, bytes "/tmp/testdb"⟩

-- A name without the characters that end it somewhere.
def PlainHost (host : Bytes) : Prop := 58 ∉ host ∧ 59 ∉ host ∧ 10 ∉ host

-- Port 0 cannot be given on the command line, and an empty host of the coordinator not
-- in the file.
def Plain : Description → Prop
  | coordinator own participants =>
      PlainHost own.1 ∧ own.2 ≠ 0 ∧ participants ≠ [] ∧ ∀ addr ∈ participants, PlainHost addr.1
  | participant own server => PlainHost own.1 ∧ own.2 ≠ 0 ∧ PlainHost server.1 ∧ server.1 ≠ []

end Description

section Numbers

theorem decimal_ne_nil (number : Nat) : decimal number ≠ [] := by
  unfold decimal
  simp

theorem readNumeral_decimal (number : Nat) : readNumeral (decimal number) = some ⟨false, number⟩ := by
  have hdigits := isDigit_of_mem_decimal number
  have hread : readDigits false (decimal number) = some ⟨false, number⟩ := by
    have htake : (decimal number).takeWhile isDigit = decimal number :=
      List.takeWhile_eq_self_iff.mpr hdigits
    simp only [readDigits, htake, value_decimal, if_neg (decimal_ne_nil number)]
  cases hdecimal : decimal number with
  | nil => exact absurd hdecimal (decimal_ne_nil number)
  | cons digit digits =>
      rw [hdecimal] at hread
      have hdigit : isDigit digit = true := hdigits digit (by rw [hdecimal]; exact List.mem_cons_self)
      simp only [isDigit, Bool.and_eq_true, decide_eq_true_eq, UInt8.le_iff_toNat_le, UInt8.reduceToNat] at hdigit
      have hspace : isSpace digit = false := by
        simp only [isSpace, Bool.or_eq_false_iff, Bool.and_eq_false_iff, decide_eq_false_iff_not,
          UInt8.le_iff_toNat_le, ← UInt8.toNat_inj, UInt8.reduceToNat]
        omega
      have hplus : digit ≠ 43 := by
        intro heq
        rw [heq] at hdigit
        exact absurd hdigit (by decide)
      have hminus : digit ≠ 45 := by
        intro heq
        rw [heq] at hdigit
        exact absurd hdigit (by decide)
      unfold readNumeral
      rw [List.dropWhile_cons_of_neg (by simp [hspace])]
      split
      · next heq => exact absurd (List.cons.inj heq).1 hplus
      · next heq => exact absurd (List.cons.inj heq).1 hminus
      · exact hread

theorem stoi_decimal (port : UInt16) : stoi (decimal port.toNat) = some (port.toNat : Int) := by
  have hlt := port.toNat_lt
  unfold stoi
  rw [readNumeral_decimal]
  simp only [Numeral.value, Bool.false_eq_true, if_false]
  rw [if_pos (by omega)]

theorem ofInt_port (port : UInt16) : UInt16.ofInt port.toNat = port := by
  have hlt := port.toNat_lt
  apply UInt16.toNat_inj.mp
  simp only [UInt16.ofInt, UInt16.toNat_ofNat']
  omega

end Numbers

section Lines

variable {host value : Bytes} {port : UInt16} {own : Bytes × UInt16} {fresh : UInt16}

theorem getline_append {delim : UInt8} {word : Bytes} (h : delim ∉ word) (rest : Bytes) :
    getline delim (word ++ delim :: rest) = some (word, rest) := by
  have hall : ∀ ch ∈ word, decide (ch ≠ delim) = true := by
    intro ch hch
    exact decide_eq_true fun heq => h (heq ▸ hch)
  have hne : word ++ delim :: rest ≠ [] := by simp
  unfold getline
  rw [if_neg hne, List.takeWhile_append_of_pos hall, List.dropWhile_append_of_pos hall]
  simp

theorem getline_decimal (number : Nat) : getline 10 (decimal number) = some (decimal number, []) := by
  have hall : ∀ ch ∈ decimal number, decide (ch ≠ 10) = true := by
    intro ch hch
    apply decide_eq_true
    intro heq
    have hdigit := isDigit_of_mem_decimal number ch hch
    rw [heq] at hdigit
    exact absurd hdigit (by decide)
  unfold getline
  rw [if_neg (decimal_ne_nil number), List.takeWhile_eq_self_iff.mpr hall, List.dropWhile_eq_nil_iff.mpr hall]
  rfl

theorem splitAddr_print (h : 58 ∉ own.1) : splitAddr (printAddr own) = some own := by
  unfold splitAddr printAddr
  rw [getline_append h]
  simp only [getline_decimal, stoi_decimal, Option.map_some, ofInt_port]

theorem setInfo_print {invalid : String} {store : Bytes → UInt16 → AnyConfiguration} (h : 58 ∉ own.1) :
    setInfo invalid store (printAddr own) = .ok (store own.1 own.2) := by
  unfold setInfo printAddr
  rw [getline_append h]
  simp only [getline_decimal, stoi_decimal, ofInt_port]

theorem not_mem_printAddr {ch : UInt8} (hhost : ch ∉ own.1) (hcolon : ch ≠ 58) (hdigit : isDigit ch = false) :
    ch ∉ printAddr own := by
  unfold printAddr
  intro hmem
  rcases List.mem_append.mp hmem with hbefore | hbehind
  · exact hhost hbefore
  · rcases List.mem_cons.mp hbehind with heq | hnumber
    · exact hcolon heq
    · rw [isDigit_of_mem_decimal _ ch hnumber] at hdigit
      cases hdigit

-- The addresses on a command line come back.
theorem parseAddrs_print {addrs : List (Bytes × UInt16)} (h : ∀ addr ∈ addrs, Description.PlainHost addr.1) :
    parseAddrs (addrs.flatMap fun addr => printAddr addr ++ [59]) = some addrs := by
  have hsplit : split 59 (addrs.flatMap fun addr => printAddr addr ++ [59]) = addrs.map printAddr := by
    have hplain : ∀ word ∈ addrs.map printAddr, 59 ∉ word := by
      intro word hword
      obtain ⟨addr, haddr, rfl⟩ := List.mem_map.mp hword
      exact not_mem_printAddr (h addr haddr).2.1 (by decide) (by decide)
    have hwords := split_flatMap hplain
    rw [List.flatMap_map] at hwords
    exact hwords
  unfold parseAddrs
  rw [hsplit]
  clear hsplit
  induction addrs with
  | nil => rfl
  | cons addr addrs ih =>
      have hrest := ih fun other hother => h other (List.mem_cons_of_mem addr hother)
      rw [List.map_cons, List.mapM_cons, splitAddr_print (h addr List.mem_cons_self).1, hrest]
      rfl

-- A line of the file sets its field.
theorem readLine_line {op : String} {ret : Option AnyConfiguration}
    (hname : (bytes op).all (fun ch => !isBlank ch) = true)
    (hcomment : isComment (bytes op) = false) (hshort : (bytes op).length < 2 ^ 31) :
    readLine fresh ret (Description.line op value) = setOption fresh ret (bytes op) value := by
  have hall : ∀ ch ∈ bytes op, (!isBlank ch) = true := List.all_eq_true.mp hname
  have hop : ∀ ch ∈ bytes op, isBlank ch = false := by
    intro ch hch
    simpa using hall ch hch
  have hline : isComment (Description.line op value) = false := by
    unfold Description.line
    cases hbytes : bytes op with
    | nil => simp [hbytes, isComment] at hcomment
    | cons ch rest => simpa [hbytes, isComment] using hcomment
  have hoption : getOption (Description.line op value) = some (bytes op, value) :=
    getOption_eq_some_iff.mpr ⟨hop, 32, rfl, rfl⟩
  have htake : (Description.line op value).takeWhile (fun ch => !isBlank ch) = bytes op := by
    unfold Description.line
    rw [List.takeWhile_append_of_pos hall, List.takeWhile_cons_of_neg (by decide), List.append_nil]
  unfold readLine
  rw [if_neg (by simp [hline]), htake, if_neg (by omega), hoption]

theorem readLine_mode_coordinator : readLine fresh none (Description.line "mode" (bytes "coordinator")) =
    .ok (some (.coordinator (.new fresh))) := by
  rw [readLine_line (by decide) (by decide) (by decide)]
  simp [setOption]

theorem readLine_mode_participant : readLine fresh none (Description.line "mode" (bytes "participant")) =
    .ok (some (.participant (.new fresh))) := by
  have hne : bytes "participant" ≠ bytes "coordinator" := by decide
  rw [readLine_line (by decide) (by decide) (by decide)]
  simp [setOption, hne]

theorem foldlM_cons_ok {ret next : Option AnyConfiguration} {line : Bytes} (h : readLine fresh ret line = .ok next)
    (lines : List Bytes) : (line :: lines).foldlM (readLine fresh) ret = lines.foldlM (readLine fresh) next := by
  rw [List.foldlM_cons, h]
  rfl

theorem readLine_coordinatorInfo (conf : AnyConfiguration) (h : 58 ∉ own.1) :
    readLine fresh (some conf) (Description.line "coordinator_info" (printAddr own)) = .ok (some (match conf with
      | .coordinator conf => .coordinator { conf with addr := own.1, port := own.2 }
      | .participant conf => .participant { conf with coordinatorAddr := own.1, coordinatorPort := own.2 })) := by
  rw [readLine_line (by decide) (by decide) (by decide)]
  cases conf with
  | coordinator conf => simp only [setOption, setField, if_true, coordinatorInfo, setInfo_print h, Except.map]
  | participant conf => simp only [setOption, setField, if_true, coordinatorInfo, setInfo_print h, Except.map]

theorem readLine_participantInfo (conf : AnyConfiguration) (h : 58 ∉ own.1) :
    readLine fresh (some conf) (Description.line "participant_info" (printAddr own)) = .ok (some (match conf with
      | .coordinator conf => .coordinator { conf with
          participantAddrs := conf.participantAddrs ++ [own.1]
          participantPorts := conf.participantPorts ++ [own.2] }
      | .participant conf => .participant { conf with addr := own.1, port := own.2 })) := by
  have hne : bytes "participant_info" ≠ bytes "coordinator_info" := by decide
  rw [readLine_line (by decide) (by decide) (by decide)]
  cases conf with
  | coordinator conf =>
      simp only [setOption, setField, if_neg hne, if_true, participantInfo, setInfo_print h, Except.map]
  | participant conf =>
      simp only [setOption, setField, if_neg hne, if_true, participantInfo, setInfo_print h, Except.map]

theorem readLines_participants {conf : CoordinatorConfiguration} {addrs : List (Bytes × UInt16)}
    (h : ∀ addr ∈ addrs, 58 ∉ addr.1) :
    (addrs.map fun addr => Description.line "participant_info" (printAddr addr)).foldlM (readLine fresh)
        (some (.coordinator conf)) =
      .ok (some (.coordinator { conf with
        participantAddrs := conf.participantAddrs ++ addrs.map Prod.fst
        participantPorts := conf.participantPorts ++ addrs.map Prod.snd })) := by
  induction addrs generalizing conf with
  | nil => simp [pure, Except.pure]
  | cons addr addrs ih =>
      let next : CoordinatorConfiguration := { conf with
        participantAddrs := conf.participantAddrs ++ [addr.1]
        participantPorts := conf.participantPorts ++ [addr.2] }
      have hrest := @ih next fun other hother => h other (List.mem_cons_of_mem addr hother)
      rw [List.map_cons, List.foldlM_cons, readLine_participantInfo _ (h addr List.mem_cons_self)]
      simp only [next, List.append_assoc, List.singleton_append] at hrest
      exact hrest

end Lines

namespace Description

-- The lines of the file.
theorem split_file {lines : List Bytes} (h : ∀ line ∈ lines, 10 ∉ line) :
    split 10 (lines.flatMap fun line => line ++ [10]) = lines := split_flatMap h

theorem not_mem_line {op : String} {value : Bytes} (hop : 10 ∉ bytes op) (hvalue : 10 ∉ value) : 10 ∉ line op value := by
  unfold line
  simp [hop, hvalue]

theorem getConf_file {description : Description} (h : description.Plain) (fresh : UInt16) :
    getConf fresh (some description.file) = .ok (some (match description with
      | coordinator own participants => .coordinator { CoordinatorConfiguration.new fresh with
          addr := own.1
          port := own.2
          participantAddrs := participants.map Prod.fst
          participantPorts := participants.map Prod.snd }
      | participant own server => .participant { ParticipantConfiguration.new fresh with
          addr := own.1
          port := own.2
          coordinatorAddr := server.1
          coordinatorPort := server.2 })) := by
  have hplain : ∀ addr : Bytes × UInt16, PlainHost addr.1 → 10 ∉ printAddr addr := fun addr haddr =>
    not_mem_printAddr haddr.2.2 (by decide) (by decide)
  have hline : ∀ op (addr : Bytes × UInt16), 10 ∉ bytes op → PlainHost addr.1 → 10 ∉ line op (printAddr addr) :=
    fun op addr hop haddr => not_mem_line hop (hplain addr haddr)
  have hcoordinator : 10 ∉ line "mode" (bytes "coordinator") := by decide
  have hparticipant : 10 ∉ line "mode" (bytes "participant") := by decide
  cases description with
  | coordinator own participants =>
      obtain ⟨hown, -, -, hall⟩ := h
      have hlines : ∀ text ∈ line "mode" (bytes "coordinator") :: line "coordinator_info" (printAddr own) ::
          participants.map (fun addr => line "participant_info" (printAddr addr)), 10 ∉ text := by
        intro text htext
        rcases List.mem_cons.mp htext with rfl | hbehind
        · exact hcoordinator
        rcases List.mem_cons.mp hbehind with rfl | hrest
        · exact hline _ own (by decide) hown
        · obtain ⟨addr, haddr, rfl⟩ := List.mem_map.mp hrest
          exact hline _ addr (by decide) (hall addr haddr)
      unfold getConf file
      simp only [split_file hlines]
      rw [foldlM_cons_ok readLine_mode_coordinator, foldlM_cons_ok (readLine_coordinatorInfo _ hown.1),
        readLines_participants fun addr haddr => (hall addr haddr).1]
      rfl
  | participant own server =>
      obtain ⟨hown, -, hserver, -⟩ := h
      have hlines : ∀ text ∈ [line "mode" (bytes "participant"), line "participant_info" (printAddr own),
          line "coordinator_info" (printAddr server)], 10 ∉ text := by
        intro text htext
        rcases List.mem_cons.mp htext with rfl | hbehind
        · exact hparticipant
        rcases List.mem_cons.mp hbehind with rfl | hrest
        · exact hline _ own (by decide) hown
        · rw [List.mem_singleton.mp hrest]
          exact hline _ server (by decide) hserver
      unfold getConf file
      simp only [split_file hlines]
      rw [foldlM_cons_ok readLine_mode_participant, foldlM_cons_ok (readLine_participantInfo _ hown.1),
        foldlM_cons_ok (readLine_coordinatorInfo _ hserver.1)]
      rfl

end Description

-- A server is the same whether the file or the command line describes it.
theorem start_described {description : Description} (h : description.Plain) (fresh : UInt16) :
    (getConf fresh (some description.file)).bind (start fresh Flags.none) = .ok description.configuration ∧
      start fresh description.flags none = .ok description.configuration := by
  have hnone : parseAddrs [] = some [] := rfl
  have hempty : ∀ host : Bytes, (if host = [] then [] else host) = host := by
    intro host
    split
    · next heq => exact heq.symm
    · rfl
  rw [Description.getConf_file h]
  cases description with
  | coordinator own participants =>
      obtain ⟨-, hport, hsome, hall⟩ := h
      have hparse := parseAddrs_print hall
      obtain ⟨addr, addrs, rfl⟩ := List.exists_cons_of_ne_nil hsome
      constructor
      · simp [Except.bind, start, startCoordinator, Flags.override, Flags.none, hnone, CoordinatorConfiguration.assign,
          CoordinatorConfiguration.moved, CoordinatorConfiguration.new, Configuration.new, Description.configuration]
      · simp only [Description.flags, start, if_true, startCoordinator, hparse]
        simp [Flags.override, hport, hempty, CoordinatorConfiguration.moved, CoordinatorConfiguration.new,
          Configuration.new, Description.configuration]
  | participant own server =>
      obtain ⟨-, hport, hserver, hnamed⟩ := h
      have hne : bytes "participant" ≠ bytes "coordinator" := by decide
      have hmode : ([] : Bytes) ≠ bytes "coordinator" := by decide
      have hhost : bytes "127.0.0.1" ≠ [] := by decide
      have hparse : parseAddrs (printAddr server) = some [server] := by
        have hsemi : 59 ∉ printAddr server := not_mem_printAddr hserver.2.1 (by decide) (by decide)
        have hprint : printAddr server ≠ [] := by simp [printAddr]
        unfold parseAddrs
        rw [split_of_not_mem hsemi, if_neg hprint, List.mapM_cons, splitAddr_print hserver.1]
        rfl
      constructor
      · simp [Except.bind, start, startParticipant, Flags.override, Flags.none, hnone, hmode, hnamed,
          ParticipantConfiguration.assign, ParticipantConfiguration.moved, ParticipantConfiguration.new,
          Configuration.new, Description.configuration]
      · simp only [Description.flags, start, if_neg hne, startParticipant, hparse]
        simp [Flags.override, hport, hempty, ParticipantConfiguration.moved, ParticipantConfiguration.new,
          Configuration.new, Description.configuration, hhost]

-- The example in the help text of the program.
theorem start_described_example :
    start 0 (Description.coordinator (bytes "127.0.0.1", 8080) [(bytes "127.0.0.1", 8001), (bytes "127.0.0.1", 8002)]).flags
      none = .ok (.coordinator ⟨⟨bytes "127.0.0.1", 8080, 2⟩, [bytes "127.0.0.1", bytes "127.0.0.1"], [8001, 8002]⟩) := by
  have hhost : Description.PlainHost (bytes "127.0.0.1") := by
    unfold Description.PlainHost
    decide
  have hplain : (Description.coordinator (bytes "127.0.0.1", 8080)
      [(bytes "127.0.0.1", 8001), (bytes "127.0.0.1", 8002)]).Plain := by
    refine ⟨hhost, by decide, by simp, ?_⟩
    intro addr haddr
    simp only [List.mem_cons, List.not_mem_nil, or_false] at haddr
    rcases haddr with rfl | rfl
    · exact hhost
    · exact hhost
  exact (start_described hplain 0).2

end CloudLabs.Cdb
