import CloudLabs.Cdb.Configuration
import Mathlib.Data.List.Induction
import Mathlib.Data.List.TakeWhile

namespace CloudLabs.Cdb

open CloudLabs.Parsing
open ConfigurationManager

-- What a line says, by itself: the number a text stands for, and the two parts of an
-- address, around the first colon.
def number (text : Bytes) : Option Int := (readNumeral text).map Numeral.value

def host (value : Bytes) : Bytes := value.takeWhile (· ≠ 58)

def port (value : Bytes) : Option Int := number (value.dropWhile (· ≠ 58)).tail

-- The fields that lines give, in their order, each with the text behind its name.
def fieldsOf (lines : List Bytes) : List (Bytes × Bytes) :=
  (lines.filter fun line => !isComment line).filterMap getOption

def fields (text : Bytes) : List (Bytes × Bytes) := fieldsOf (split 10 text)

def given (name : String) (fields : List (Bytes × Bytes)) : List Bytes :=
  (fields.filter fun field => field.1 = bytes name).map Prod.snd

-- The last value, if there is one, is as it should be.
def Last (values : List Bytes) (property : Bytes → Prop) : Prop :=
  ∀ value, values.getLast? = some value → property value

-- A port is below 2^16 and a number of workers below 2^64, and neither is negative.
def InRange (field : Bytes × Bytes) : Prop :=
  (field.1 = bytes "coordinator_info" ∨ field.1 = bytes "participant_info" →
    ∃ number, port field.2 = some number ∧ 0 ≤ number ∧ number < 2 ^ 16) ∧
  (field.1 = bytes "num_workers" → ∃ count, number field.2 = some count ∧ 0 ≤ count ∧ count < 2 ^ 64)

section Carries

variable (flags : Flags) (fields : List (Bytes × Bytes))

-- The address and the port that a server listens on come from the last line for them,
-- unless the command line gives others.
def Listens (name : String) (conf : Configuration) : Prop :=
  Last (given name fields) fun value =>
    (flags.ip = [] → conf.addr = host value) ∧ (flags.port = 0 → port value = some (conf.port.toNat : Int))

def CoordinatorDescribed (conf : CoordinatorConfiguration) : Prop :=
  Listens flags fields "coordinator_info" conf.toConfiguration ∧
    (flags.participantAddrs = [] →
      conf.participantAddrs = (given "participant_info" fields).map host ∧
      conf.participantPorts.map (fun number => some (number.toNat : Int)) =
        (given "participant_info" fields).map port)

def ParticipantDescribed (conf : ParticipantConfiguration) : Prop :=
  Listens flags fields "participant_info" conf.toConfiguration ∧
    Last (given "coordinator_info" fields) (fun value => flags.coordinatorAddr = [] →
      conf.coordinatorAddr = host value ∧ port value = some (conf.coordinatorPort.toNat : Int)) ∧
    Last (given "storage_path" fields) fun value => conf.storagePath = value

def Staffed (conf : Configuration) : Prop :=
  Last (given "num_workers" fields) fun value => number value = some (conf.numWorkers.toNat : Int)

-- Every field has the value that the last line for it gives.
def Carries : AnyConfiguration → Prop
  | .coordinator conf => CoordinatorDescribed flags fields conf ∧ Staffed fields conf.toConfiguration
  | .participant conf => ParticipantDescribed flags fields conf ∧ Staffed fields conf.toConfiguration

end Carries

-- No number of an accepted file is out of range, and a server started with the file, under
-- whatever command line, holds what the file says.
def Unchanged (text : Bytes) (conf : Option AnyConfiguration) : Prop :=
  (∀ field ∈ fields text, InRange field) ∧
    ∀ fresh flags started, start fresh flags conf = .ok started → Carries flags (fields text) started

-- A command line that gives nothing.
def Flags.none : Flags := ⟨[], [], 0, [], []⟩

section Given

variable {value : Bytes} {done : List (Bytes × Bytes)} {property : Bytes → Prop}

theorem bytes_inj {name name' : String} : bytes name = bytes name' ↔ name = name' := by
  constructor
  · intro h
    unfold bytes at h
    apply String.toByteArray_inj.mp
    apply ByteArray.ext
    apply Array.toList_inj.mp
    exact h
  · intro h
    rw [h]

theorem given_concat (name op : String) : given name (done ++ [(bytes op, value)]) =
    if op = name then given name done ++ [value] else given name done := by
  unfold given
  by_cases h : op = name
  · simp [h]
  · simp [bytes_inj, h]

theorem given_mode {name : String} (h : name ≠ "mode") : given name ([] ++ [(bytes "mode", value)]) = [] := by
  rw [given_concat, if_neg h.symm]
  rfl

@[simp] theorem last_nil : Last [] property := by
  intro value h
  cases h

@[simp] theorem last_concat {values : List Bytes} : Last (values ++ [value]) property ↔ property value := by
  simp [Last]

theorem Last.imp {values : List Bytes} {other : Bytes → Prop} (h : Last values property)
    (himp : ∀ value, property value → other value) : Last values other :=
  fun value hvalue => himp value (h value hvalue)

end Given

section Numbers

theorem toNat_ofInt_port {op value : Bytes} {n : Int} (hrange : InRange (op, value))
    (hop : op = bytes "coordinator_info" ∨ op = bytes "participant_info") (h : port value = some n) :
    ((UInt16.ofInt n).toNat : Int) = n := by
  obtain ⟨number, hnumber, hlow, hhigh⟩ := hrange.1 hop
  rw [h, Option.some.injEq] at hnumber
  simp only [UInt16.ofInt, UInt16.toNat_ofNat']
  omega

theorem toNat_ofInt_count {op value : Bytes} {n : Int} (hrange : InRange (op, value))
    (hop : op = bytes "num_workers") (h : number value = some n) : ((UInt64.ofInt n).toNat : Int) = n := by
  obtain ⟨count, hcount, hlow, hhigh⟩ := hrange.2 hop
  rw [h, Option.some.injEq] at hcount
  simp only [UInt64.ofInt, UInt64.toNat_ofNat']
  omega

theorem number_of_stoi {text : Bytes} {result : Int} (h : stoi text = some result) :
    number text = some result := by
  unfold stoi at h
  unfold number
  cases hread : readNumeral text with
  | none => rw [hread] at h; cases h
  | some numeral =>
      rw [hread] at h
      dsimp only at h
      split at h
      · exact h
      · cases h

theorem number_of_stoul {text : Bytes} {result : UInt64} (h : stoul text = some result) :
    ∃ count, number text = some count ∧ result = UInt64.ofInt count := by
  unfold stoul at h
  unfold number
  cases hread : readNumeral text with
  | none => rw [hread] at h; cases h
  | some numeral =>
      rw [hread] at h
      dsimp only at h
      split at h
      · cases h
        exact ⟨numeral.value, rfl, rfl⟩
      · cases h

end Numbers

section Lines

-- A line with a field is its name, a blank and the value.
theorem getOption_eq_some_iff {line op value : Bytes} : getOption line = some (op, value) ↔
    (∀ ch ∈ op, isBlank ch = false) ∧ ∃ blank, isBlank blank ∧ line = op ++ blank :: value := by
  constructor
  · intro h
    have hline : line.takeWhile (fun ch => !isBlank ch) ++ line.dropWhile (fun ch => !isBlank ch) = line :=
      List.takeWhile_append_dropWhile
    dsimp only [getOption] at h
    split at h
    · cases h
    · next hlength =>
        have hop : line.takeWhile (fun ch => !isBlank ch) = op := by cases h; rfl
        have hvalue : line.drop (op.length + 1) = value := by rw [← hop]; cases h; rfl
        rw [hop] at hlength hline
        refine ⟨?_, ?_⟩
        · intro ch hch
          rw [← hop] at hch
          simpa using List.mem_takeWhile_imp hch
        · cases hrest : line.dropWhile fun ch => !isBlank ch with
          | nil =>
              rw [hrest, List.append_nil] at hline
              exact absurd (congrArg List.length hline) hlength
          | cons blank rest =>
              have hblank := List.head?_dropWhile_not (fun ch => !isBlank ch) line
              rw [hrest] at hblank hline
              refine ⟨blank, by simpa using hblank, ?_⟩
              rw [← hvalue, ← hline]
              simp
  · rintro ⟨hop, blank, hblank, rfl⟩
    have htake : (op ++ blank :: value).takeWhile (fun ch => !isBlank ch) = op := by
      rw [List.takeWhile_append_of_pos fun ch hch => by simp [hop ch hch]]
      simp [hblank]
    dsimp only [getOption]
    rw [htake, if_neg]
    · simp
    · simp

end Lines

section Setters

variable {op value : Bytes} {conf' : AnyConfiguration}

theorem getline_eq_some {delim : UInt8} {stream word rest : Bytes} (h : getline delim stream = some (word, rest)) :
    word = stream.takeWhile (· ≠ delim) ∧ rest = (stream.dropWhile (· ≠ delim)).tail := by
  unfold getline at h
  split at h
  · cases h
  · cases h
    exact ⟨rfl, rfl⟩

-- A value is part of a line, so the second getline takes all that follows the colon.
theorem setInfo_eq_ok {invalid : String} {store : Bytes → UInt16 → AnyConfiguration} (hline : 10 ∉ value)
    (h : setInfo invalid store value = .ok conf') :
    ∃ number, port value = some number ∧ conf' = store (host value) (UInt16.ofInt number) := by
  have hrest : ∀ ch ∈ (value.dropWhile (· ≠ 58)).tail, ch ≠ 10 := by
    intro ch hch heq
    apply hline
    rw [← heq]
    exact (List.dropWhile_suffix _).subset (List.mem_of_mem_tail hch)
  unfold setInfo at h
  split at h
  · cases h
  · next ip stream hip =>
      obtain ⟨rfl, rfl⟩ := getline_eq_some hip
      split at h
      · cases h
      · next text rest htext =>
          obtain ⟨rfl, rfl⟩ := getline_eq_some htext
          split at h
          · cases h
          · next number hnumber =>
              cases h
              have hwhole := List.takeWhile_eq_self_iff.mpr fun ch hch => decide_eq_true (hrest ch hch)
              rw [hwhole] at hnumber
              exact ⟨number, number_of_stoi hnumber, rfl⟩

-- A field is set by the function that the map has for it.
theorem setField_cases {conf : AnyConfiguration} (h : setField conf op value = .ok conf') :
    (op = bytes "coordinator_info" ∧ coordinatorInfo conf value = .ok conf') ∨
      (op = bytes "participant_info" ∧ participantInfo conf value = .ok conf') ∨
      (op = bytes "num_workers" ∧ numWorkers conf value = .ok conf') ∨
      (op = bytes "storage_path" ∧ storagePath conf value = .ok conf') := by
  unfold setField at h
  by_cases hcoordinator : op = bytes "coordinator_info"
  · rw [if_pos hcoordinator] at h
    exact .inl ⟨hcoordinator, h⟩
  rw [if_neg hcoordinator] at h
  by_cases hparticipant : op = bytes "participant_info"
  · rw [if_pos hparticipant] at h
    exact .inr (.inl ⟨hparticipant, h⟩)
  rw [if_neg hparticipant] at h
  by_cases hworkers : op = bytes "num_workers"
  · rw [if_pos hworkers] at h
    exact .inr (.inr (.inl ⟨hworkers, h⟩))
  rw [if_neg hworkers] at h
  by_cases hstorage : op = bytes "storage_path"
  · rw [if_pos hstorage] at h
    exact .inr (.inr (.inr ⟨hstorage, h⟩))
  rw [if_neg hstorage] at h
  cases h

theorem exists_of_numWorkers {conf : AnyConfiguration} (h : numWorkers conf value = .ok conf') :
    ∃ count, number value = some count ∧ stoul value = some (UInt64.ofInt count) := by
  unfold numWorkers at h
  cases hresult : stoul value with
  | none =>
      rw [hresult] at h
      cases h
  | some result =>
      obtain ⟨count, hcount, rfl⟩ := number_of_stoul hresult
      exact ⟨count, hcount, rfl⟩

-- What a line can do to the configuration of a coordinator.
theorem setField_coordinator {conf : CoordinatorConfiguration} (hline : 10 ∉ value)
    (h : setField (.coordinator conf) op value = .ok conf') : ∃ after, conf' = .coordinator after ∧
      ((op = bytes "coordinator_info" ∧ ∃ number, port value = some number ∧
          after = { conf with addr := host value, port := UInt16.ofInt number }) ∨
        (op = bytes "participant_info" ∧ ∃ number, port value = some number ∧
          after = { conf with
            participantAddrs := conf.participantAddrs ++ [host value],
            participantPorts := conf.participantPorts ++ [UInt16.ofInt number] }) ∨
        (op = bytes "num_workers" ∧ ∃ count, number value = some count ∧
          after = { conf with numWorkers := UInt64.ofInt count })) := by
  obtain ⟨hop, h⟩ | ⟨hop, h⟩ | ⟨hop, h⟩ | ⟨-, h⟩ := setField_cases h
  · unfold coordinatorInfo at h
    obtain ⟨number, hnumber, rfl⟩ := setInfo_eq_ok hline h
    exact ⟨_, rfl, .inl ⟨hop, number, hnumber, rfl⟩⟩
  · unfold participantInfo at h
    obtain ⟨number, hnumber, rfl⟩ := setInfo_eq_ok hline h
    exact ⟨_, rfl, .inr (.inl ⟨hop, number, hnumber, rfl⟩)⟩
  · obtain ⟨count, hcount, hstoul⟩ := exists_of_numWorkers h
    simp only [numWorkers, hstoul] at h
    cases h
    exact ⟨_, rfl, .inr (.inr ⟨hop, count, hcount, rfl⟩)⟩
  · cases h

-- And to that of a participant.
theorem setField_participant {conf : ParticipantConfiguration} (hline : 10 ∉ value)
    (h : setField (.participant conf) op value = .ok conf') : ∃ after, conf' = .participant after ∧
      ((op = bytes "coordinator_info" ∧ ∃ number, port value = some number ∧
          after = { conf with coordinatorAddr := host value, coordinatorPort := UInt16.ofInt number }) ∨
        (op = bytes "participant_info" ∧ ∃ number, port value = some number ∧
          after = { conf with addr := host value, port := UInt16.ofInt number }) ∨
        (op = bytes "num_workers" ∧ ∃ count, number value = some count ∧
          after = { conf with numWorkers := UInt64.ofInt count }) ∨
        (op = bytes "storage_path" ∧ after = { conf with storagePath := value })) := by
  obtain ⟨hop, h⟩ | ⟨hop, h⟩ | ⟨hop, h⟩ | ⟨hop, h⟩ := setField_cases h
  · unfold coordinatorInfo at h
    obtain ⟨number, hnumber, rfl⟩ := setInfo_eq_ok hline h
    exact ⟨_, rfl, .inl ⟨hop, number, hnumber, rfl⟩⟩
  · unfold participantInfo at h
    obtain ⟨number, hnumber, rfl⟩ := setInfo_eq_ok hline h
    exact ⟨_, rfl, .inr (.inl ⟨hop, number, hnumber, rfl⟩)⟩
  · obtain ⟨count, hcount, hstoul⟩ := exists_of_numWorkers h
    simp only [numWorkers, hstoul] at h
    cases h
    exact ⟨_, rfl, .inr (.inr (.inl ⟨hop, count, hcount, rfl⟩))⟩
  · cases h
    exact ⟨_, rfl, .inr (.inr (.inr ⟨hop, rfl⟩))⟩

end Setters

section Reading

variable {done : List (Bytes × Bytes)} {op value : Bytes}

-- What the file has given so far, and nothing else, is in the configuration.
def Described (done : List (Bytes × Bytes)) : Option AnyConfiguration → Prop
  | none => done = []
  | some conf => Carries .none done conf

-- A new configuration says nothing that a file would have to give.
theorem carries_new_coordinator {flags : Flags} {fresh : UInt16}
    (h : ∀ name, name ≠ "mode" → given name done = []) :
    Carries flags done (.coordinator (.new fresh)) := by
  simp [Carries, CoordinatorDescribed, Listens, Staffed, h, CoordinatorConfiguration.new]

theorem carries_new_participant {flags : Flags} {fresh : UInt16}
    (h : ∀ name, name ≠ "mode" → given name done = []) :
    Carries flags done (.participant (.new fresh)) := by
  simp [Carries, ParticipantDescribed, Listens, Staffed, h]

theorem carries_setField {conf conf' : AnyConfiguration} (hline : 10 ∉ value) (hrange : InRange (op, value))
    (h : setField conf op value = .ok conf') (hconf : Carries .none done conf) :
    Carries .none (done ++ [(op, value)]) conf' := by
  cases conf with
  | coordinator conf =>
      obtain ⟨⟨hlistens, hparticipants⟩, hstaffed⟩ := hconf
      obtain ⟨after, rfl, hafter⟩ := setField_coordinator hline h
      rcases hafter with ⟨rfl, n, hn, rfl⟩ | ⟨rfl, n, hn, rfl⟩ | ⟨rfl, n, hn, rfl⟩
      · have hport := toNat_ofInt_port hrange (.inl rfl) hn
        refine ⟨⟨?_, ?_⟩, ?_⟩
        · simp [Listens, given_concat, hn, hport]
        · simpa [given_concat] using hparticipants
        · simpa [Staffed, given_concat] using hstaffed
      · have hport := toNat_ofInt_port hrange (.inr rfl) hn
        refine ⟨⟨?_, ?_⟩, ?_⟩
        · simpa [Listens, given_concat] using hlistens
        · intro hflags
          obtain ⟨haddrs, hports⟩ := hparticipants hflags
          simp [given_concat, haddrs, hports, hn, hport]
        · simpa [Staffed, given_concat] using hstaffed
      · have hcount := toNat_ofInt_count hrange rfl hn
        refine ⟨⟨?_, ?_⟩, ?_⟩
        · simpa [Listens, given_concat] using hlistens
        · simpa [given_concat] using hparticipants
        · simp [Staffed, given_concat, hn, hcount]
  | participant conf =>
      obtain ⟨⟨hlistens, hcoordinator, hstorage⟩, hstaffed⟩ := hconf
      obtain ⟨after, rfl, hafter⟩ := setField_participant hline h
      rcases hafter with ⟨rfl, n, hn, rfl⟩ | ⟨rfl, n, hn, rfl⟩ | ⟨rfl, n, hn, rfl⟩ | ⟨rfl, rfl⟩
      · have hport := toNat_ofInt_port hrange (.inl rfl) hn
        refine ⟨⟨?_, ?_, ?_⟩, ?_⟩
        · simpa [Listens, given_concat] using hlistens
        · simp [given_concat, hn, hport]
        · simpa [given_concat] using hstorage
        · simpa [Staffed, given_concat] using hstaffed
      · have hport := toNat_ofInt_port hrange (.inr rfl) hn
        refine ⟨⟨?_, ?_, ?_⟩, ?_⟩
        · simp [Listens, given_concat, hn, hport]
        · simpa [given_concat] using hcoordinator
        · simpa [given_concat] using hstorage
        · simpa [Staffed, given_concat] using hstaffed
      · have hcount := toNat_ofInt_count hrange rfl hn
        refine ⟨⟨?_, ?_, ?_⟩, ?_⟩
        · simpa [Listens, given_concat] using hlistens
        · simpa [given_concat] using hcoordinator
        · simpa [given_concat] using hstorage
        · simp [Staffed, given_concat, hn, hcount]
      · refine ⟨⟨?_, ?_, ?_⟩, ?_⟩
        · simpa [Listens, given_concat] using hlistens
        · simpa [given_concat] using hcoordinator
        · simp [given_concat]
        · simpa [Staffed, given_concat] using hstaffed

theorem described_setOption {fresh : UInt16} {ret ret' : Option AnyConfiguration} (hline : 10 ∉ value)
    (hrange : InRange (op, value)) (h : setOption fresh ret op value = .ok ret') (hret : Described done ret) :
    Described (done ++ [(op, value)]) ret' := by
  unfold setOption at h
  cases ret with
  | some conf =>
      dsimp only at h
      cases hset : setField conf op value with
      | error refusal =>
          rw [hset] at h
          cases h
      | ok conf' =>
          rw [hset] at h
          cases h
          exact carries_setField hline hrange hset hret
  | none =>
      -- The mode is no field, and nothing else has been given.
      have hdone : done = [] := hret
      subst hdone
      dsimp only at h
      split at h
      · next hmode =>
          cases h
          obtain ⟨rfl, -⟩ := hmode
          exact carries_new_coordinator fun name hname => given_mode hname
      · split at h
        · next hmode =>
            cases h
            obtain ⟨rfl, -⟩ := hmode
            exact carries_new_participant fun name hname => given_mode hname
        · cases h

theorem readLine_cases {fresh : UInt16} {ret ret' : Option AnyConfiguration} {line : Bytes}
    (h : readLine fresh ret line = .ok ret') : isComment line = true ∧ ret' = ret ∨
      isComment line = false ∧ ∃ op value, getOption line = some (op, value) ∧
        setOption fresh ret op value = .ok ret' := by
  unfold readLine at h
  split at h
  · next hcomment =>
      cases h
      exact .inl ⟨hcomment, rfl⟩
  · next hcomment =>
      split at h
      · cases h
      · split at h
        · cases h
        · next op value hoption =>
            exact .inr ⟨Bool.not_eq_true _ ▸ hcomment, op, value, hoption, h⟩

theorem fieldsOf_comment {lines : List Bytes} {line : Bytes} (h : isComment line = true) :
    fieldsOf (lines ++ [line]) = fieldsOf lines := by
  simp [fieldsOf, h]

theorem fieldsOf_option {lines : List Bytes} {line : Bytes} {field : Bytes × Bytes}
    (h : isComment line = false) (hoption : getOption line = some field) :
    fieldsOf (lines ++ [line]) = fieldsOf lines ++ [field] := by
  simp [fieldsOf, h, hoption]

-- Along the file, what has been read is what the configuration holds.
theorem described_foldlM {fresh : UInt16} {ret : Option AnyConfiguration} {lines : List Bytes}
    (hlines : ∀ line ∈ lines, 10 ∉ line) (hrange : ∀ field ∈ fieldsOf lines, InRange field)
    (h : lines.foldlM (readLine fresh) none = .ok ret) : Described (fieldsOf lines) ret := by
  induction lines using List.reverseRecOn generalizing ret with
  | nil =>
      cases h
      rfl
  | append_singleton lines line ih =>
      rw [List.foldlM_append] at h
      cases hread : lines.foldlM (readLine fresh) none with
      | error refusal =>
          rw [hread] at h
          cases h
      | ok before =>
          rw [hread] at h
          simp only [List.foldlM_cons, List.foldlM_nil, bind_pure] at h
          have hline : readLine fresh before line = .ok ret := h
          have hbefore := fun line hmem => hlines line (List.mem_append_left _ hmem)
          rcases readLine_cases hline with ⟨hcomment, rfl⟩ | ⟨hcomment, op, value, hoption, hset⟩
          · rw [fieldsOf_comment hcomment] at hrange ⊢
            exact ih hbefore hrange hread
          · rw [fieldsOf_option hcomment hoption] at hrange ⊢
            obtain ⟨-, blank, -, heq⟩ := getOption_eq_some_iff.mp hoption
            have hvalue : 10 ∉ value := by
              intro hmem
              apply hlines line (by simp)
              rw [heq]
              simp [hmem]
            have hdone := ih hbefore (fun field hmem => hrange field (List.mem_append_left _ hmem)) hread
            exact described_setOption hvalue (hrange (op, value) (by simp)) hset hdone

-- get_conf reads a file as it is meant.
theorem described_getConf {fresh : UInt16} {text : Bytes} {conf : Option AnyConfiguration}
    (h : getConf fresh (some text) = .ok conf) (hrange : ∀ field ∈ fields text, InRange field) :
    Described (fields text) conf :=
  described_foldlM (fun _ hline => not_mem_of_mem_split hline) hrange h

end Reading

section Starting

variable {fresh : UInt16} {flags : Flags} {started : AnyConfiguration}

-- Whatever the configuration says, the server gets two workers.
theorem startCoordinator_eq_ok {conf : CoordinatorConfiguration}
    (h : startCoordinator fresh flags conf = .ok started) : ∃ held, started = .coordinator held ∧
      held.toConfiguration = { flags.override conf.toConfiguration with numWorkers := 2 } ∧
      (flags.participantAddrs = [] → held.participantAddrs = conf.participantAddrs ∧
        held.participantPorts = conf.participantPorts) := by
  dsimp only [startCoordinator] at h
  split at h
  · cases h
  · split at h
    · cases h
    · cases h
      exact ⟨_, rfl, rfl, fun _ => ⟨rfl, rfl⟩⟩
    · next addrs hne haddrs =>
        cases h
        refine ⟨_, rfl, rfl, ?_⟩
        intro hempty
        rw [hempty] at haddrs
        exact absurd (Option.some.inj haddrs).symm hne

theorem startParticipant_eq_ok {conf : ParticipantConfiguration}
    (h : startParticipant fresh flags conf = .ok started) : ∃ held, started = .participant held ∧
      held.toConfiguration = { flags.override conf.toConfiguration with numWorkers := 2 } ∧
      held.storagePath = conf.storagePath ∧
      (flags.coordinatorAddr = [] → held.coordinatorAddr = conf.coordinatorAddr ∧
        held.coordinatorPort = conf.coordinatorPort) := by
  dsimp only [startParticipant] at h
  split at h
  · cases h
  · split at h
    · cases h
    · cases h
      exact ⟨_, rfl, rfl, rfl, fun _ => ⟨rfl, rfl⟩⟩
    · next ip port others haddrs =>
        cases h
        refine ⟨_, rfl, rfl, rfl, ?_⟩
        intro hempty
        rw [hempty] at haddrs
        cases haddrs

theorem listens_override {fields : List (Bytes × Bytes)} {name : String} {conf : Configuration} {count : UInt64}
    (h : Listens .none fields name conf) :
    Listens flags fields name { flags.override conf with numWorkers := count } := by
  refine Last.imp h ?_
  rintro value ⟨haddr, hport⟩
  refine ⟨?_, ?_⟩
  · intro hip
    simp [Flags.override, hip, haddr rfl]
  · intro hzero
    simp [Flags.override, hzero, hport rfl]

-- Where there is no mode in the file, main starts from a new configuration.
theorem start_cases {fields : List (Bytes × Bytes)} {conf : Option AnyConfiguration}
    (hconf : Described fields conf) (h : start fresh flags conf = .ok started) :
    (∃ conf, CoordinatorDescribed .none fields conf ∧ startCoordinator fresh flags conf = .ok started) ∨
      ∃ conf, ParticipantDescribed .none fields conf ∧ startParticipant fresh flags conf = .ok started := by
  cases conf with
  | none =>
      have hfields : fields = [] := hconf
      subst hfields
      dsimp only [start] at h
      split at h
      · exact .inl ⟨_, (carries_new_coordinator fun _ _ => rfl).1, h⟩
      · exact .inr ⟨_, (carries_new_participant fun _ _ => rfl).1, h⟩
  | some conf =>
      cases conf with
      | coordinator conf => exact .inl ⟨_, hconf.1, h⟩
      | participant conf =>
          dsimp only [start] at h
          split at h
          · cases h
          · exact .inr ⟨_, hconf.1, h⟩

theorem staffed_iff {fields : List (Bytes × Bytes)} {conf : Configuration} (h : conf.numWorkers = 2) :
    Staffed fields conf ↔ Last (given "num_workers" fields) fun value => number value = some 2 := by
  unfold Staffed
  rw [h]
  exact Iff.rfl

-- All that a server lacks is the number of workers.
theorem carries_start_iff {fields : List (Bytes × Bytes)} {conf : Option AnyConfiguration}
    (hconf : Described fields conf) (h : start fresh flags conf = .ok started) :
    Carries flags fields started ↔ Last (given "num_workers" fields) fun value => number value = some 2 := by
  rcases start_cases hconf h with ⟨conf, ⟨hlistens, hparticipants⟩, hstart⟩ | ⟨conf, hdescribed, hstart⟩
  · obtain ⟨held, rfl, hheld, haddrs⟩ := startCoordinator_eq_ok hstart
    have hcount : held.numWorkers = 2 := by rw [hheld]
    rw [← staffed_iff hcount]
    refine and_iff_right ⟨?_, ?_⟩
    · rw [hheld]
      exact listens_override hlistens
    · intro hflags
      obtain ⟨haddr, hport⟩ := haddrs hflags
      rw [haddr, hport]
      exact hparticipants rfl
  · obtain ⟨hlistens, hcoordinator, hstorage⟩ := hdescribed
    obtain ⟨held, rfl, hheld, hpath, haddrs⟩ := startParticipant_eq_ok hstart
    have hcount : held.numWorkers = 2 := by rw [hheld]
    rw [← staffed_iff hcount]
    refine and_iff_right ⟨?_, ?_, ?_⟩
    · rw [hheld]
      exact listens_override hlistens
    · refine hcoordinator.imp ?_
      intro value hvalue hflags
      obtain ⟨haddr, hport⟩ := haddrs hflags
      rw [haddr, hport]
      exact hvalue rfl
    · rw [hpath]
      exact hstorage

-- A configuration with a mode is started by a command line that names the other side.
theorem exists_start (conf : AnyConfiguration) : ∃ flags started, start 0 flags (some conf) = .ok started := by
  have hpeer : parseAddrs (bytes "127.0.0.1:8001") = some [(bytes "127.0.0.1", 8001)] := by decide
  have hne : bytes "127.0.0.1:8001" ≠ [] := by decide
  refine ⟨⟨[], [], 0, bytes "127.0.0.1:8001", bytes "127.0.0.1:8001"⟩, ?_⟩
  cases conf with
  | coordinator conf =>
      dsimp only [start, startCoordinator]
      rw [if_neg fun h => hne h.2, hpeer]
      exact ⟨_, rfl⟩
  | participant conf =>
      dsimp only [start, startParticipant]
      rw [if_neg (by decide), if_neg fun h => hne h.2, hpeer]
      exact ⟨_, rfl⟩

end Starting

theorem unchanged_iff {fresh : UInt16} {text : Bytes} {conf : Option AnyConfiguration}
    (h : getConf fresh (some text) = .ok conf) : Unchanged text conf ↔
      (∀ field ∈ fields text, InRange field) ∧
        Last (given "num_workers" (fields text)) fun value => number value = some 2 := by
  unfold Unchanged
  apply and_congr_right
  intro hrange
  have hconf := described_getConf h hrange
  constructor
  · intro hcarries
    cases conf with
    | none =>
        have hfields : fields text = [] := hconf
        rw [hfields]
        exact last_nil
    | some conf =>
        obtain ⟨flags, started, hstart⟩ := exists_start conf
        exact (carries_start_iff hconf hstart).mp (hcarries 0 flags started hstart)
  · intro hworkers fresh flags started hstart
    exact (carries_start_iff hconf hstart).mpr hworkers

-- A file that sets every field of a participant, and two workers, as there are without it.
def twoWorkers : Bytes :=
  bytes "mode participant\nparticipant_info 10.0.0.2:8001\ncoordinator_info 10.0.0.1:8000\n" ++
    bytes "storage_path /tmp/kv\nnum_workers 2\n"

def twoWorkersConf : ParticipantConfiguration where
  addr := bytes "10.0.0.2"
  port := 8001
  numWorkers := 2
  coordinatorAddr := bytes "10.0.0.1"
  coordinatorPort := 8000
  storagePath := bytes "/tmp/kv"

set_option maxRecDepth 10000 in
theorem unchanged_iff_two : getConf 0 (some twoWorkers) = .ok (some (.participant twoWorkersConf)) ∧
    Unchanged twoWorkers (some (.participant twoWorkersConf)) := by
  have hconf : getConf 0 (some twoWorkers) = .ok (some (.participant twoWorkersConf)) := by decide
  have hfields : fields twoWorkers =
      [(bytes "mode", bytes "participant"), (bytes "participant_info", bytes "10.0.0.2:8001"),
        (bytes "coordinator_info", bytes "10.0.0.1:8000"), (bytes "storage_path", bytes "/tmp/kv"),
        (bytes "num_workers", bytes "2")] := by decide
  have hcount : number (bytes "2") = some 2 := by decide
  have hport : port (bytes "10.0.0.2:8001") = some 8001 := by decide
  have hcoordinator : port (bytes "10.0.0.1:8000") = some 8000 := by decide
  refine ⟨hconf, (unchanged_iff hconf).mpr ⟨?_, ?_⟩⟩
  · intro field hmem
    rw [hfields] at hmem
    simp only [List.mem_cons, List.not_mem_nil, or_false] at hmem
    rcases hmem with rfl | rfl | rfl | rfl | rfl
    · simp [InRange, bytes_inj]
    · simp [InRange, bytes_inj, hport]
    · simp [InRange, bytes_inj, hcoordinator]
    · simp [InRange, bytes_inj]
    · simp [InRange, bytes_inj, hcount]
  · rw [hfields]
    intro value hvalue
    have heq : value = bytes "2" := by
      apply Option.some.inj
      rw [← hvalue]
      decide
    rw [heq, hcount]

-- Both moves leave the number of workers out.
def eightWorkers : Bytes := bytes "mode participant\nnum_workers 8\n"

theorem eightWorkers_not_unchanged : ¬ ∀ (fresh : UInt16) (text : Bytes) (conf : Option AnyConfiguration),
    getConf fresh (some text) = .ok conf → Unchanged text conf := by
  intro h
  have hconf : getConf 0 (some eightWorkers) =
      .ok (some (.participant { ParticipantConfiguration.new 0 with numWorkers := 8 })) := by decide
  have hstart : start 0 .none (some (.participant { ParticipantConfiguration.new 0 with numWorkers := 8 })) =
      .ok (.participant (.new 0)) := by decide
  obtain ⟨-, hcarries⟩ := h 0 eightWorkers _ hconf
  obtain ⟨-, hstaffed⟩ := hcarries 0 .none _ hstart
  have height := hstaffed (bytes "8") (by decide)
  exact absurd height (by decide)

end CloudLabs.Cdb
