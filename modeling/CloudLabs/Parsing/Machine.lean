import Mathlib.Data.List.TakeDrop

namespace CloudLabs.Parsing

-- What a machine makes of the elements it has waited for.
inductive Advance (σ α : Type) where
  | done (value : α)
  | more (next : σ)

-- A machine reads a stream that arrives in chunks. A state waits for a number of elements and
-- takes them together; a machine that has read a value starts again.
structure Machine (ε σ β α : Type) where
  start : σ
  need : σ → Nat
  need_pos : ∀ state, 0 < need state
  step : σ → List β → Except ε (Advance σ α)

-- How a machine stops: with a value and what stands behind it, with fewer elements than it
-- needs, or at a failure.
inductive Stop (ε σ β α : Type) where
  | value (value : α) (rest : List β)
  | waiting (state : σ) (pending : List β)
  | failed (error : ε)

namespace Machine

variable {ε σ β α : Type} (m : Machine ε σ β α)

def run (state : σ) (buffer : List β) : Stop ε σ β α :=
  if buffer.length < m.need state then .waiting state buffer
  else
    match m.step state (buffer.take (m.need state)) with
    | .error e => .failed e
    | .ok (.done value) => .value value (buffer.drop (m.need state))
    | .ok (.more next) => run next (buffer.drop (m.need state))
termination_by buffer.length
decreasing_by
  have hpos := m.need_pos state
  rw [List.length_drop]
  omega

theorem run_of_lt {state : σ} {buffer : List β} (h : buffer.length < m.need state) :
    m.run state buffer = .waiting state buffer := by
  rw [run, if_pos h]

theorem run_nil (state : σ) : m.run state [] = .waiting state [] := m.run_of_lt (m.need_pos state)

-- The elements a state waits for decide what it does, whatever stands behind them.
theorem run_append_of_length {state : σ} {taken : List β} (h : taken.length = m.need state) (rest : List β) :
    m.run state (taken ++ rest) =
      match m.step state taken with
      | .error e => .failed e
      | .ok (.done value) => .value value rest
      | .ok (.more next) => m.run next rest := by
  have hlen : ¬(taken ++ rest).length < m.need state := by
    rw [List.length_append]
    omega
  rw [run, if_neg hlen, ← h, List.take_left, List.drop_left]

-- How the machine goes on behind a step.
def resume (advance : Advance σ α) (rest : List β) : Stop ε σ β α :=
  match advance with
  | .done value => .value value rest
  | .more next => m.run next rest

theorem run_of_step {state : σ} {taken : List β} {advance : Advance σ α} (h : taken.length = m.need state)
    (hstep : m.step state taken = .ok advance) (rest : List β) :
    m.run state (taken ++ rest) = m.resume advance rest := by
  rw [m.run_append_of_length h, hstep]
  cases advance with
  | done value => rfl
  | more next => rfl

-- The induction over a run: what holds where the machine stops holds before each step.
theorem run_induct {P : σ → List β → Prop}
    (hwaits : ∀ state buffer, buffer.length < m.need state → P state buffer)
    (hsteps : ∀ state taken rest, taken.length = m.need state →
      (∀ next, m.step state taken = .ok (.more next) → P next rest) → P state (taken ++ rest))
    (state : σ) (buffer : List β) : P state buffer := by
  induction h : buffer.length using Nat.strongRecOn generalizing state buffer with
  | _ length ih =>
      by_cases hlt : buffer.length < m.need state
      · exact hwaits state buffer hlt
      · have hpos := m.need_pos state
        have htaken : (buffer.take (m.need state)).length = m.need state := by
          rw [List.length_take]
          omega
        have hrest : (buffer.drop (m.need state)).length < length := by
          rw [List.length_drop]
          omega
        rw [← List.take_append_drop (m.need state) buffer]
        apply hsteps state _ _ htaken
        intro next hnext
        exact ih _ hrest next _ rfl

theorem run_value_length {state : σ} {buffer rest : List β} {value : α}
    (h : m.run state buffer = .value value rest) : rest.length < buffer.length := by
  revert h
  apply m.run_induct (P := fun state buffer => m.run state buffer = .value value rest → rest.length < buffer.length)
  · intro state buffer hlt h
    rw [m.run_of_lt hlt] at h
    cases h
  · intro state taken behind htaken ih h
    have hpos := m.need_pos state
    rw [m.run_append_of_length htaken] at h
    rw [List.length_append]
    cases hstep : m.step state taken with
    | error e =>
        rw [hstep] at h
        cases h
    | ok advance =>
        rw [hstep] at h
        cases advance with
        | done found =>
            cases h
            omega
        | more next =>
            have hrest := ih next hstep h
            omega

-- What has come decides how far the machine gets; what comes later stands behind it.
theorem run_append (state : σ) (buffer later : List β) :
    m.run state (buffer ++ later) =
      match m.run state buffer with
      | .value value rest => .value value (rest ++ later)
      | .waiting state pending => m.run state (pending ++ later)
      | .failed e => .failed e := by
  apply m.run_induct (P := fun state buffer => m.run state (buffer ++ later) =
      match m.run state buffer with
      | .value value rest => .value value (rest ++ later)
      | .waiting state pending => m.run state (pending ++ later)
      | .failed e => .failed e)
  · intro state buffer hlt
    rw [m.run_of_lt hlt]
  · intro state taken rest htaken ih
    rw [List.append_assoc, m.run_append_of_length htaken, m.run_append_of_length htaken]
    cases hstep : m.step state taken with
    | error e => rfl
    | ok advance =>
        cases advance with
        | done value => rfl
        | more next => exact ih next hstep

-- The loop that takes one value after another from the buffer.
def drain (state : σ) (buffer : List β) : List α × Except ε (σ × List β) :=
  match _hrun : m.run state buffer with
  | .value value rest =>
      let (values, last) := drain m.start rest
      (value :: values, last)
  | .waiting state pending => ([], .ok (state, pending))
  | .failed e => ([], .error e)
termination_by buffer.length
decreasing_by exact m.run_value_length ‹_›

-- The chunks of a stream as they arrive: each is put behind what was left of the last one.
def receive (state : σ) (pending : List β) : List (List β) → List α × Except ε (σ × List β)
  | [] => ([], .ok (state, pending))
  | chunk :: chunks =>
      match m.drain state (pending ++ chunk) with
      | (values, .error e) => (values, .error e)
      | (values, .ok (state, pending)) =>
          let (later, last) := receive state pending chunks
          (values ++ later, last)

section Drain

variable {m} {state next : σ} {buffer pending rest : List β} {value : α} {values : List α} {e : ε}

theorem drain_of_value (h : m.run state buffer = .value value rest) :
    m.drain state buffer = (value :: (m.drain m.start rest).1, (m.drain m.start rest).2) := by
  rw [drain]
  split
  · rename_i found behind hrun
    rw [h] at hrun
    cases hrun
    rfl
  · rename_i hrun
    rw [h] at hrun
    cases hrun
  · rename_i hrun
    rw [h] at hrun
    cases hrun

theorem drain_of_waiting (h : m.run state buffer = .waiting next pending) :
    m.drain state buffer = ([], .ok (next, pending)) := by
  rw [drain]
  split
  · rename_i hrun
    rw [h] at hrun
    cases hrun
  · rename_i hrun
    rw [h] at hrun
    cases hrun
    rfl
  · rename_i hrun
    rw [h] at hrun
    cases hrun

theorem drain_of_failed (h : m.run state buffer = .failed e) : m.drain state buffer = ([], .error e) := by
  rw [drain]
  split
  · rename_i hrun
    rw [h] at hrun
    cases hrun
  · rename_i hrun
    rw [h] at hrun
    cases hrun
  · rename_i hrun
    rw [h] at hrun
    cases hrun
    rfl

end Drain

-- Where the loop ends with what is left, it takes up again when more has come.
theorem drain_append (state : σ) (buffer later : List β) :
    m.drain state (buffer ++ later) =
      match m.drain state buffer with
      | (values, .error e) => (values, .error e)
      | (values, .ok (next, pending)) =>
          (values ++ (m.drain next (pending ++ later)).1, (m.drain next (pending ++ later)).2) := by
  induction h : buffer.length using Nat.strongRecOn generalizing state buffer with
  | _ length ih =>
      have happend := m.run_append state buffer later
      cases hrun : m.run state buffer with
      | value value rest =>
          rw [hrun] at happend
          have hlt := m.run_value_length hrun
          have hrest := ih rest.length (by omega) m.start rest rfl
          rw [drain_of_value happend, drain_of_value hrun, hrest]
          rcases m.drain m.start rest with ⟨values, _ | ⟨next, pending⟩⟩
          · rfl
          · rfl
      | waiting next pending =>
          rw [hrun] at happend
          rw [drain_of_waiting hrun]
          simp only [List.nil_append]
          cases hlater : m.run next (pending ++ later) with
          | value value rest => rw [drain_of_value (happend.trans hlater), drain_of_value hlater]
          | waiting last left => rw [drain_of_waiting (happend.trans hlater), drain_of_waiting hlater]
          | failed e => rw [drain_of_failed (happend.trans hlater), drain_of_failed hlater]
      | failed e =>
          rw [hrun] at happend
          rw [drain_of_failed happend, drain_of_failed hrun]

-- What the loop leaves in the buffer gives no value until more has come.
theorem drain_last {state next : σ} {buffer pending : List β}
    (h : (m.drain state buffer).2 = .ok (next, pending)) :
    m.drain next pending = ([], .ok (next, pending)) := by
  have happend := m.drain_append state buffer []
  rw [List.append_nil] at happend
  rcases hdrain : m.drain state buffer with ⟨values, _ | ⟨last, left⟩⟩
  · rw [hdrain] at h
    cases h
  · rw [hdrain] at h happend
    cases h
    simp only [List.append_nil, Prod.mk.injEq] at happend
    have hnone := List.append_cancel_left ((List.append_nil values).trans happend.1)
    exact Prod.ext hnone.symm happend.2.symm

-- However the stream is cut into chunks, the values are those of the stream.
theorem receive_eq {state : σ} {pending : List β} (h : m.drain state pending = ([], .ok (state, pending)))
    (chunks : List (List β)) : m.receive state pending chunks = m.drain state (pending ++ chunks.flatten) := by
  induction chunks generalizing state pending with
  | nil => rw [List.flatten_nil, List.append_nil, h, receive]
  | cons chunk chunks ih =>
      rw [List.flatten_cons, ← List.append_assoc, m.drain_append, receive]
      rcases hdrain : m.drain state (pending ++ chunk) with ⟨values, e | ⟨next, left⟩⟩
      · rfl
      · have hlast := m.drain_last (congrArg Prod.snd hdrain)
        simp only
        rw [ih hlast]

theorem receive_start (chunks : List (List β)) : m.receive m.start [] chunks = m.drain m.start chunks.flatten :=
  m.receive_eq (drain_of_waiting (m.run_nil m.start)) chunks

-- What every step keeps of the states, and makes of the values.
structure Keeps (kept : σ → Prop) (made : α → Prop) : Prop where
  start : kept m.start
  more : ∀ state taken next, kept state → taken.length = m.need state → m.step state taken = .ok (.more next) →
    kept next
  done : ∀ state taken value, kept state → taken.length = m.need state → m.step state taken = .ok (.done value) →
    made value

section Keeps

variable {m} {kept : σ → Prop} {made : α → Prop} {state : σ} {buffer rest : List β} {value : α}

theorem Keeps.run_value (h : m.Keeps kept made) (hstate : kept state) (hrun : m.run state buffer = .value value rest) :
    made value := by
  revert hstate hrun
  apply m.run_induct (P := fun state buffer => kept state → m.run state buffer = .value value rest → made value)
  · intro state buffer hlt hstate hrun
    rw [m.run_of_lt hlt] at hrun
    cases hrun
  · intro state taken behind htaken ih hstate hrun
    rw [m.run_append_of_length htaken] at hrun
    cases hstep : m.step state taken with
    | error e =>
        rw [hstep] at hrun
        cases hrun
    | ok advance =>
        rw [hstep] at hrun
        cases advance with
        | done found =>
            cases hrun
            exact h.done state taken value hstate htaken hstep
        | more next => exact ih next hstep (h.more state taken next hstate htaken hstep) hrun

theorem Keeps.drain (h : m.Keeps kept made) (hstate : kept state) : ∀ value ∈ (m.drain state buffer).1, made value := by
  induction hbuffer : buffer.length using Nat.strongRecOn generalizing state buffer with
  | _ length ih =>
      intro value hvalue
      cases hrun : m.run state buffer with
      | value found rest =>
          have hlt := m.run_value_length hrun
          rw [drain_of_value hrun] at hvalue
          rcases List.mem_cons.mp hvalue with rfl | hlater
          · exact h.run_value hstate hrun
          · exact ih rest.length (by omega) h.start rfl value hlater
      | waiting next pending =>
          rw [drain_of_waiting hrun] at hvalue
          cases hvalue
      | failed e =>
          rw [drain_of_failed hrun] at hvalue
          cases hvalue

theorem Keeps.receive (h : m.Keeps kept made) (chunks : List (List β)) :
    ∀ value ∈ (m.receive m.start [] chunks).1, made value := by
  rw [m.receive_start]
  exact h.drain h.start

end Keeps

-- A word that the machine reads as the value, whatever follows.
def Reads (word : List β) (value : α) : Prop := ∀ rest, m.run m.start (word ++ rest) = .value value rest

section Words

variable {m} {ι : Type} {word : ι → List β} {value : ι → α} {items : List ι}

theorem Reads.ne_nil {word : List β} {value : α} (h : m.Reads word value) : word ≠ [] := by
  intro hnil
  have hrun := h []
  rw [hnil, List.append_nil, m.run_nil] at hrun
  cases hrun

-- A part of a word is waited with.
theorem Reads.waits {part more : List β} {value : α} (h : m.Reads (part ++ more) value) (hmore : more ≠ []) :
    ∃ state pending, m.run m.start part = .waiting state pending := by
  have happend := m.run_append m.start part more
  have hread := h []
  rw [List.append_nil] at hread
  rw [hread] at happend
  cases hrun : m.run m.start part with
  | value found rest =>
      rw [hrun] at happend
      have hrest : [] = rest ++ more := (Stop.value.inj happend).2
      exact absurd (List.append_eq_nil_iff.mp hrest.symm).2 hmore
  | waiting state pending => exact ⟨state, pending, rfl⟩
  | failed e =>
      rw [hrun] at happend
      cases happend

theorem drain_words (h : ∀ item ∈ items, m.Reads (word item) (value item)) (rest : List β) :
    m.drain m.start (items.flatMap word ++ rest) =
      (items.map value ++ (m.drain m.start rest).1, (m.drain m.start rest).2) := by
  induction items with
  | nil => rfl
  | cons item items ih =>
      have hitem := h item List.mem_cons_self
      have hitems := ih fun other hother => h other (List.mem_cons_of_mem item hother)
      rw [List.flatMap_cons, List.append_assoc, drain_of_value (hitem _), hitems]
      rfl

-- A part of a stream of words is some whole words and a part of the next one.
theorem prefix_words (hne : ∀ item ∈ items, word item ≠ []) {data : List β} (h : data <+: items.flatMap word) :
    ∃ whole later part, items = whole ++ later ∧ data = whole.flatMap word ++ part ∧
      (part = [] ∨ ∃ item others more, later = item :: others ∧ word item = part ++ more ∧ more ≠ []) := by
  induction items generalizing data with
  | nil =>
      rw [List.flatMap_nil, List.prefix_nil] at h
      exact ⟨[], [], [], rfl, h, Or.inl rfl⟩
  | cons item items ih =>
      rw [List.flatMap_cons] at h
      by_cases hlen : data.length < (word item).length
      · obtain ⟨more, hmore⟩ := List.prefix_of_prefix_length_le h (List.prefix_append _ _) (Nat.le_of_lt hlen)
        refine ⟨[], item :: items, data, rfl, rfl, Or.inr ⟨item, items, more, rfl, hmore.symm, ?_⟩⟩
        rintro rfl
        rw [← hmore, List.append_nil] at hlen
        omega
      · obtain ⟨rest, rfl⟩ := List.prefix_of_prefix_length_le (List.prefix_append _ _) h (by omega)
        obtain ⟨whole, later, part, rfl, rfl, hpart⟩ :=
          ih (fun other hother => hne other (List.mem_cons_of_mem item hother))
            ((List.prefix_append_right_inj _).mp h)
        exact ⟨item :: whole, later, part, rfl, by rw [List.flatMap_cons, List.append_assoc], hpart⟩

-- Of the items, the longest list whose words the data begins with.
structure Whole (word : ι → List β) (items whole : List ι) (data : List β) : Prop where
  of_items : whole <+: items
  come : whole.flatMap word <+: data
  longest : ∀ more, more <+: items → more.flatMap word <+: data → more <+: whole

theorem whole_of_part {whole later : List ι} {part : List β} (hne : ∀ item ∈ whole ++ later, word item ≠ [])
    (hpart : part = [] ∨ ∃ item others more, later = item :: others ∧ word item = part ++ more ∧ more ≠ []) :
    Whole word (whole ++ later) whole (whole.flatMap word ++ part) := by
  constructor
  · exact List.prefix_append whole later
  · exact List.prefix_append _ part
  · intro more hitems hdata
    rcases List.prefix_or_prefix_of_prefix hitems (List.prefix_append whole later) with hle | ⟨extra, rfl⟩
    · exact hle
    · rw [List.prefix_append_right_inj] at hitems
      rw [List.flatMap_append, List.prefix_append_right_inj] at hdata
      cases extra with
      | nil => exact (List.append_nil whole).symm ▸ List.prefix_refl whole
      | cons item extra =>
          obtain ⟨others, rfl⟩ := hitems
          rw [List.flatMap_cons] at hdata
          have hword : word item <+: part := (List.prefix_append _ _).trans hdata
          rcases hpart with rfl | ⟨next, others', more, hnext, hmore, hne'⟩
          · exact absurd (List.prefix_nil.mp hword) (hne item (by simp))
          · obtain ⟨rfl, -⟩ := List.cons.inj hnext
            have hlen := hword.length_le
            rw [hmore, List.length_append] at hlen
            exact absurd (List.eq_nil_of_length_eq_zero (by omega)) hne'

theorem Whole.of_all {whole : List ι} {data : List β} (h : Whole word items whole data)
    (hdata : data = items.flatMap word) : whole = items :=
  h.of_items.eq_of_length_le (h.longest items (List.prefix_refl items) (hdata ▸ List.prefix_refl _)).length_le

-- At each moment the values that have been read are those of the words that have come whole.
theorem receive_words (h : ∀ item ∈ items, m.Reads (word item) (value item)) {chunks : List (List β)}
    (hchunks : chunks.flatten <+: items.flatMap word) :
    ∃ whole last, Whole word items whole chunks.flatten ∧
      m.receive m.start [] chunks = (whole.map value, .ok last) := by
  have hne : ∀ item ∈ items, word item ≠ [] := by
    intro item hitem
    exact (h item hitem).ne_nil
  obtain ⟨whole, later, part, rfl, hdata, hpart⟩ := prefix_words hne hchunks
  have hwaits : ∃ state pending, m.run m.start part = .waiting state pending := by
    rcases hpart with rfl | ⟨item, others, more, rfl, hword, hmore⟩
    · exact ⟨_, _, m.run_nil m.start⟩
    · have hitem := h item (List.mem_append_right _ List.mem_cons_self)
      rw [hword] at hitem
      exact hitem.waits hmore
  obtain ⟨state, pending, hrun⟩ := hwaits
  refine ⟨whole, (state, pending), hdata ▸ whole_of_part hne hpart, ?_⟩
  rw [m.receive_start, hdata, drain_words fun item hitem => h item (List.mem_append_left _ hitem),
    drain_of_waiting hrun, List.append_nil]

end Words

end Machine

end CloudLabs.Parsing
