import CloudLabs.Parsing.Reader.Theorems

namespace CloudLabs.Parsing

-- How the reading of a buffer ends: at the end of the buffer, before something
-- that is not complete yet, or at a failure that stays.
inductive Ending where
  | finished
  | wanting
  | failed
  deriving DecidableEq, Repr

-- What is known of a stream of elements between two chunks: the elements that are still to
-- be read, or that it has failed.
inductive Incoming (β : Type) where
  | waiting (left : List β)
  | failed

open Reader

variable {ε β α : Type}

section Run

variable (r : Reader ε β α) (data : List β)

-- The run of a reading from a position: its values, where the last of them ends,
-- and the failure that stops it before the end of the buffer.
inductive ReadsTo : Nat → List α → Nat → Option ε → Prop where
  | finished {idx : Nat} : data.length ≤ idx → ReadsTo idx [] idx none
  | stopped {idx mid : Nat} {e : ε} :
      idx < data.length → r data idx = (.error e, mid) → ReadsTo idx [] idx (some e)
  | value {idx mid last : Nat} {value : α} {values : List α} {stop : Option ε} :
      idx < data.length → r data idx = (.ok value, mid) → ReadsTo mid values last stop →
      ReadsTo idx (value :: values) last stop

end Run

namespace ReadsTo

variable {more : ε → Bool} {r : Reader ε β α} {data : List β} {idx last : Nat}
  {values : List α} {stop : Option ε}

theorem unique (h : ReadsTo r data idx values last stop) {values' : List α} {last' : Nat}
    {stop' : Option ε} (h' : ReadsTo r data idx values' last' stop') :
    values = values' ∧ last = last' ∧ stop = stop' := by
  induction h generalizing values' last' stop' with
  | finished hend =>
      cases h' with
      | finished hend' => exact ⟨rfl, rfl, rfl⟩
      | stopped hlt hread => omega
      | value hlt hread hrest => omega
  | stopped hlt hread =>
      cases h' with
      | finished hend => omega
      | stopped hlt' hread' =>
          have heq := hread.symm.trans hread'
          cases heq
          exact ⟨rfl, rfl, rfl⟩
      | value hlt' hread' hrest => cases hread.symm.trans hread'
  | value hlt hread hrest ih =>
      cases h' with
      | finished hend => omega
      | stopped hlt' hread' => cases hread.symm.trans hread'
      | value hlt' hread' hrest' =>
          have heq := hread.symm.trans hread'
          cases heq
          obtain ⟨rfl, rfl, rfl⟩ := ih hrest'
          exact ⟨rfl, rfl, rfl⟩

-- The values end inside the buffer, and at its end exactly when nothing stops
-- the reading.
theorem bounds (hsteady : Steady more r) (h : ReadsTo r data idx values last stop)
    (hidx : idx ≤ data.length) :
    idx ≤ last ∧ last ≤ data.length ∧ (stop = none ↔ last = data.length) := by
  induction h with
  | finished hend => exact ⟨Nat.le_refl _, hidx, by simp only [true_iff]; omega⟩
  | stopped hlt hread => exact ⟨Nat.le_refl _, hidx, by simp only [reduceCtorEq, false_iff]; omega⟩
  | @value idx mid last value values stop hlt hread hrest ih =>
      have hmid := hsteady.bounds data idx hidx
      rw [hread] at hmid
      have hlast := ih hmid.2
      exact ⟨Nat.le_trans hmid.1 hlast.1, hlast.2⟩

theorem readFrom (hsteady : Steady more r) (hprogress : Progresses more r) {fuel : Nat}
    (hidx : idx ≤ data.length) (hfuel : data.length - idx ≤ fuel) :
    ReadsTo r data idx (readFrom r data fuel idx).1 (readFrom r data fuel idx).2.1
      (readFrom r data fuel idx).2.2 := by
  induction fuel generalizing idx with
  | zero => exact .finished (by omega)
  | succ fuel ih =>
      by_cases hend : data.length ≤ idx
      · simp only [Reader.readFrom, if_pos hend]
        exact .finished hend
      · match h : r data idx with
        | (.ok found, mid) =>
            have hmid := hprogress.of_ok hidx h
            have hbounds := hsteady.bounds data idx hidx
            rw [h] at hbounds
            have hrest := ih hbounds.2 (by omega)
            simp only [Reader.readFrom, if_neg hend, h]
            exact .value (by omega) h hrest
        | (.error e, mid) =>
            simp only [Reader.readFrom, if_neg hend, h]
            exact .stopped (by omega) h

-- Words side by side are read one after another.
theorem of_reads {γ : Type} {word : γ → List β} {value : γ → α} (before : List β) {items : List γ}
    (hr : ∀ item ∈ items, Reads r (word item) (value item) ∧ word item ≠ []) :
    ReadsTo r (before ++ items.flatMap word) before.length (items.map value)
      (before ++ items.flatMap word).length none := by
  induction items generalizing before with
  | nil =>
      rw [List.flatMap_nil, List.append_nil]
      exact .finished (Nat.le_refl _)
  | cons item items ih =>
      obtain ⟨hread, hne⟩ := hr item (by simp)
      have hrest := ih (before ++ word item) fun other hother => hr other (by simp [hother])
      have hpos := List.length_pos_iff.mpr hne
      have hmid : (before ++ word item).length = before.length + (word item).length :=
        List.length_append
      rw [List.append_assoc, hmid] at hrest
      rw [List.flatMap_cons, List.map_cons]
      refine .value ?_ (hread before _) hrest
      rw [List.length_append, List.length_append]
      omega

theorem readAll (hsteady : Steady more r) (hprogress : Progresses more r) (data : List β) :
    ReadsTo r data 0 (readAll r data).1 (readAll r data).2.1 (readAll r data).2.2 :=
  readFrom hsteady hprogress (Nat.zero_le _) (by omega)

end ReadsTo

namespace Incoming

section Feed

variable (more : ε → Bool) (r : Reader ε β α)

def ending : Option ε → Ending
  | none => .finished
  | some e => if more e then .wanting else .failed

-- The values that become complete with the chunk, and what is left then.
def feed (incoming : Incoming β) (chunk : List β) : List α × Incoming β :=
  match incoming with
  | .failed => ([], .failed)
  | .waiting left =>
      let (values, last, stop) := readAll r (left ++ chunk)
      match ending more stop with
      | .failed => (values, .failed)
      | _ => (values, .waiting ((left ++ chunk).drop last))

def feedAll (incoming : Incoming β) : List (List β) → List α × Incoming β
  | [] => ([], incoming)
  | chunk :: chunks =>
      let (values, incoming) := feed more r incoming chunk
      let (values', incoming) := feedAll incoming chunks
      (values ++ values', incoming)

end Feed

end Incoming

namespace ReadsTo

open Incoming

variable {more : ε → Bool} {r : Reader ε β α} {data : List β} {idx last : Nat}
  {values : List α} {stop : Option ε}

-- A reading goes the same way wherever its buffer starts.
theorem shift (hsteady : Steady more r) (before : List β)
    (h : ReadsTo r data idx values last stop) (hidx : idx ≤ data.length) :
    ∃ stop', ending more stop' = ending more stop ∧
      ReadsTo r (before ++ data) (before.length + idx) values (before.length + last) stop' := by
  induction h with
  | @finished idx hend =>
      have hend' : (before ++ data).length ≤ before.length + idx := by
        rw [List.length_append]
        omega
      exact ⟨none, rfl, .finished hend'⟩
  | @stopped idx mid e hlt hread =>
      have hlt' : before.length + idx < (before ++ data).length := by
        rw [List.length_append]
        omega
      by_cases hmore : more e
      · have hwaits := hsteady.waits before data idx hidx (by rw [hread]; exact hmore)
        match h' : r (before ++ data) (before.length + idx) with
        | (.ok found, mid') =>
            rw [h'] at hwaits
            exact False.elim hwaits
        | (.error e', mid') =>
            rw [h'] at hwaits
            have hmore' : more e' = true := hwaits
            exact ⟨some e', by simp [ending, hmore, hmore'], .stopped hlt' h'⟩
      · have hsame := hsteady.decided before data [] idx hidx (by rw [hread]; exact hmore)
        rw [List.append_nil, hread] at hsame
        exact ⟨some e, rfl, .stopped hlt' hsame⟩
  | @value idx mid last value values stop hlt hread hrest ih =>
      have hlt' : before.length + idx < (before ++ data).length := by
        rw [List.length_append]
        omega
      have hmid := hsteady.bounds data idx hidx
      have hsame := hsteady.decided before data [] idx hidx (by rw [hread]; simp [Waits])
      rw [hread] at hmid
      rw [List.append_nil, hread] at hsame
      obtain ⟨stop', hstop, hrest'⟩ := ih hmid.2
      exact ⟨stop', hstop, .value hlt' hsame hrest'⟩

-- What has failed stays as it is when more elements follow.
theorem append_failed (hsteady : Steady more r) (rest : List β)
    (h : ReadsTo r data idx values last stop) (hidx : idx ≤ data.length)
    (hfailed : ending more stop = .failed) : ReadsTo r (data ++ rest) idx values last stop := by
  induction h with
  | finished hend => cases hfailed
  | @stopped idx mid e hlt hread =>
      have hmore : ¬ more e := by
        intro hmore
        simp [ending, hmore] at hfailed
      have hsame := hsteady.decided [] data rest idx hidx (by rw [hread]; exact hmore)
      simp only [List.nil_append, List.length_nil, Nat.zero_add, hread] at hsame
      exact .stopped (by rw [List.length_append]; omega) hsame
  | @value idx mid last value values stop hlt hread hrest ih =>
      have hmid := hsteady.bounds data idx hidx
      have hsame := hsteady.decided [] data rest idx hidx (by rw [hread]; simp [Waits])
      rw [hread] at hmid
      simp only [List.nil_append, List.length_nil, Nat.zero_add, hread] at hsame
      exact .value (by rw [List.length_append]; omega) hsame (ih hmid.2 hfailed)

-- The values that were complete are the first ones when more elements follow.
theorem append (hsteady : Steady more r) {rest : List β} {values' : List α} {last' : Nat}
    {stop' : Option ε} (h : ReadsTo r data idx values last stop) (hidx : idx ≤ data.length)
    (hrest : ReadsTo r (data ++ rest) last values' last' stop') :
    ReadsTo r (data ++ rest) idx (values ++ values') last' stop' := by
  induction h with
  | finished hend => exact hrest
  | stopped hlt hread => exact hrest
  | @value idx mid last value values stop hlt hread hinner ih =>
      have hmid := hsteady.bounds data idx hidx
      have hsame := hsteady.decided [] data rest idx hidx (by rw [hread]; simp [Waits])
      rw [hread] at hmid
      simp only [List.nil_append, List.length_nil, Nat.zero_add, hread] at hsame
      exact .value (by rw [List.length_append]; omega) hsame (ih hmid.2 hrest)

end ReadsTo

namespace Incoming

variable {more : ε → Bool} {r : Reader ε β α}

theorem feed_eq {left chunk : List β} {values : List α} {last : Nat} {stop : Option ε}
    (hsteady : Steady more r) (hprogress : Progresses more r)
    (h : ReadsTo r (left ++ chunk) 0 values last stop) :
    feed more r (.waiting left) chunk =
      (values, if ending more stop = .failed then .failed else .waiting ((left ++ chunk).drop last)) := by
  obtain ⟨hvalues, hlast, hstop⟩ := (ReadsTo.readAll hsteady hprogress (left ++ chunk)).unique h
  unfold feed
  simp only [hvalues, hlast, hstop]
  cases ending more stop <;> rfl

-- Two chunks do what one does that holds both.
theorem feed_append (hsteady : Steady more r) (hprogress : Progresses more r) (incoming : Incoming β)
    (chunk chunk' : List β) :
    feed more r incoming (chunk ++ chunk') =
      ((feed more r incoming chunk).1 ++ (feed more r (feed more r incoming chunk).2 chunk').1,
        (feed more r (feed more r incoming chunk).2 chunk').2) := by
  cases incoming with
  | failed => rfl
  | waiting left =>
      have hfirst := ReadsTo.readAll hsteady hprogress (left ++ chunk)
      have hbounds := hfirst.bounds hsteady (Nat.zero_le _)
      rw [feed_eq hsteady hprogress hfirst]
      by_cases hfailed : ending more (readAll r (left ++ chunk)).2.2 = .failed
      · have hboth := hfirst.append_failed hsteady chunk' (Nat.zero_le _) hfailed
        rw [List.append_assoc] at hboth
        rw [feed_eq hsteady hprogress hboth, if_pos hfailed, if_pos hfailed]
        simp [feed]
      · let last := (readAll r (left ++ chunk)).2.1
        let left' := (left ++ chunk).drop last
        have hsecond := ReadsTo.readAll hsteady hprogress (left' ++ chunk')
        obtain ⟨stop, hstop, hshift⟩ :=
          hsecond.shift hsteady ((left ++ chunk).take last) (Nat.zero_le _)
        have hbuffer : (left ++ chunk).take last ++ (left' ++ chunk') = (left ++ chunk) ++ chunk' := by
          rw [← List.append_assoc, List.take_append_drop]
        have htake : ((left ++ chunk).take last).length = last := by
          rw [List.length_take]
          exact Nat.min_eq_left hbounds.2.1
        rw [hbuffer, htake, Nat.add_zero] at hshift
        have hboth := hfirst.append hsteady (Nat.zero_le _) hshift
        rw [List.append_assoc] at hboth
        rw [feed_eq hsteady hprogress hboth, if_neg hfailed, feed_eq hsteady hprogress hsecond, hstop]
        have hdrop : (left ++ (chunk ++ chunk')).drop (last + (readAll r (left' ++ chunk')).2.1) =
            (left' ++ chunk').drop (readAll r (left' ++ chunk')).2.1 := by
          rw [← List.append_assoc, ← hbuffer, ← List.drop_drop, List.drop_left' htake]
        rw [hdrop]

-- However a stream is cut, its values are those of one chunk.
theorem feedAll_flatten (hsteady : Steady more r) (hprogress : Progresses more r) (incoming : Incoming β)
    (chunk : List β) (chunks : List (List β)) :
    feedAll more r incoming (chunk :: chunks) = feed more r incoming (chunk ++ chunks.flatten) := by
  induction chunks generalizing incoming chunk with
  | nil =>
      rw [List.flatten_nil, List.append_nil]
      simp [feedAll]
  | cons next chunks ih =>
      have hrest := ih (feed more r incoming chunk).2 next
      rw [List.flatten_cons, feed_append hsteady hprogress incoming chunk, ← hrest]
      rfl

end Incoming

end CloudLabs.Parsing
