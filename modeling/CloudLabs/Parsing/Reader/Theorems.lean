import CloudLabs.Parsing.Reader

namespace CloudLabs.Parsing.Reader

variable {ε β α γ : Type}

section Run

theorem pure_run (value : α) (data : List β) (idx : Nat) :
    (pure value : Reader ε β α) data idx = (.ok value, idx) := rfl

theorem bind_run (r : Reader ε β α) (next : α → Reader ε β γ) (data : List β) (idx : Nat) :
    (r >>= next) data idx =
      match r data idx with
      | (.ok value, idx) => next value data idx
      | (.error e, idx) => (.error e, idx) := rfl

theorem bind_ok {r : Reader ε β α} {next : α → Reader ε β γ} {data : List β} {idx mid : Nat}
    {value : α} (h : r data idx = (.ok value, mid)) : (r >>= next) data idx = next value data mid := by
  rw [bind_run, h]

theorem bind_error {r : Reader ε β α} {next : α → Reader ε β γ} {data : List β} {idx mid : Nat}
    {e : ε} (h : r data idx = (.error e, mid)) : (r >>= next) data idx = (.error e, mid) := by
  rw [bind_run, h]

instance : LawfulMonad (Reader ε β) := by
  refine LawfulMonad.mk' _ (fun r => ?_) (fun _ _ => rfl) fun r next last => ?_
  · funext data idx
    show (r >>= fun value => pure value) data idx = r data idx
    rcases h : r data idx with ⟨e | value, mid⟩
    · rw [bind_error h]
    · rw [bind_ok h, pure_run]
  · funext data idx
    rcases h : r data idx with ⟨e | value, mid⟩
    · rw [bind_error h, bind_error (bind_error h)]
    · rw [bind_ok h, bind_run _ last, bind_ok h, ← bind_run]

-- A value of the whole comes from a value of the first part.
theorem of_bind_ok {r : Reader ε β α} {next : α → Reader ε β γ} {data : List β} {idx last : Nat}
    {result : γ} (h : (r >>= next) data idx = (.ok result, last)) :
    ∃ value mid, r data idx = (.ok value, mid) ∧ next value data mid = (.ok result, last) := by
  rw [bind_run] at h
  match hr : r data idx with
  | (.ok value, mid) =>
      rw [hr] at h
      exact ⟨value, mid, rfl, h⟩
  | (.error e, mid) =>
      rw [hr] at h
      cases h

end Run

section Steady

variable {more : ε → Bool}

theorem Steady.pure (value : α) : Steady more (pure value : Reader ε β α) where
  bounds _ _ hidx := ⟨Nat.le_refl _, hidx⟩
  decided _ _ _ _ _ _ := rfl
  waits _ _ _ _ hwaits := hwaits

theorem Steady.fail (e : ε) : Steady more (fail e : Reader ε β α) where
  bounds _ _ hidx := ⟨Nat.le_refl _, hidx⟩
  decided _ _ _ _ _ _ := rfl
  waits _ _ _ _ hwaits := hwaits

theorem Steady.bind {r : Reader ε β α} {next : α → Reader ε β γ} (hr : Steady more r)
    (hnext : ∀ value, Steady more (next value)) : Steady more (r >>= next) where
  bounds data idx hidx := by
    have hfirst := hr.bounds data idx hidx
    match h : r data idx with
    | (.ok value, mid) =>
        rw [h] at hfirst
        have hsecond := (hnext value).bounds data mid hfirst.2
        rw [bind_ok h]
        exact ⟨Nat.le_trans hfirst.1 hsecond.1, hsecond.2⟩
    | (.error e, mid) =>
        rw [bind_error h]
        rw [h] at hfirst
        exact hfirst
  decided before data rest idx hidx hdecided := by
    have hfirst := hr.bounds data idx hidx
    have hshift := hr.decided before data rest idx hidx
    match h : r data idx with
    | (.ok value, mid) =>
        rw [h] at hfirst hshift
        rw [bind_ok h] at hdecided ⊢
        rw [bind_ok (hshift (by simp [Waits]))]
        exact (hnext value).decided before data rest mid hfirst.2 hdecided
    | (.error e, mid) =>
        rw [h] at hshift
        rw [bind_error h] at hdecided ⊢
        exact bind_error (hshift hdecided)
  waits before data idx hidx hwaits := by
    have hfirst := hr.bounds data idx hidx
    have hshift := hr.decided before data [] idx hidx
    have hwait := hr.waits before data idx hidx
    match h : r data idx with
    | (.ok value, mid) =>
        rw [h] at hfirst hshift
        rw [bind_ok h] at hwaits
        have hmid := hshift (by simp [Waits])
        rw [List.append_nil] at hmid
        rw [bind_ok hmid]
        exact (hnext value).waits before data mid hfirst.2 hwaits
    | (.error e, mid) =>
        rw [bind_error h] at hwaits
        rw [h] at hwait
        have hstill := hwait hwaits
        match h' : r (before ++ data) (before.length + idx) with
        | (.ok value, mid') =>
            rw [h'] at hstill
            exact False.elim hstill
        | (.error e', mid') =>
            rw [h'] at hstill
            rw [bind_error h']
            exact hstill

theorem Steady.ite {r s : Reader ε β α} (cond : Prop) [Decidable cond] (hr : Steady more r)
    (hs : Steady more s) : Steady more (if cond then r else s) := by
  split
  · exact hr
  · exact hs

theorem Steady.times {r : Reader ε β α} (hr : Steady more r) (n : Nat) : Steady more (times r n) := by
  induction n with
  | zero => exact .pure []
  | succ n ih => exact hr.bind fun value => ih.bind fun values => .pure _

-- Looking at an element and taking it: `peek` alone would not be in the way of
-- what follows, but `advance` alone could leave the buffer.
theorem Steady.next {wanting : List β → ε} (hmore : ∀ data, more (wanting data)) :
    Steady more (do let element ← peek wanting; advance; return element : Reader ε β β) where
  bounds data idx hidx := by
    by_cases hend : idx < data.length
    · have hpeek : peek wanting data idx = (.ok data[idx], idx) := by simp [peek, hend]
      rw [bind_ok hpeek]
      exact ⟨Nat.le_succ idx, hend⟩
    · have hpeek : peek wanting data idx = (.error (wanting data), idx) := by simp [peek, hend]
      rw [bind_error hpeek]
      exact ⟨Nat.le_refl _, hidx⟩
  decided before data rest idx hidx hdecided := by
    by_cases hend : idx < data.length
    · have hpeek : peek wanting data idx = (.ok data[idx], idx) := by simp [peek, hend]
      have hget : (before ++ (data ++ rest))[before.length + idx]? = some data[idx] := by
        rw [List.getElem?_append_right (Nat.le_add_right _ _), Nat.add_sub_cancel_left,
          List.getElem?_append_left hend, List.getElem?_eq_getElem hend]
      have hshift : peek wanting (before ++ (data ++ rest)) (before.length + idx) =
          (.ok data[idx], before.length + idx) := by simp [peek, hget]
      rw [bind_ok hpeek, bind_ok hshift]
      rfl
    · have hpeek : peek wanting data idx = (.error (wanting data), idx) := by simp [peek, hend]
      rw [bind_error hpeek] at hdecided
      exact absurd (hmore data) hdecided
  waits before data idx hidx hwaits := by
    by_cases hend : idx < data.length
    · have hpeek : peek wanting data idx = (.ok data[idx], idx) := by simp [peek, hend]
      rw [bind_ok hpeek] at hwaits
      exact False.elim hwaits
    · have hshift : peek wanting (before ++ data) (before.length + idx) =
          (.error (wanting (before ++ data)), before.length + idx) := by simp [peek, hend]
      rw [bind_error hshift]
      exact hmore _

theorem span_append {p : β → Bool} {list word : List β} (h : span p list = some word)
    (rest : List β) : span p (list ++ rest) = some word := by
  induction list generalizing word with
  | nil => cases h
  | cons element tail ih =>
      rw [List.cons_append]
      unfold span at h ⊢
      by_cases hp : p element
      · rw [if_pos hp] at h ⊢
        obtain ⟨inner, hinner, hword⟩ := Option.map_eq_some_iff.mp h
        rw [ih hinner, ← hword]
        rfl
      · rw [if_neg hp] at h ⊢
        exact h

theorem span_length {p : β → Bool} {list word : List β} (h : span p list = some word) :
    word.length < list.length := by
  induction list generalizing word with
  | nil => cases h
  | cons element tail ih =>
      unfold span at h
      by_cases hp : p element
      · rw [if_pos hp] at h
        obtain ⟨inner, hinner, hword⟩ := Option.map_eq_some_iff.mp h
        have hlen := ih hinner
        rw [← hword]
        simpa using hlen
      · rw [if_neg hp] at h
        cases h
        simp

-- The property holds up to the next element, which does not have it.
theorem span_word {p : β → Bool} {word : List β} (hword : ∀ element ∈ word, p element)
    {next : β} (hnext : p next = false) (rest : List β) :
    span p (word ++ next :: rest) = some word := by
  induction word with
  | nil => simp [span, hnext]
  | cons element tail ih =>
      have htail := ih fun other hother => hword other (by simp [hother])
      simp [span, hword element (by simp), htail]

theorem Steady.takeWhile {p : β → Bool} {wanting : List β → ε} (hmore : ∀ data, more (wanting data)) :
    Steady more (takeWhile p wanting) where
  bounds data idx hidx := by
    unfold Reader.takeWhile
    cases h : span p (data.drop idx) with
    | none => exact ⟨hidx, Nat.le_refl _⟩
    | some word =>
        have hlen := span_length h
        rw [List.length_drop] at hlen
        exact ⟨Nat.le_add_right _ _, by simp only; omega⟩
  decided before data rest idx hidx hdecided := by
    have hdrop : (before ++ (data ++ rest)).drop (before.length + idx) = data.drop idx ++ rest := by
      rw [← List.drop_drop, List.drop_left, List.drop_append_of_le_length hidx]
    unfold Reader.takeWhile at hdecided ⊢
    cases h : span p (data.drop idx) with
    | none =>
        rw [h] at hdecided
        exact absurd (hmore data) hdecided
    | some word =>
        rw [hdrop, span_append h rest]
        simp only [Nat.add_assoc]
  waits before data idx hidx hwaits := by
    have hdrop : (before ++ data).drop (before.length + idx) = data.drop idx := by
      rw [← List.drop_drop, List.drop_left]
    unfold Reader.takeWhile at hwaits ⊢
    rw [hdrop]
    cases h : span p (data.drop idx) with
    | none => exact hmore _
    | some word =>
        rw [h] at hwaits
        exact False.elim hwaits

-- A reader that starts with something that takes an element takes one itself.
theorem Progresses.bind {r : Reader ε β α} {next : α → Reader ε β γ} (hprogress : Progresses more r)
    (hsteady : Steady more r) (hnext : ∀ value, Steady more (next value)) :
    Progresses more (r >>= next) := by
  intro data idx hidx hdecided
  have hfirst := hprogress data idx hidx
  have hmid := hsteady.bounds data idx hidx
  match h : r data idx with
  | (.ok value, mid) =>
      rw [h] at hfirst hmid
      have hlast := (hnext value).bounds data mid hmid.2
      rw [bind_ok h]
      exact Nat.lt_of_lt_of_le (hfirst (by simp [Waits])) hlast.1
  | (.error e, mid) =>
      rw [bind_error h] at hdecided ⊢
      rw [h] at hfirst
      exact hfirst hdecided

theorem Progresses.next {wanting : List β → ε} (hmore : ∀ data, more (wanting data)) :
    Progresses more (do let element ← peek wanting; advance; return element : Reader ε β β) := by
  intro data idx hidx hdecided
  by_cases hend : idx < data.length
  · have hpeek : peek wanting data idx = (.ok data[idx], idx) := by simp [peek, hend]
    rw [bind_ok hpeek]
    exact Nat.lt_succ_self idx
  · have hpeek : peek wanting data idx = (.error (wanting data), idx) := by simp [peek, hend]
    rw [bind_error hpeek] at hdecided
    exact absurd (hmore data) hdecided

theorem Progresses.of_ok {r : Reader ε β α} (hprogress : Progresses more r) {data : List β}
    {idx next : Nat} {value : α} (hidx : idx ≤ data.length) (h : r data idx = (.ok value, next)) :
    idx < next := by
  have hnext := hprogress data idx hidx
  rw [h] at hnext
  exact hnext (by simp [Waits])

end Steady

section Reads

theorem Reads.pure (value : α) : Reads (pure value : Reader ε β α) [] value := fun _ _ => rfl

theorem Reads.bind {r : Reader ε β α} {next : α → Reader ε β γ} {word word' : List β} {value : α}
    {result : γ} (hr : Reads r word value) (hnext : Reads (next value) word' result) :
    Reads (r >>= next) (word ++ word') result := by
  intro before rest
  have hfirst := hr before (word' ++ rest)
  have hsecond := hnext (before ++ word) rest
  rw [List.append_assoc, bind_ok hfirst]
  rw [List.append_assoc, List.length_append] at hsecond
  rw [hsecond, List.length_append, Nat.add_assoc]

theorem Reads.next (wanting : List β → ε) (element : β) :
    Reads (do let element ← peek wanting; advance; return element) [element] element := by
  intro before rest
  have hpeek : peek wanting (before ++ ([element] ++ rest)) before.length =
      (.ok element, before.length) := by simp [peek]
  rw [bind_ok hpeek]
  rfl

theorem Reads.times {r : Reader ε β α} {word : α → List β} {values : List α}
    (hr : ∀ value ∈ values, Reads r (word value) value) :
    Reads (times r values.length) (values.flatMap word) values := by
  induction values with
  | nil => exact .pure []
  | cons value values ih =>
      have hrest := ih fun other hother => hr other (by simp [hother])
      have hvalues : Reads (do let values ← Reader.times r values.length; return value :: values)
          (values.flatMap word ++ []) (value :: values) := hrest.bind (.pure _)
      rw [List.append_nil] at hvalues
      exact (hr value (by simp)).bind hvalues

end Reads

end CloudLabs.Parsing.Reader
