import CloudLabs.Cdb.Participant.Snapshot

namespace CloudLabs.Cdb.Participant

-- A string behind its length.
def encodeItem (str : Bytes) : Bytes := encodeShort str.length ++ str

-- A string whose length two bytes can hold.
def Measured (str : Bytes) : Prop := str.length < 65536

-- Complete pairs of keys and values, each behind its length.
def Pairs (data : Bytes) : Prop :=
  ∃ pairs : List (Bytes × Bytes), (∀ pair ∈ pairs, Measured pair.1 ∧ Measured pair.2) ∧
    data = pairs.flatMap fun pair => encodePair pair.1 pair.2

-- Complete strings that a short can count, and less than a length behind them.
def Items (data : Bytes) : Prop :=
  ∃ (strs : List Bytes) (rest : Bytes), (∀ str ∈ strs, Short str) ∧ data = strs.flatMap encodeItem ++ rest ∧ rest.length < 2

-- RECOVER returns, and it returns false for what is not a snapshot.
def RecoversSafely (data : Bytes) (delKeys : KeySet) : Prop :=
  ∀ p : Participant, ∃ ok q, p.recover data delKeys = .ok (ok, q) ∧ (¬ Pairs data → ok = false)

theorem encodePair_eq (key value : Bytes) : encodePair key value = encodeItem key ++ encodeItem value := by
  simp [encodePair, encodeItem, List.append_assoc]

theorem encodeShort_decode (low high : UInt8) {size : Nat} (h : decodeShort low high = size) :
    encodeShort size = [low, high] := by
  have hlow := low.toNat_lt
  have hhigh := high.toNat_lt
  have hsize : size = low.toNat + 256 * high.toNat := by
    unfold decodeShort at h
    simp only at h
    split at h <;> omega
  have hlowByte : size.toUInt8 = low := by
    apply UInt8.toNat_inj.mp
    have hnat : size.toUInt8.toNat = size % 256 := UInt8.toNat_ofNat'
    omega
  have hhighByte : (size / 256).toUInt8 = high := by
    apply UInt8.toNat_inj.mp
    have hnat : (size / 256).toUInt8.toNat = size / 256 % 256 := UInt8.toNat_ofNat'
    omega
  rw [encodeShort, hlowByte, hhighByte]

section Read

variable {data str rest : Bytes}

theorem readItem_some : readItem data = .ok (some (str, rest)) ↔ Short str ∧ data = encodeItem str ++ rest := by
  constructor
  · intro h
    have hshort := short_of_readItem h
    unfold readItem at h
    split at h
    · rename_i low high tail
      simp only at h
      split at h
      · cases h
      · rename_i hfits
        cases h
        have hlen : (tail.take (decodeShort low high).toNat).length = (decodeShort low high).toNat := by
          rw [List.length_take]
          omega
        have hsize : decodeShort low high = ((tail.take (decodeShort low high).toNat).length : Nat) := by
          rw [hlen]
          omega
        refine ⟨hshort, ?_⟩
        rw [encodeItem, encodeShort_decode low high hsize, List.append_assoc, List.take_append_drop]
        rfl
    · cases h
  · rintro ⟨hshort, rfl⟩
    rw [encodeItem, List.append_assoc]
    exact readItem_encode hshort rest

theorem readItem_none : readItem data = .ok none ↔ data.length < 2 := by
  unfold readItem
  match data with
  | [] => exact ⟨fun _ => by simp, fun _ => rfl⟩
  | [_] => exact ⟨fun _ => by simp, fun _ => rfl⟩
  | low :: high :: tail =>
      refine ⟨fun h => ?_, fun h => ?_⟩
      · simp only at h
        split at h <;> cases h
      · simp only [List.length_cons] at h
        omega

end Read

section Items

variable {data str : Bytes}

theorem Items.of_short (h : data.length < 2) : Items data := ⟨[], data, by simp, rfl, h⟩

theorem items_encodeItem (hshort : Short str) (rest : Bytes) : Items (encodeItem str ++ rest) ↔ Items rest := by
  constructor
  · rintro ⟨strs, tail, hstrs, hdata, htail⟩
    cases strs with
    | nil =>
        have hlen := congrArg List.length hdata
        simp only [encodeItem, encodeShort, List.flatMap_nil, List.nil_append, List.length_append,
          List.length_cons] at hlen
        omega
    | cons first strs =>
        rw [List.flatMap_cons, List.append_assoc] at hdata
        have hfirst := readItem_some.mpr ⟨hstrs first (by simp), hdata⟩
        rw [readItem_some.mpr ⟨hshort, rfl⟩] at hfirst
        simp only [Except.ok.injEq, Option.some.injEq, Prod.mk.injEq] at hfirst
        exact ⟨strs, tail, fun other hother => hstrs other (by simp [hother]), hfirst.2, htail⟩
  · rintro ⟨strs, tail, hstrs, rfl, htail⟩
    refine ⟨str :: strs, tail, ?_, by rw [List.flatMap_cons, List.append_assoc], htail⟩
    intro other hother
    rcases List.mem_cons.mp hother with rfl | hother
    · exact hshort
    · exact hstrs other hother

-- The first string of such data can be read.
theorem Items.readItem (h : Items data) :
    Participant.readItem data = .ok none ∨
      ∃ str rest, Participant.readItem data = .ok (some (str, rest)) ∧ Items rest := by
  obtain ⟨strs, tail, hstrs, rfl, htail⟩ := h
  cases strs with
  | nil => exact .inl (readItem_none.mpr htail)
  | cons first strs =>
      have hrest : Items (strs.flatMap encodeItem ++ tail) :=
        ⟨strs, tail, fun other hother => hstrs other (by simp [hother]), rfl, htail⟩
      refine .inr ⟨first, _, readItem_some.mpr ⟨hstrs first (by simp), ?_⟩, hrest⟩
      rw [List.flatMap_cons, List.append_assoc]

theorem Pairs.cons {key value rest : Bytes} (hkey : Short key) (hvalue : Short value) (h : Pairs rest) :
    Pairs (encodeItem key ++ (encodeItem value ++ rest)) := by
  obtain ⟨pairs, hpairs, rfl⟩ := h
  refine ⟨(key, value) :: pairs, fun pair hpair => ?_, ?_⟩
  · rcases List.mem_cons.mp hpair with rfl | hpair
    · exact ⟨Nat.lt_trans hkey (by decide), Nat.lt_trans hvalue (by decide)⟩
    · exact hpairs pair hpair
  · rw [List.flatMap_cons, encodePair_eq, List.append_assoc]

end Items

section Recover

-- The loop ends after at most one round for each byte, and never leaves the data
-- if and only if these are items. It returns true for pairs only.
theorem recoverPairs_items {fuel : Nat} {data : Bytes} (store : Store) (hfuel : data.length ≤ fuel)
    (h : Items data) :
    ∃ ok last, recoverPairs store fuel data = .ok (ok, last) ∧ (ok = true → Pairs data) := by
  have hnil : Pairs [] := ⟨[], by simp, rfl⟩
  induction fuel generalizing store data with
  | zero =>
      have hdata : data = [] := List.length_eq_zero_iff.mp (Nat.le_zero.mp hfuel)
      exact ⟨true, store, rfl, fun _ => hdata ▸ hnil⟩
  | succ fuel ih =>
      unfold recoverPairs
      by_cases hdata : data = []
      · rw [if_pos hdata]
        exact ⟨true, store, rfl, fun _ => hdata ▸ hnil⟩
      rw [if_neg hdata]
      rcases h.readItem with hkey | ⟨key, rest, hkey, hrest⟩
      · rw [hkey]
        exact ⟨false, store, rfl, Bool.false_ne_true.elim⟩
      rcases hrest.readItem with hvalue | ⟨value, rest', hvalue, hrest'⟩
      · simp only [hkey, hvalue, ok_bind]
        exact ⟨false, store, rfl, Bool.false_ne_true.elim⟩
      obtain ⟨hshortKey, rfl⟩ := readItem_some.mp hkey
      obtain ⟨hshortValue, rfl⟩ := readItem_some.mp hvalue
      have hlen : rest'.length ≤ fuel := by
        simp only [encodeItem, encodeShort, List.length_append, List.length_cons] at hfuel
        omega
      obtain ⟨ok, last, hrun, hpairs⟩ := ih (store.insert key value) hlen hrest'
      refine ⟨ok, last, ?_, fun hok => .cons hshortKey hshortValue (hpairs hok)⟩
      simp only [hkey, hvalue, ok_bind, hrun]

theorem items_of_recoverPairs {fuel : Nat} {data : Bytes} {store last : Store} {ok : Bool}
    (hfuel : data.length ≤ fuel) (h : recoverPairs store fuel data = .ok (ok, last)) : Items data := by
  induction fuel generalizing store data with
  | zero =>
      have hdata : data = [] := List.length_eq_zero_iff.mp (Nat.le_zero.mp hfuel)
      rw [hdata]
      exact .of_short (by simp)
  | succ fuel ih =>
      unfold recoverPairs at h
      by_cases hdata : data = []
      · rw [hdata]
        exact .of_short (by simp)
      rw [if_neg hdata] at h
      obtain ⟨- | ⟨key, rest⟩, hkey, hvalues⟩ := ok_of_bind h
      · exact .of_short (readItem_none.mp hkey)
      obtain ⟨hshortKey, rfl⟩ := readItem_some.mp hkey
      rw [items_encodeItem hshortKey]
      obtain ⟨- | ⟨value, rest'⟩, hvalue, hpairs⟩ := ok_of_bind hvalues
      · exact .of_short (readItem_none.mp hvalue)
      obtain ⟨hshortValue, rfl⟩ := readItem_some.mp hvalue
      rw [items_encodeItem hshortValue]
      have hlen : rest'.length ≤ fuel := by
        simp only [encodeItem, encodeShort, List.length_append, List.length_cons] at hfuel
        omega
      exact ih hlen hpairs

theorem recoversSafely_iff (data : Bytes) (delKeys : KeySet) : RecoversSafely data delKeys ↔ Items data := by
  constructor
  · intro hsafe
    obtain ⟨ok, q, hrecover, -⟩ := hsafe ⟨∅, 0, [], ⟨[], [], 0, ∅, ∅⟩⟩
    obtain ⟨⟨_, _⟩, hpairs, -⟩ := ok_of_bind hrecover
    exact items_of_recoverPairs (Nat.le_refl _) hpairs
  · intro hitems p
    obtain ⟨ok, last, hpairs, htrue⟩ := recoverPairs_items
      (delKeys.toList.foldl (fun store key => store.erase key) p.store) (Nat.le_refl _) hitems
    refine ⟨ok, { p with store := last }, by simp [recover, hpairs], fun hnot => ?_⟩
    cases ok with
    | false => rfl
    | true => exact absurd (htrue rfl) hnot

-- A length of -1.
theorem negative_not_recoversSafely : ¬ RecoversSafely [255, 255] ∅ := by
  intro hsafe
  obtain ⟨ok, q, hrecover, -⟩ := hsafe ⟨∅, 0, [], ⟨[], [], 0, ∅, ∅⟩⟩
  cases hrecover

end Recover

end CloudLabs.Cdb.Participant
