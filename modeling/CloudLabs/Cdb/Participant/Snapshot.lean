import CloudLabs.Cdb.Participant
import CloudLabs.Cdb.Record.Theorems

namespace CloudLabs.Cdb.Participant

-- A string whose length is a short.
def Short (str : Bytes) : Prop := str.length < 32768

def ShortEntries (store : Store) : Prop :=
  ∀ key value : Bytes, store[key]? = some value → Short key ∧ Short value

-- RECOVER with this participant's snapshot makes any other one equal to it, if
-- the keys to delete cover what the other one holds beyond it.
def Transfers (donor : Participant) : Prop :=
  ∀ (target : Participant) (delKeys : KeySet),
    (∀ key : Bytes, key ∈ target.store → key ∉ donor.store → key ∈ delKeys) →
    ∃ q, target.recover donor.getSnapshot delKeys = .ok (true, q) ∧ q.store = donor.store

section Decode

theorem decodeShort_encode {size : Nat} (h : size < 32768) :
    decodeShort size.toUInt8 (size / 256).toUInt8 = size := by
  have hlow : size.toUInt8.toNat = size % 256 := UInt8.toNat_ofNat'
  have hhigh : (size / 256).toUInt8.toNat = size / 256 % 256 := UInt8.toNat_ofNat'
  have hsize : size % 256 + 256 * (size / 256 % 256) = size := by omega
  rw [decodeShort]
  simp only [hlow, hhigh, hsize, if_pos h]

theorem readItem_encode {str : Bytes} (h : Short str) (rest : Bytes) :
    readItem (encodeShort str.length ++ (str ++ rest)) = .ok (some (str, rest)) := by
  have hsize := decodeShort_encode h
  have hfits : ¬ ((str.length : Int) < 0 ∨ ((str ++ rest).length : Int) < str.length) := by
    simp
  simp only [encodeShort, List.cons_append, List.nil_append, readItem, hsize, if_neg hfits,
    Int.toNat_natCast, List.take_left', List.drop_left', pure_eq_ok]

-- A string that is read back has a short as its length, whatever was sent.
theorem short_of_readItem {data str rest : Bytes} (h : readItem data = .ok (some (str, rest))) :
    Short str := by
  unfold readItem at h
  split at h
  · rename_i low high tail
    have hsize : decodeShort low high < 32768 := by
      unfold decodeShort
      have hlow := low.toNat_lt
      have hhigh := high.toNat_lt
      simp only
      split <;> omega
    simp only at h
    split at h
    · cases h
    · cases h
      simp only [Short, List.length_take]
      omega
  · cases h

theorem encodePair_append (key value rest : Bytes) :
    encodePair key value ++ rest =
      encodeShort key.length ++ (key ++ (encodeShort value.length ++ (value ++ rest))) := by
  simp [encodePair, List.append_assoc]

theorem recoverPairs_encode (store : Store) (fuel : Nat) {pairs : List (Bytes × Bytes)}
    (hfuel : pairs.length ≤ fuel) (hshort : ∀ pair ∈ pairs, Short pair.1 ∧ Short pair.2) :
    recoverPairs store fuel (pairs.flatMap fun pair => encodePair pair.1 pair.2) =
      .ok (true, store.insertMany pairs) := by
  induction pairs generalizing store fuel with
  | nil => cases fuel <;> rfl
  | cons pair pairs ih =>
      obtain ⟨key, value⟩ := pair
      obtain ⟨hkey, hvalue⟩ := hshort (key, value) (by simp)
      cases fuel with
      | zero => simp at hfuel
      | succ fuel =>
          have hrest := ih (store.insert key value) fuel (by simpa using hfuel)
            fun other hother => hshort other (by simp [hother])
          have hne : encodeShort key.length ++ (key ++ (encodeShort value.length ++
              (value ++ pairs.flatMap fun pair => encodePair pair.1 pair.2))) ≠ [] := by
            simp [encodeShort]
          rw [List.flatMap_cons, encodePair_append, recoverPairs, if_neg hne,
            readItem_encode hkey, ok_bind]
          simp only [readItem_encode hvalue, ok_bind, hrest, Std.ExtTreeMap.insertMany_cons]

theorem length_pairs_le (pairs : List (Bytes × Bytes)) :
    pairs.length ≤ (pairs.flatMap fun pair => encodePair pair.1 pair.2).length := by
  induction pairs with
  | nil => exact Nat.le_refl _
  | cons pair pairs ih =>
      have hpair : 1 ≤ (encodePair pair.1 pair.2).length := by
        simp [encodePair, encodeShort]
      simp only [List.flatMap_cons, List.length_append, List.length_cons]
      omega

-- RECOVER puts short entries only.
theorem ShortEntries.recoverPairs {store last : Store} {fuel : Nat} {data : Bytes}
    {ok : Bool} (h : ShortEntries store) (hrecover : recoverPairs store fuel data = .ok (ok, last)) :
    ShortEntries last := by
  induction fuel generalizing store data with
  | zero =>
      cases hrecover
      exact h
  | succ fuel ih =>
      rw [Participant.recoverPairs] at hrecover
      split at hrecover
      · cases hrecover
        exact h
      cases hkey : readItem data with
      | error fault => simp [hkey] at hrecover
      | ok item =>
          match item with
          | none =>
              simp only [hkey, ok_bind, pure_eq_ok, Except.ok.injEq, Prod.mk.injEq] at hrecover
              exact hrecover.2 ▸ h
          | some (key, afterKey) =>
              cases hvalue : readItem afterKey with
              | error fault => simp [hkey, hvalue] at hrecover
              | ok item =>
                  match item with
                  | none =>
                      simp only [hkey, hvalue, ok_bind, pure_eq_ok, Except.ok.injEq,
                        Prod.mk.injEq] at hrecover
                      exact hrecover.2 ▸ h
                  | some (value, afterValue) =>
                      simp only [hkey, hvalue, ok_bind] at hrecover
                      have hput : ShortEntries (store.insert key value) := by
                        intro other found hfound
                        rw [Std.ExtTreeMap.getElem?_insert] at hfound
                        split at hfound
                        · rename_i heq
                          cases hfound
                          rw [← Std.LawfulEqCmp.eq_of_compare heq]
                          exact ⟨short_of_readItem hkey, short_of_readItem hvalue⟩
                        · exact h other found hfound
                      exact ih hput hrecover

end Decode

section Transfer

theorem eraseAll_getElem? (keys : List Bytes) (store : Store) (key : Bytes) :
    (keys.foldl (fun store key => store.erase key) store)[key]? =
      if key ∈ keys then none else store[key]? := by
  induction keys generalizing store with
  | nil => simp
  | cons head rest ih =>
      rw [List.foldl_cons, ih, Std.ExtTreeMap.getElem?_erase]
      by_cases hrest : key ∈ rest
      · simp [hrest]
      · by_cases hhead : head = key
        · simp [hhead]
        · simp [hrest, hhead, Ne.symm hhead]

-- The target's own entries are deleted or put again.
theorem insertMany_eq {store target : Store} {delKeys : KeySet}
    (hcover : ∀ key : Bytes, key ∈ target → key ∉ store → key ∈ delKeys) :
    (delKeys.toList.foldl (fun store key => store.erase key) target).insertMany store.toList =
      store := by
  apply Std.ExtTreeMap.ext_getElem?
  intro key
  cases hkey : store[key]? with
  | some value =>
      exact Std.ExtTreeMap.getElem?_insertMany_list_of_mem Std.ReflCmp.compare_self
        Std.ExtTreeMap.distinct_keys_toList
        (Std.ExtTreeMap.mem_toList_iff_getElem?_eq_some.mpr hkey)
  | none =>
      have habsent : key ∉ store := by simpa using hkey
      have hnot : (store.toList.map Prod.fst).contains key = false := by
        simpa using habsent
      rw [Std.ExtTreeMap.getElem?_insertMany_list_of_contains_eq_false hnot, eraseAll_getElem?]
      by_cases hdel : key ∈ delKeys
      · simp [hdel]
      · have htarget : key ∉ target := fun hmem => hdel (hcover key hmem habsent)
        simpa [hdel] using htarget

theorem transfers_of_short {donor : Participant} (h : ShortEntries donor.store) : donor.Transfers := by
  intro target delKeys hcover
  have hshort : ∀ pair ∈ donor.store.toList, Short pair.1 ∧ Short pair.2 := fun pair hpair =>
    h pair.1 pair.2 (Std.ExtTreeMap.mem_toList_iff_getElem?_eq_some.mp hpair)
  have hpairs := recoverPairs_encode (delKeys.toList.foldl (fun store key => store.erase key) target.store)
    _ (length_pairs_le donor.store.toList) hshort
  rw [insertMany_eq hcover] at hpairs
  refine ⟨{ target with store := donor.store }, ?_, rfl⟩
  simp only [recover, getSnapshot, hpairs, ok_bind, pure_eq_ok]

-- A transfer to an empty participant shows that the donor's entries are short.
theorem short_of_transfers {donor : Participant} (h : donor.Transfers) : ShortEntries donor.store := by
  obtain ⟨q, hrecover, hstore⟩ := h { donor with store := ∅ } ∅ (by simp)
  have hempty : ShortEntries ∅ := fun key value hfound => by simp at hfound
  simp only [recover] at hrecover
  cases hpairs : recoverPairs ((∅ : KeySet).toList.foldl (fun store key => store.erase key) ∅)
      donor.getSnapshot.length donor.getSnapshot with
  | error fault => simp [hpairs] at hrecover
  | ok result =>
      obtain ⟨ok, last⟩ := result
      simp only [hpairs, ok_bind, pure_eq_ok, Except.ok.injEq, Prod.mk.injEq] at hrecover
      obtain ⟨-, rfl⟩ := hrecover
      rw [← hstore]
      exact hempty.recoverPairs hpairs

theorem transfers_iff (donor : Participant) : donor.Transfers ↔ ShortEntries donor.store :=
  ⟨short_of_transfers, transfers_of_short⟩

-- A value of 32768 bytes is more than a short can count.
theorem long_not_transfers :
    ¬ (⟨(∅ : Store).insert (bytes "k") (List.replicate 32768 0), 1, [], ⟨[], [], 0, ∅, ∅⟩⟩ :
      Participant).Transfers := by
  intro htransfers
  have hshort := short_of_transfers htransfers (bytes "k") (List.replicate 32768 0)
    Std.ExtTreeMap.getElem?_insert_self
  have hlength := hshort.2
  rw [Short, List.length_replicate] at hlength
  exact absurd hlength (by decide)

end Transfer

end CloudLabs.Cdb.Participant
