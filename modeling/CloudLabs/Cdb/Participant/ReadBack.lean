import CloudLabs.Cdb.CommandParser.RoundTrip
import CloudLabs.Cdb.Participant.Theorems

namespace CloudLabs.Cdb.Participant

theorem join_getlines_iff (value : Bytes) :
    [32].intercalate (getlines value) = value ↔ value.getLast? ≠ some 32 := by
  unfold getlines
  rw [Parsing.intercalate_split]
  constructor
  · intro heq hlast
    rw [if_pos hlast] at heq
    have hlen := congrArg List.length heq
    have hne : value ≠ [] := by
      intro hnil
      simp [hnil] at hlast
    have hpos := List.length_pos_iff.mpr hne
    rw [List.length_dropLast] at hlen
    omega
  · intro hlast
    rw [if_neg hlast]

-- The last part ends with a blank, or it is empty behind a blank.
def EndsInBlank (part : Bytes) (parts : List Bytes) : Prop :=
  (parts.getLastD part).getLast? = some 32 ∨ parts.getLastD part = [] ∧ parts ≠ []

instance (part : Bytes) (parts : List Bytes) : Decidable (EndsInBlank part parts) :=
  inferInstanceAs (Decidable (_ ∨ _))

theorem joinParts_getLast? (part : Bytes) (parts : List Bytes) :
    (joinParts part parts).getLast? = some 32 ↔ EndsInBlank part parts := by
  induction parts generalizing part with
  | nil => simp [joinParts, EndsInBlank]
  | cons next parts ih =>
      have hjoin : joinParts part (next :: parts) = part ++ 32 :: joinParts next parts := by
        simp [joinParts, List.intercalate_cons_cons]
      have hends : EndsInBlank part (next :: parts) ↔
          EndsInBlank next parts ∨ next = [] ∧ parts = [] := by
        cases parts with
        | nil => simp [EndsInBlank]
        | cons other parts =>
            have hpart : (next :: other :: parts).getLastD part = (other :: parts).getLastD next := rfl
            unfold EndsInBlank
            rw [hpart]
            simp
      rw [hjoin, hends, ← ih]
      cases hnext : joinParts next parts with
      | nil =>
          have hempty : next = [] ∧ parts = [] := by
            rw [joinParts_eq] at hnext
            obtain ⟨hfirst, hrest⟩ := List.append_eq_nil_iff.mp hnext
            cases parts with
            | nil => exact ⟨hfirst, rfl⟩
            | cons other parts => simp at hrest
          simp [hempty]
      | cons byte rest =>
          have hsome : ¬ (next = [] ∧ parts = []) := by
            rintro ⟨rfl, rfl⟩
            simp [joinParts] at hnext
          simp [hsome]

-- The reply is an array whose elements, joined by blanks, are the value.
def ReadsBack (reply value : Bytes) : Prop :=
  ∃ elements, reply = encodeArray elements ∧ [32].intercalate elements = value

theorem encodeResult_readsBack (value : Bytes) :
    ReadsBack (encodeResult value) value ↔ value.getLast? ≠ some 32 := by
  rw [← join_getlines_iff]
  constructor
  · rintro ⟨elements, hreply, hjoin⟩
    rw [encodeResult_eq] at hreply
    rw [encodeArray_injective hreply]
    exact hjoin
  · intro hjoin
    exact ⟨getlines value, encodeResult_eq value, hjoin⟩

-- A SET of these parts is pending, and its COMMIT arrives.
theorem commit_readsBack_iff (p : Participant) (key part : Bytes) (parts : List Bytes)
    (rest : List (Option Command))
    (hpending : p.dbRequests =
      some ((ClientCommand.set key part parts).toCommand.setId p.nextId) :: rest) :
    (∃ ret q, p.commit p.nextId = .ok (ret, q) ∧ ReadsBack (q.get ⟨key⟩) (joinParts part parts)) ↔
      ¬ EndsInBlank part parts := by
  have hid : ((ClientCommand.set key part parts).toCommand.setId p.nextId).id = p.nextId := rfl
  have hdispatch : dispatch p.store ((ClientCommand.set key part parts).toCommand.setId p.nextId) =
      .ok (updateOkString, p.store.insert key (joinParts part parts)) := rfl
  obtain ⟨q, hcommit, hstore, -, -⟩ := commit_of_pending rfl hpending hid hdispatch
  have hget : q.get ⟨key⟩ = encodeResult (joinParts part parts) := by
    rw [get, hstore, Std.ExtTreeMap.getElem?_insert_self]
  rw [← joinParts_getLast?, ← ne_eq, ← encodeResult_readsBack, ← hget]
  constructor
  · rintro ⟨ret, q', hcommit', hreads⟩
    rw [hcommit] at hcommit'
    cases hcommit'
    exact hreads
  · intro hreads
    exact ⟨updateOkString, q, hcommit, hreads⟩

-- The participant that has prepared the SET of these parts as its first update.
def prepared (key part : Bytes) (parts : List Bytes) : Participant where
  store := ∅
  nextId := 1
  dbRequests := [some (.set ⟨1, key, joinParts part parts⟩)]
  rManager := ⟨[], [], 0, ∅, ∅⟩

theorem commit_readsBack_iff_blanks :
    ∃ ret q, (prepared (bytes "k") (bytes " a ") [[], bytes "b"]).commit 1 = .ok (ret, q) ∧
      ReadsBack (q.get ⟨bytes "k"⟩) (joinParts (bytes " a ") [[], bytes "b"]) :=
  (commit_readsBack_iff (prepared (bytes "k") (bytes " a ") [[], bytes "b"]) (bytes "k") (bytes " a ")
    [[], bytes "b"] [] rfl).mpr (by decide)

-- The value "a" and an empty part behind it: "a " is read back as "a".
theorem trailing_blank_not_readsBack :
    ∃ ret q, (prepared (bytes "k") (bytes "a") [[]]).commit 1 = .ok (ret, q) ∧
      q.get ⟨bytes "k"⟩ = encodeArray [bytes "a"] ∧
      ¬ ReadsBack (q.get ⟨bytes "k"⟩) (joinParts (bytes "a") [[]]) := by
  refine ⟨_, _, rfl, rfl, ?_⟩
  have hread : encodeArray [bytes "a"] = encodeResult (joinParts (bytes "a") [[]]) := rfl
  rintro ⟨elements, hreply, hjoin⟩
  have helements := encodeArray_injective (show encodeArray [bytes "a"] = encodeArray elements from hreply)
  rw [← helements] at hjoin
  exact absurd hjoin (by decide)

end CloudLabs.Cdb.Participant
