import CloudLabs.Cdb.Record.Commands

namespace CloudLabs.Cdb

namespace Record

-- parse reads nine bytes of the vector, or finds out that there are fewer.
def ParsesSafely (binary : Bytes) : Prop :=
  match parse binary with
  | .ok r => recordSize ≤ binary.length ∧ r.toBinary = binary.take recordSize
  | .error (.logError _) => binary.length < recordSize
  | .error _ => False

-- Only the first nine bytes matter.
theorem parse_append (r : Record) (rest : Bytes) : parse (r.toBinary ++ rest) = .ok r := by
  have hstatus : decodeUint8 (r.toBinary ++ rest) 0 = .ok (r.status, 1) := rfl
  have hid : decodeUint32 (r.toBinary ++ rest) 1 = .ok (r.id, 5) :=
    decodeUint32_encodeUint32 [r.status] (encodeUint32 r.nextId ++ rest) r.id
  have hnext : decodeUint32 (r.toBinary ++ rest) 5 = .ok (r.nextId, 9) :=
    decodeUint32_encodeUint32 (encodeUint8 r.status ++ encodeUint32 r.id) rest r.nextId
  simp only [parse, hstatus, hid, hnext, ok_bind, pure_eq_ok]

theorem decodeUint32_short (binary : Bytes) (idx : Nat) (h : binary.length < idx + 4) :
    decodeUint32 binary idx = .error (.logError "not enough bytes") := by
  unfold decodeUint32
  rw [if_pos h]
  rfl

theorem decodeUint32_long (binary : Bytes) (idx : Nat) (h : idx + 4 ≤ binary.length) :
    ∃ v, decodeUint32 binary idx = .ok (v, idx + 4) := by
  have hlen : 4 ≤ (binary.drop idx).length := by
    rw [List.length_drop]
    omega
  unfold decodeUint32
  rw [if_neg (by omega)]
  match hdrop : binary.drop idx, hlen with
  | b0 :: b1 :: b2 :: b3 :: _, _ => exact ⟨_, rfl⟩

theorem parse_short {binary : Bytes} (hne : binary ≠ []) (hlen : binary.length < recordSize) :
    parse binary = .error (.logError "not enough bytes") := by
  have hlen' : binary.length < 9 := hlen
  obtain ⟨byte, rest, rfl⟩ := List.exists_cons_of_ne_nil hne
  have hstatus : decodeUint8 (byte :: rest) 0 = .ok (byte, 1) := rfl
  unfold parse
  rw [hstatus, ok_bind]
  by_cases hid : (byte :: rest).length < 1 + 4
  · simp only [decodeUint32_short _ _ hid, error_bind]
  · obtain ⟨id, hdecode⟩ := decodeUint32_long (byte :: rest) 1 (by omega)
    have hnext := decodeUint32_short (byte :: rest) (1 + 4) (by omega)
    simp only [hdecode, ok_bind, hnext, error_bind]

theorem parsesSafely_iff (binary : Bytes) : ParsesSafely binary ↔ binary ≠ [] := by
  unfold ParsesSafely
  by_cases hlen : recordSize ≤ binary.length
  · obtain ⟨r, hr⟩ := exists_toBinary (binary.take recordSize) (by simpa using hlen)
    have hparse := parse_append r (binary.drop recordSize)
    rw [hr, List.take_append_drop] at hparse
    have hne : binary ≠ [] := by
      intro hempty
      rw [hempty] at hlen
      exact absurd hlen (by decide)
    rw [hparse]
    exact ⟨fun _ => hne, fun _ => ⟨hlen, hr⟩⟩
  · have hshort : binary.length < recordSize := by omega
    by_cases hne : binary = []
    · -- The guard lets the index through, and the byte is read past the end.
      rw [hne]
      exact ⟨False.elim, fun h => absurd rfl h⟩
    · rw [parse_short hne hshort]
      exact ⟨fun _ => hne, fun _ => hshort⟩

end Record

namespace RecordManager

-- All complete records are loaded in the order of the file, or a log error is
-- thrown. Reading beyond the file is neither.
def LoadsSafely (content : Bytes) : Prop :=
  ∀ cmdContent, match load content cmdContent with
    | .ok m => ∃ rs rest, content = fileOf rs ++ rest ∧ rest.length < Record.recordSize ∧
        (m.nextId, m.records) = rs.foldl replay (0, ∅)
    | .error (.logError _) => True
    | .error _ => False

-- A file is a sequence of records and a part of one.
theorem exists_records (content : Bytes) :
    ∃ rs rest, content = fileOf rs ++ rest ∧ rest.length < Record.recordSize := by
  induction hn : content.length using Nat.strong_induction_on generalizing content with
  | _ n ih =>
      by_cases hlen : content.length < Record.recordSize
      · exact ⟨[], content, rfl, hlen⟩
      · have hsize : Record.recordSize ≤ content.length := by omega
        obtain ⟨r, hr⟩ := Record.exists_toBinary (content.take Record.recordSize) (by simpa using hsize)
        have hdrop : (content.drop Record.recordSize).length < n := by
          rw [List.length_drop]
          unfold Record.recordSize at *
          omega
        obtain ⟨rs, rest, hrest, hshort⟩ := ih _ hdrop (content.drop Record.recordSize) rfl
        refine ⟨r :: rs, rest, ?_, hshort⟩
        rw [fileOf_cons, List.append_assoc, ← hrest, hr, List.take_append_drop]

-- The last round of the loop copies nine bytes from where there are fewer.
theorem loadRecords_torn (before rest : Bytes) (rs : List Record) (fuel : Nat)
    (state : UInt32 × IdMap Record) (hfuel : rs.length < fuel) (hne : rest ≠ [])
    (hshort : rest.length < Record.recordSize) :
    loadRecords (before ++ (fileOf rs ++ rest)) fuel before.length state = .error .outOfBounds := by
  have hpos := List.length_pos_iff.mpr hne
  induction rs generalizing before fuel state with
  | nil =>
      cases fuel with
      | zero => simp at hfuel
      | succ fuel =>
          rw [loadRecords, if_pos, if_pos]
          · rfl
          · simpa using hshort
          · simpa using hpos
  | cons r rs ih =>
      cases fuel with
      | zero => simp at hfuel
      | succ fuel =>
          have hdata : before ++ (fileOf (r :: rs) ++ rest) = before ++ r.toBinary ++ (fileOf rs ++ rest) := by
            simp [List.append_assoc]
          have hrest := ih (before ++ r.toBinary) fuel (replay state r) (by simpa using hfuel)
          have hslice : ((before ++ (fileOf (r :: rs) ++ rest)).drop before.length).take Record.recordSize =
              r.toBinary := by
            rw [List.drop_left, fileOf_cons, List.append_assoc]
            exact List.take_left' rfl
          have hstart : before.length < (before ++ (fileOf (r :: rs) ++ rest)).length := by
            simp only [fileOf_cons, List.length_append, Record.length_toBinary, Record.recordSize]
            omega
          have hend : ¬ (before ++ (fileOf (r :: rs) ++ rest)).length < before.length + Record.recordSize := by
            simp only [fileOf_cons, List.length_append, Record.length_toBinary]
            omega
          rw [loadRecords, if_pos hstart, if_neg hend, hslice, Record.parse_toBinary, ok_bind, hdata]
          rw [List.length_append, Record.length_toBinary] at hrest
          exact hrest

theorem loadsSafely_iff (content : Bytes) :
    LoadsSafely content ↔ content.length % Record.recordSize = 0 := by
  obtain ⟨rs, rest, rfl, hshort⟩ := exists_records content
  have hlen : (fileOf rs ++ rest).length % Record.recordSize = rest.length := by
    rw [List.length_append, length_fileOf, Nat.mul_add_mod, Nat.mod_eq_of_lt hshort]
  rw [hlen]
  by_cases hne : rest = []
  · subst hne
    rw [List.append_nil]
    refine ⟨fun _ => rfl, fun _ cmdContent => ?_⟩
    rw [load_fileOf]
    exact ⟨rs, [], by simp, hshort, rfl⟩
  · have hfuel : rs.length < (fileOf rs ++ rest).length := by
      have hpos := List.length_pos_iff.mpr hne
      rw [List.length_append, length_fileOf, Record.recordSize]
      omega
    have htorn := loadRecords_torn [] rest rs _ (0, ∅) hfuel hne hshort
    have hload : load (fileOf rs ++ rest) [] = .error .outOfBounds := by
      simp only [List.nil_append, List.length_nil] at htorn
      simp only [load, FStream.readToEnd, List.drop_zero, htorn, error_bind]
    constructor
    · intro hsafe
      have hnone := hsafe []
      rw [hload] at hnone
      exact hnone.elim
    · intro hzero
      exact absurd (List.length_eq_zero_iff.mp hzero) hne

-- The loop and the decoders together: a file is loaded safely if and only if its
-- length is a multiple of nine, a vector is parsed safely if and only if it is
-- not empty.
theorem safe_iff (content binary : Bytes) :
    (LoadsSafely content ↔ content.length % Record.recordSize = 0) ∧
      (Record.ParsesSafely binary ↔ binary ≠ []) :=
  ⟨loadsSafely_iff content, Record.parsesSafely_iff binary⟩

-- One byte, which is less than a record, and no byte at all.
theorem torn_not_safe : ¬ LoadsSafely [0] ∧ ¬ Record.ParsesSafely [] :=
  ⟨fun hsafe => hsafe [], id⟩

theorem recoverable_foldl_log {m : RecordManager} {nextId : UInt32} (h : m.Recoverable nextId)
    (rs : List Record) : ∃ last, (rs.foldl log m).Recoverable last := by
  induction rs generalizing m nextId with
  | nil => exact ⟨nextId, h⟩
  | cons r rs ih => exact ih (h.log r)

-- What a new record_manager reads is what the one that wrote the log holds, and
-- the next_id of the last record.
theorem replay_eq_memory (rs : List Record) (last : Record) :
    let m := (rs ++ [last]).foldl log fresh
    ∃ loaded, load m.file m.cmdFile = .ok loaded ∧ loaded.records = m.records ∧
      loaded.nextId = last.nextId := by
  have hfresh : fresh.Recoverable 0 := ⟨[], rfl, rfl⟩
  obtain ⟨nextId, hrs⟩ := recoverable_foldl_log hfresh rs
  have hlast := hrs.log last
  simp only [List.foldl_append, List.foldl_cons, List.foldl_nil]
  exact ⟨_, hlast.load, rfl, rfl⟩

-- An update that is decided, while another one stays open.
example : ((([⟨RECORD_PREPARED, 4, 4⟩, ⟨RECORD_PREPARED, 7, 4⟩, ⟨RECORD_COMMIT_DONE, 4, 5⟩].foldl log
    fresh).records.values).map Record.id) = [7] := by decide

end RecordManager

end CloudLabs.Cdb
