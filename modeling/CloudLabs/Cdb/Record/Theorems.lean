import CloudLabs.Cdb.Record

namespace CloudLabs.Cdb

section Exceptions

variable {ε α β : Type}

@[simp] theorem ok_bind (value : α) (rest : α → Except ε β) : (.ok value >>= rest) = rest value := rfl

@[simp] theorem error_bind (fault : ε) (rest : α → Except ε β) :
    (.error fault >>= rest) = .error fault := rfl

@[simp] theorem pure_eq_ok (value : α) : (pure value : Except ε α) = .ok value := rfl

@[simp] theorem throw_eq_error (fault : ε) : (throw fault : Except ε α) = .error fault := rfl

theorem ok_of_bind {x : Except ε α} {rest : α → Except ε β} {value : β}
    (h : (x >>= rest) = .ok value) : ∃ a, x = .ok a ∧ rest a = .ok value := by
  cases x with
  | error fault => cases h
  | ok a => exact ⟨a, rfl, h⟩

end Exceptions

namespace IdMap

variable {α : Type}

theorem values_eq (map : IdMap α) : map.values = map.toList.map Prod.snd := by
  have hfoldr : map.values = map.foldr (fun _ value rest => value :: rest) [] := by
    rcases map with ⟨⟨tree⟩⟩
    induction tree using Quotient.ind
    rfl
  rw [hfoldr, Std.ExtTreeMap.foldr_eq_foldr_toList]
  induction map.toList with
  | nil => rfl
  | cons pair rest ih => simp [ih]

theorem mem_values {map : IdMap α} {value : α} :
    value ∈ map.values ↔ ∃ id : UInt32, map[id]? = some value := by
  simp [values_eq, Std.ExtTreeMap.mem_toList_iff_getElem?_eq_some]

end IdMap

section LittleEndian

-- The four bytes of a number below 2^32, put together again.
theorem join_bytes (n : Nat) (h : n < 2 ^ 32) :
    n % 2 ^ 8 ||| (n / 2 ^ 8 % 2 ^ 8) <<< 8 ||| (n / 2 ^ 16 % 2 ^ 8) <<< 16 |||
      (n / 2 ^ 24 % 2 ^ 8) <<< 24 = n := by
  apply Nat.eq_of_testBit_eq
  intro i
  simp only [Nat.testBit_or, Nat.testBit_shiftLeft, Nat.testBit_mod_two_pow,
    Nat.testBit_div_two_pow]
  by_cases hi : i < 32
  · by_cases h1 : i < 8
    · grind
    by_cases h2 : i < 16
    · have : i - 8 + 8 = i := by omega
      grind
    by_cases h3 : i < 24
    · have : i - 16 + 16 = i := by omega
      grind
    · have : i - 24 + 24 = i := by omega
      grind
  · have hpow : 2 ^ 32 ≤ 2 ^ i := Nat.pow_le_pow_right (by decide) (by omega)
    have := Nat.testBit_lt_two_pow (Nat.lt_of_lt_of_le h hpow)
    grind

theorem byte_shift_mod (a b : Nat) (hb : b ≤ 24) :
    (a % 2 ^ 8) <<< b % 2 ^ 32 = (a % 2 ^ 8) <<< b := by
  rw [Nat.shiftLeft_eq]
  refine Nat.mod_eq_of_lt ?_
  calc a % 2 ^ 8 * 2 ^ b
      < 2 ^ 8 * 2 ^ b := Nat.mul_lt_mul_of_pos_right (Nat.mod_lt _ (by decide)) (Nat.two_pow_pos b)
    _ ≤ 2 ^ 8 * 2 ^ 24 := Nat.mul_le_mul_left _ (Nat.pow_le_pow_right (by decide) hb)
    _ = 2 ^ 32 := by decide

theorem uint32_of_bytes (v : UInt32) :
    v.toUInt8.toUInt32 ||| ((v >>> 8).toUInt8.toUInt32 <<< 8) |||
      ((v >>> 16).toUInt8.toUInt32 <<< 16) ||| ((v >>> 24).toUInt8.toUInt32 <<< 24) = v := by
  apply UInt32.toNat_inj.mp
  have h8 : (8 : UInt32).toNat % 32 = 8 := rfl
  have h16 : (16 : UInt32).toNat % 32 = 16 := rfl
  have h24 : (24 : UInt32).toNat % 32 = 24 := rfl
  simp only [UInt32.toNat_or, UInt32.toNat_shiftLeft, UInt8.toNat_toUInt32, UInt32.toNat_toUInt8,
    UInt32.toNat_shiftRight, h8, h16, h24, Nat.shiftRight_eq_div_pow, byte_shift_mod, Nat.reduceLeDiff]
  exact join_bytes v.toNat v.toNat_lt

theorem testBit_byte (b : UInt8) (i : Nat) (hi : 8 ≤ i) : b.toNat.testBit i = false :=
  Nat.testBit_lt_two_pow (Nat.lt_of_lt_of_le b.toNat_lt (Nat.pow_le_pow_right (by decide) hi))

-- What is cut out of four joined bytes is each of them again.
theorem bytes_of_join (b0 b1 b2 b3 : UInt8) :
    Record.encodeUint32 (b0.toUInt32 ||| (b1.toUInt32 <<< 8) ||| (b2.toUInt32 <<< 16) |||
      (b3.toUInt32 <<< 24)) = [b0, b1, b2, b3] := by
  have h8 : (8 : UInt32).toNat % 32 = 8 := rfl
  have h16 : (16 : UInt32).toNat % 32 = 16 := rfl
  have h24 : (24 : UInt32).toNat % 32 = 24 := rfl
  have z0 := testBit_byte b0
  have z1 := testBit_byte b1
  have z2 := testBit_byte b2
  have z3 := testBit_byte b3
  simp only [Record.encodeUint32, List.cons.injEq, and_true]
  refine ⟨?_, ?_, ?_, ?_⟩ <;>
  · apply UInt8.toNat_inj.mp
    apply Nat.eq_of_testBit_eq
    intro i
    simp only [UInt32.toNat_toUInt8, UInt32.toNat_or, UInt32.toNat_shiftLeft,
      UInt8.toNat_toUInt32, UInt32.toNat_shiftRight, h8, h16, h24, Nat.testBit_mod_two_pow,
      Nat.testBit_or, Nat.testBit_shiftLeft, Nat.testBit_shiftRight]
    by_cases hi : i < 8
    · have e1 : 24 + i - 24 = i := by omega
      have e2 : 16 + i - 16 = i := by omega
      have e3 : 8 + i - 8 = i := by omega
      grind
    · grind

end LittleEndian

namespace Record

theorem decodeUint32_encodeUint32 (before after : Bytes) (v : UInt32) :
    decodeUint32 (before ++ (encodeUint32 v ++ after)) before.length = .ok (v, before.length + 4) := by
  have hlen : ¬ (before ++ (encodeUint32 v ++ after)).length < before.length + 4 := by
    simp [encodeUint32]
  rw [decodeUint32, if_neg hlen, List.drop_left]
  simp only [encodeUint32, List.cons_append, List.nil_append, uint32_of_bytes]
  rfl

@[simp] theorem length_toBinary (r : Record) : r.toBinary.length = recordSize := rfl

theorem parse_toBinary (r : Record) : parse r.toBinary = .ok r := by
  have hstatus : decodeUint8 r.toBinary 0 = .ok (r.status, 1) := rfl
  have hid : decodeUint32 r.toBinary 1 = .ok (r.id, 5) :=
    decodeUint32_encodeUint32 [r.status] (encodeUint32 r.nextId) r.id
  have hnext : decodeUint32 r.toBinary 5 = .ok (r.nextId, 9) := by
    simpa [toBinary, encodeUint8, encodeUint32] using
      decodeUint32_encodeUint32 (encodeUint8 r.status ++ encodeUint32 r.id) [] r.nextId
  simp only [parse, bind, Except.bind, hstatus, hid, hnext]
  rfl

@[simp] theorem done_unresolved (id nextId : UInt32) :
    (⟨RECORD_UNRESOLVED, id, nextId⟩ : Record).done = false := rfl

@[simp] theorem done_commit (id nextId : UInt32) :
    (⟨RECORD_COMMIT, id, nextId⟩ : Record).done = false := rfl

@[simp] theorem done_abort (id nextId : UInt32) :
    (⟨RECORD_ABORT, id, nextId⟩ : Record).done = false := rfl

@[simp] theorem done_prepared (id nextId : UInt32) :
    (⟨RECORD_PREPARED, id, nextId⟩ : Record).done = false := rfl

@[simp] theorem done_commitDone (id nextId : UInt32) :
    (⟨RECORD_COMMIT_DONE, id, nextId⟩ : Record).done = true := rfl

@[simp] theorem done_abortDone (id nextId : UInt32) :
    (⟨RECORD_ABORT_DONE, id, nextId⟩ : Record).done = true := rfl

-- Every nine bytes are one record.
theorem exists_toBinary (binary : Bytes) (hlen : binary.length = recordSize) :
    ∃ r : Record, r.toBinary = binary := by
  match binary, hlen with
  | [s, a0, a1, a2, a3, b0, b1, b2, b3], _ =>
      exact ⟨⟨s, _, _⟩, congrArg₂ (fun id nextId => s :: (id ++ nextId))
        (bytes_of_join a0 a1 a2 a3) (bytes_of_join b0 b1 b2 b3)⟩

end Record

namespace RecordManager

-- The content of a log file.
def fileOf (rs : List Record) : Bytes := rs.flatMap Record.toBinary

@[simp] theorem fileOf_nil : fileOf [] = [] := rfl

@[simp] theorem fileOf_cons (r : Record) (rs : List Record) :
    fileOf (r :: rs) = r.toBinary ++ fileOf rs := rfl

@[simp] theorem fileOf_append (rs rs' : List Record) : fileOf (rs ++ rs') = fileOf rs ++ fileOf rs' :=
  List.flatMap_append

theorem length_fileOf (rs : List Record) : (fileOf rs).length = Record.recordSize * rs.length := by
  induction rs with
  | nil => rfl
  | cons r rs ih =>
      simp only [fileOf_cons, List.length_append, Record.length_toBinary, ih, List.length_cons]
      exact (Nat.mul_succ _ _).symm ▸ Nat.add_comm _ _

theorem loadRecords_fileOf (before : Bytes) (rs : List Record) (fuel : Nat)
    (state : UInt32 × IdMap Record) (hfuel : rs.length ≤ fuel) :
    loadRecords (before ++ fileOf rs) fuel before.length state = .ok (rs.foldl replay state) := by
  induction rs generalizing before fuel state with
  | nil =>
      cases fuel with
      | zero => rfl
      | succ fuel => simp [loadRecords]
  | cons r rs ih =>
      cases fuel with
      | zero => simp at hfuel
      | succ fuel =>
          have hstart : before.length < (before ++ fileOf (r :: rs)).length := by
            simp only [fileOf_cons, List.length_append, Record.length_toBinary, Record.recordSize]
            omega
          have hend : ¬ (before ++ fileOf (r :: rs)).length < before.length + Record.recordSize := by
            simp
          have hslice : ((before ++ fileOf (r :: rs)).drop before.length).take Record.recordSize =
              r.toBinary := by
            rw [List.drop_left, fileOf_cons]
            exact List.take_left' rfl
          have hrest := ih (before ++ r.toBinary) fuel (replay state r) (by simpa using hfuel)
          rw [loadRecords, if_pos hstart, if_neg hend, hslice, Record.parse_toBinary, ok_bind]
          simpa [List.append_assoc] using hrest

-- A log file that can be loaded is a sequence of records.
theorem exists_fileOf (before data : Bytes) (fuel : Nat) (state last : UInt32 × IdMap Record)
    (hfuel : data.length ≤ fuel)
    (hload : loadRecords (before ++ data) fuel before.length state = .ok last) :
    ∃ rs, data = fileOf rs := by
  induction fuel generalizing before data state with
  | zero => exact ⟨[], List.length_eq_zero_iff.mp (Nat.le_zero.mp hfuel)⟩
  | succ fuel ih =>
      by_cases hstart : before.length < (before ++ data).length
      · by_cases hend : (before ++ data).length < before.length + Record.recordSize
        · rw [loadRecords, if_pos hstart, if_pos hend] at hload
          cases hload
        · have hsize : Record.recordSize ≤ data.length := by simpa using hend
          obtain ⟨r, hr⟩ := Record.exists_toBinary (data.take Record.recordSize) (by simpa using hsize)
          have hdata : data = r.toBinary ++ data.drop Record.recordSize := by
            rw [hr, List.take_append_drop]
          rw [loadRecords, if_pos hstart, if_neg hend, List.drop_left, ← hr, Record.parse_toBinary,
            ok_bind] at hload
          have hrest : (data.drop Record.recordSize).length ≤ fuel := by
            simp [Record.recordSize]
            omega
          obtain ⟨rs, hrs⟩ := ih (before ++ r.toBinary) (data.drop Record.recordSize) _ hrest
            (by simpa [List.append_assoc, ← hdata] using hload)
          exact ⟨r :: rs, by rw [fileOf_cons, ← hrs]; exact hdata⟩
      · refine ⟨[], ?_⟩
        simpa using hstart

-- The files of a log whose records are `rs`, as a new record_manager finds them:
-- the commands are not read.
theorem load_fileOf (rs : List Record) (cmdContent : Bytes) :
    load (fileOf rs) cmdContent = .ok {
      file := fileOf rs, cmdFile := cmdContent, cmds := ∅
      nextId := (rs.foldl replay (0, ∅)).1, records := (rs.foldl replay (0, ∅)).2 } := by
  have hfuel : rs.length ≤ (fileOf rs).length := by
    rw [length_fileOf]
    exact Nat.le_mul_of_pos_left _ (by decide)
  have hrecords := loadRecords_fileOf [] rs (fileOf rs).length (0, ∅) hfuel
  simp only [List.nil_append, List.length_nil] at hrecords
  simp only [load, FStream.readToEnd, List.drop_zero, List.drop_length, hrecords, ok_bind,
    List.length_nil, loadCommands, pure_eq_ok]

@[simp] theorem log_records (m : RecordManager) (r : Record) :
    (m.log r).records = if r.done then m.records.erase r.id else m.records.insert r.id r := by
  simp only [log]
  split
  · split <;> rfl
  · rfl

-- What a record_manager holds is what a new one would read from its file, and
-- `nextId` is the next_id that this one would start from.
def Recoverable (m : RecordManager) (nextId : UInt32) : Prop :=
  ∃ rs, m.file = fileOf rs ∧ rs.foldl replay (0, ∅) = (nextId, m.records)

theorem Recoverable.load {m : RecordManager} {nextId : UInt32} (h : m.Recoverable nextId) :
    load m.file m.cmdFile = .ok { m with nextId, cmds := ∅ } := by
  obtain ⟨rs, hfile, hreplay⟩ := h
  rw [hfile, load_fileOf, hreplay]

-- What a record_manager loads is a sequence of records, replayed.
theorem exists_of_load {content cmdContent : Bytes} {m : RecordManager}
    (h : RecordManager.load content cmdContent = .ok m) :
    ∃ rs, content = fileOf rs ∧ m.file = content ∧ m.cmds = ∅ ∧
      rs.foldl replay (0, ∅) = (m.nextId, m.records) := by
  have hfile : ∃ rs, content = fileOf rs := by
    cases hload : loadRecords content content.length 0 (0, ∅) with
    | error fault => simp [RecordManager.load, FStream.readToEnd, hload] at h
    | ok last => exact exists_fileOf [] content content.length (0, ∅) last (Nat.le_refl _) hload
  obtain ⟨rs, rfl⟩ := hfile
  rw [load_fileOf] at h
  cases h
  exact ⟨rs, rfl, rfl, rfl, rfl⟩

theorem recoverable_of_load {content cmdContent : Bytes} {m : RecordManager}
    (h : RecordManager.load content cmdContent = .ok m) : m.Recoverable m.nextId ∧ m.cmds = ∅ := by
  obtain ⟨rs, hcontent, hfile, hcmds, hreplay⟩ := exists_of_load h
  exact ⟨⟨rs, hfile.trans hcontent, hreplay⟩, hcmds⟩

theorem Recoverable.log {m : RecordManager} {nextId : UInt32} (h : m.Recoverable nextId)
    (r : Record) : (m.log r).Recoverable r.nextId := by
  obtain ⟨rs, hfile, hreplay⟩ := h
  have happend : (rs ++ [r]).foldl replay (0, ∅) = replay (nextId, m.records) r := by
    rw [List.foldl_append, hreplay]
    rfl
  by_cases hdone : r.done
  · by_cases hempty : (m.records.erase r.id).isEmpty
    · -- The log is cleared, and its one record opens nothing.
      refine ⟨[r], by simp [RecordManager.log, hdone, hempty, fileOf], ?_⟩
      have hnone := Std.ExtTreeMap.isEmpty_iff.mp hempty
      simp [RecordManager.log, hdone, hnone, replay]
    · refine ⟨rs ++ [r], by simp [RecordManager.log, hdone, hempty, hfile], ?_⟩
      simp [RecordManager.log, hdone, hempty, happend, replay]
  · refine ⟨rs ++ [r], by simp [RecordManager.log, hdone, hfile], ?_⟩
    simp [RecordManager.log, hdone, happend, replay]

end RecordManager

end CloudLabs.Cdb
