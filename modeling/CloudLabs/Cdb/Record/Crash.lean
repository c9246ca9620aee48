import CloudLabs.Cdb.Record.Theorems

namespace CloudLabs.Cdb.RecordManager

-- A DONE record after which nothing is open: log() clears the files.
def clears (m : RecordManager) (r : Record) : Bool := r.done && (m.records.erase r.id).isEmpty

-- Where the process can die inside log(r): `n` bytes of the record have been
-- appended; the log, or both files, are empty; `n` bytes have been written back.
inductive CrashPoint (m : RecordManager) (r : Record) where
  | append (n : Nat) (hn : n ≤ Record.recordSize)
  | truncate (cmdFile : Bool) (hclear : m.clears r)
  | rewrite (n : Nat) (hn : n ≤ Record.recordSize) (hclear : m.clears r)

namespace CrashPoint

variable {m : RecordManager} {r : Record}

-- The two files that are left behind.
def files : CrashPoint m r → Bytes × Bytes
  | .append n _ => (m.file ++ r.toBinary.take n, m.cmdFile)
  | .truncate cmdFile _ => ([], if cmdFile then [] else m.cmdFile)
  | .rewrite n _ _ => (r.toBinary.take n, [])

-- A new record_manager starts, and from what it would have found before log(r)
-- or from what it would find after it.
def Atomic (crash : CrashPoint m r) : Prop :=
  ∃ found before after, load crash.files.1 crash.files.2 = .ok found ∧
    load m.file m.cmdFile = .ok before ∧ load (m.log r).file (m.log r).cmdFile = .ok after ∧
    (found.records = before.records ∧ found.nextId = before.nextId ∨
      found.records = after.records ∧ found.nextId = after.nextId)

-- An empty log says what the old one said, or what the record says.
def emptyHarmless (before : RecordManager) (r : Record) : Prop :=
  r.nextId = 0 ∨ before.nextId = 0 ∧ before.records = ∅

-- The log with the record appended says what the cleared one says, or what the
-- old one said. It can differ when records_ has been cleared in memory.
def appendedHarmless (before : RecordManager) (r : Record) : Prop :=
  before.records.erase r.id = ∅ ∨
    before.records.erase r.id = before.records ∧ r.nextId = before.nextId

-- When a crash does no harm, from what the log before log(r) says.
def Harmless (before : RecordManager) : CrashPoint m r → Prop
  | .append n _ => n = 0 ∨ n = Record.recordSize ∧ (m.clears r → appendedHarmless before r)
  | .truncate _ _ => emptyHarmless before r
  | .rewrite n _ _ => n = Record.recordSize ∨ n = 0 ∧ emptyHarmless before r

end CrashPoint

section Files

variable {m : RecordManager} {r : Record}

theorem log_file (m : RecordManager) (r : Record) :
    (m.log r).file = if m.clears r then fileOf [r] else m.file ++ r.toBinary := by
  unfold clears log
  by_cases hdone : r.done
  · by_cases hempty : (m.records.erase r.id).isEmpty <;> simp [hdone, hempty, fileOf]
  · simp [hdone]

theorem done_of_clears (h : m.clears r) : r.done := by
  simp only [clears, Bool.and_eq_true] at h
  exact h.1

theorem take_toBinary (r : Record) : r.toBinary.take Record.recordSize = r.toBinary :=
  List.take_of_length_le (by simp)

-- A part of a record at the end makes the log unreadable.
theorem load_torn {rs : List Record} {n : Nat} (hpos : 0 < n) (hn : n < Record.recordSize)
    (cmdContent : Bytes) (found : RecordManager) :
    load (fileOf rs ++ r.toBinary.take n) cmdContent ≠ .ok found := by
  intro hload
  obtain ⟨rs', hcontent, -⟩ := exists_of_load hload
  have hlen := congrArg List.length hcontent
  simp only [List.length_append, length_fileOf, List.length_take, Record.length_toBinary,
    Record.recordSize] at hlen hn
  omega

end Files

namespace CrashPoint

variable {m before : RecordManager} {r : Record}

-- With logs that are sequences of records, atomicity compares what these say.
theorem atomic_iff_replay (crash : CrashPoint m r) {old left logged : List Record}
    (hold : m.file = fileOf old) (hleft : crash.files.1 = fileOf left)
    (hlogged : (m.log r).file = fileOf logged) :
    crash.Atomic ↔ left.foldl replay (0, ∅) = old.foldl replay (0, ∅) ∨
      left.foldl replay (0, ∅) = logged.foldl replay (0, ∅) := by
  unfold Atomic
  rw [hold, hleft, hlogged, load_fileOf, load_fileOf, load_fileOf]
  constructor
  · rintro ⟨found, before, after, hfound, hbefore, hafter, heq⟩
    cases hfound
    cases hbefore
    cases hafter
    exact heq.imp (fun h => Prod.ext h.2 h.1) fun h => Prod.ext h.2 h.1
  · intro heq
    exact ⟨_, _, _, rfl, rfl, rfl, heq.imp (fun h => by simp [h]) fun h => by simp [h]⟩

theorem replay_done {r : Record} (hdone : r.done) (state : UInt32 × IdMap Record) :
    replay state r = (r.nextId, state.2.erase r.id) := by
  simp [replay, hdone]

theorem replay_single {r : Record} (hdone : r.done) :
    [r].foldl replay (0, ∅) = (r.nextId, ∅) := by
  simp [replay, hdone]

-- log() keeps a log a sequence of records.
theorem exists_log_file (r : Record) {old : List Record} (hold : m.file = fileOf old) :
    ∃ logged, (m.log r).file = fileOf logged := by
  rw [log_file, hold]
  split
  · exact ⟨[r], rfl⟩
  · exact ⟨old ++ [r], by simp [fileOf]⟩

-- Nothing of the record is in the file.
theorem atomic_append_none (hload : load m.file m.cmdFile = .ok before) (hn : 0 ≤ Record.recordSize) :
    (append 0 hn : CrashPoint m r).Atomic := by
  obtain ⟨old, hold, -, -, -⟩ := exists_of_load hload
  obtain ⟨logged, hlogged⟩ := exists_log_file r hold
  exact (atomic_iff_replay _ hold (by simpa [files] using hold) hlogged).mpr (.inl rfl)

-- All of the record is in the file, and a log that is to be cleared is still there.
theorem atomic_append_all (hload : load m.file m.cmdFile = .ok before)
    (hn : Record.recordSize ≤ Record.recordSize) :
    (append Record.recordSize hn : CrashPoint m r).Atomic ↔
      (m.clears r → appendedHarmless before r) := by
  obtain ⟨old, hold, -, -, hbefore⟩ := exists_of_load hload
  have hleft : (append Record.recordSize hn : CrashPoint m r).files.1 = fileOf (old ++ [r]) := by
    simp [files, take_toBinary, hold]
  by_cases hclear : m.clears r
  · have hlogged : (m.log r).file = fileOf [r] := by rw [log_file, if_pos hclear]
    have hdone := done_of_clears hclear
    rw [atomic_iff_replay _ hold hleft hlogged, List.foldl_append, hbefore, replay_single hdone]
    simp only [List.foldl_cons, List.foldl_nil, replay_done hdone, Prod.mk.injEq, true_and,
      appendedHarmless, hclear, true_implies]
    rw [or_comm, and_comm (a := r.nextId = _)]
  · have hlogged : (m.log r).file = fileOf (old ++ [r]) := by
      rw [log_file, if_neg hclear]
      simp [hold]
    rw [atomic_iff_replay _ hold hleft hlogged]
    simp [hclear]

-- Some bytes of the record are in the file, and some are not.
theorem not_atomic_torn {crash : CrashPoint m r} {rs : List Record} {n : Nat}
    (hleft : crash.files.1 = fileOf rs ++ r.toBinary.take n) (hpos : n ≠ 0)
    (hn : n < Record.recordSize) : ¬ crash.Atomic := by
  rintro ⟨found, -, -, hfound, -⟩
  rw [hleft] at hfound
  exact load_torn (Nat.pos_of_ne_zero hpos) hn _ _ hfound

-- The log has been cleared and holds nothing.
theorem atomic_empty_iff (hload : load m.file m.cmdFile = .ok before) {crash : CrashPoint m r}
    (hclear : m.clears r) (hleft : crash.files.1 = fileOf []) :
    crash.Atomic ↔ emptyHarmless before r := by
  obtain ⟨old, hold, -, -, hbefore⟩ := exists_of_load hload
  have hlogged : (m.log r).file = fileOf [r] := by rw [log_file, if_pos hclear]
  rw [atomic_iff_replay _ hold hleft hlogged, hbefore, replay_single (done_of_clears hclear)]
  simp only [List.foldl_nil, Prod.mk.injEq, and_true, emptyHarmless]
  rw [or_comm, eq_comm (a := (0 : UInt32)), eq_comm (a := (0 : UInt32)), eq_comm (a := (∅ : IdMap Record))]

-- The record has been written back.
theorem atomic_written (hload : load m.file m.cmdFile = .ok before) {crash : CrashPoint m r}
    (hclear : m.clears r) (hleft : crash.files.1 = fileOf [r]) : crash.Atomic := by
  obtain ⟨old, hold, -, -, -⟩ := exists_of_load hload
  have hlogged : (m.log r).file = fileOf [r] := by rw [log_file, if_pos hclear]
  exact (atomic_iff_replay crash hold hleft hlogged).mpr (.inr rfl)

theorem atomic_iff_harmless (hload : load m.file m.cmdFile = .ok before) (crash : CrashPoint m r) :
    crash.Atomic ↔ crash.Harmless before := by
  obtain ⟨old, hold, -, -, -⟩ := exists_of_load hload
  cases crash with
  | append n hn =>
      by_cases hnone : n = 0
      · subst hnone
        exact iff_of_true (atomic_append_none hload hn) (.inl rfl)
      by_cases hall : n = Record.recordSize
      · subst hall
        rw [atomic_append_all hload hn]
        simp [Harmless, hnone]
      · have hleft : (append n hn : CrashPoint m r).files.1 = fileOf old ++ r.toBinary.take n := by
          simp [files, hold]
        exact iff_of_false (not_atomic_torn hleft hnone (by omega)) (by simp [Harmless, hnone, hall])
  | truncate cmdFile hclear => exact atomic_empty_iff hload hclear rfl
  | rewrite n hn hclear =>
      by_cases hall : n = Record.recordSize
      · subst hall
        have hleft : (rewrite Record.recordSize hn hclear).files.1 = fileOf [r] := by
          simp [files, take_toBinary]
        exact iff_of_true (atomic_written hload hclear hleft) (.inl rfl)
      by_cases hnone : n = 0
      · subst hnone
        rw [atomic_empty_iff hload hclear (by simp [files])]
        simp [Harmless, Record.recordSize]
      · have hleft : (rewrite n hn hclear).files.1 = fileOf [] ++ r.toBinary.take n := by
          simp [files]
        exact iff_of_false (not_atomic_torn hleft hnone (by omega)) (by simp [Harmless, hnone, hall])

-- A log whose one update is open, and the record that closes it.
def opened : RecordManager :=
  { file := Record.toBinary ⟨RECORD_COMMIT, 4, 5⟩, cmdFile := [], nextId := 0, cmds := ∅
    records := (∅ : IdMap Record).insert 4 ⟨RECORD_COMMIT, 4, 5⟩ }

theorem atomic_iff_harmless_written :
    (rewrite 9 (by decide) rfl : CrashPoint opened ⟨RECORD_COMMIT_DONE, 4, 5⟩).Atomic :=
  (@atomic_iff_harmless opened { opened with nextId := 5 } ⟨RECORD_COMMIT_DONE, 4, 5⟩ rfl _).mpr
    (.inl rfl)

-- Both files are empty: next_id 5 is lost.
theorem truncated_not_atomic :
    ¬ (truncate true rfl : CrashPoint opened ⟨RECORD_COMMIT_DONE, 4, 5⟩).Atomic := by
  rintro ⟨found, before, after, hfound, hbefore, hafter, heq⟩
  cases hfound
  cases hbefore
  cases hafter
  exact absurd heq (by decide)

end CrashPoint

end CloudLabs.Cdb.RecordManager
