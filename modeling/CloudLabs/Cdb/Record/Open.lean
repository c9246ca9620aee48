import CloudLabs.Cdb.Record.Theorems

namespace CloudLabs.Cdb

namespace Record

-- What the coordinator's log can leave open.
def resolvable (status : RecordStatus) : Prop :=
  status = RECORD_UNRESOLVED ∨ status = RECORD_COMMIT ∨ status = RECORD_ABORT

end Record

namespace RecordManager

-- records_ holds one record, of that id and status.
def Opens (m : RecordManager) (id : UInt32) (status : RecordStatus) : Prop :=
  ∃ r : Record, r.id = id ∧ r.status = status ∧ m.records = (∅ : IdMap Record).insert id r

-- At most one update is open, the one before `nextId`.
def OneOpen (m : RecordManager) (nextId : UInt32) : Prop :=
  m.records = ∅ ∨ ∃ id status, m.Opens id status ∧ id + 1 = nextId ∧ Record.resolvable status

theorem Recoverable.unique {m : RecordManager} {nextId nextId' : UInt32}
    (h : m.Recoverable nextId) (h' : m.Recoverable nextId') : nextId = nextId' := by
  have heq := h.load.symm.trans h'.load
  simp only [Except.ok.injEq, RecordManager.mk.injEq] at heq
  exact heq.2.2.1

theorem Recoverable.of_empty {m : RecordManager} {nextId : UInt32} (h : m.Recoverable nextId)
    (hempty : m.file = []) : nextId = 0 ∧ m.records = ∅ := by
  obtain ⟨rs, hfile, hreplay⟩ := h
  have hrs : rs = [] := by
    have hlen := congrArg List.length (hempty.symm.trans hfile)
    rw [length_fileOf] at hlen
    simpa [Record.recordSize] using hlen.symm
  subst hrs
  exact ⟨(Prod.mk.inj hreplay).1.symm, (Prod.mk.inj hreplay).2.symm⟩

theorem Recoverable.last {m : RecordManager} {nextId : UInt32} (h : m.Recoverable nextId)
    {rs : List Record} {r : Record} (hfile : m.file = fileOf (rs ++ [r])) : r.nextId = nextId := by
  have heq := h.load
  rw [hfile, load_fileOf, List.foldl_append] at heq
  simp only [List.foldl_cons, List.foldl_nil, replay, Except.ok.injEq, RecordManager.mk.injEq] at heq
  exact heq.2.2.1

theorem log_file_ne_nil (m : RecordManager) (r : Record) : (m.log r).file ≠ [] := by
  have hne : r.toBinary ≠ [] := by simp [Record.toBinary, Record.encodeUint8]
  simp only [log]
  split
  · split
    · exact hne
    · simp [hne]
  · simp [hne]

namespace Opens

variable {m : RecordManager} {id : UInt32} {status : RecordStatus}

theorem getElem? (h : m.Opens id status) (other : UInt32) :
    m.records[other]?.map Record.status = if id = other then some status else none := by
  obtain ⟨r, -, rfl, hrecords⟩ := h
  rw [hrecords, Std.ExtTreeMap.getElem?_insert]
  by_cases heq : id = other <;> simp [heq]

theorem values (h : m.Opens id status) :
    ∃ r : Record, r.id = id ∧ r.status = status ∧ m.records.values = [r] := by
  obtain ⟨r, hid, hstatus, hrecords⟩ := h
  exact ⟨r, hid, hstatus, by rw [hrecords]; rfl⟩

theorem ne_empty (h : m.Opens id status) : m.records ≠ ∅ := by
  intro hempty
  obtain ⟨r, -, -, hvalues⟩ := h.values
  rw [hempty] at hvalues
  cases hvalues

theorem log_done (h : m.Opens id status) {r : Record} (hid : r.id = id) (hdone : r.done) :
    (m.log r).records = ∅ := by
  obtain ⟨s, -, -, hrecords⟩ := h
  rw [log_records, if_pos hdone, hrecords, hid]
  apply Std.ExtTreeMap.ext_getElem?
  intro other
  rw [Std.ExtTreeMap.getElem?_erase, Std.ExtTreeMap.getElem?_insert]
  split <;> simp [*]

theorem log (h : m.Opens id status) {r : Record} (hid : r.id = id) (hopen : r.done = false) :
    (m.log r).Opens id r.status := by
  obtain ⟨s, -, -, hrecords⟩ := h
  refine ⟨r, hid, rfl, ?_⟩
  rw [log_records, if_neg (by simp [hopen]), hrecords, hid]
  apply Std.ExtTreeMap.ext_getElem?
  intro other
  rw [Std.ExtTreeMap.getElem?_insert, Std.ExtTreeMap.getElem?_insert, Std.ExtTreeMap.getElem?_insert]
  split <;> simp [*]

theorem unique {id' : UInt32} {status' : RecordStatus} (h : m.Opens id status)
    (h' : m.Opens id' status') : id = id' ∧ status = status' := by
  have hlook := (h.getElem? id).symm.trans (h'.getElem? id)
  rw [if_pos rfl] at hlook
  split at hlook
  · rename_i heq
    exact ⟨heq.symm, Option.some.inj hlook⟩
  · cases hlook

end Opens

theorem log_opens {m : RecordManager} (h : m.records = ∅) {r : Record} (hopen : r.done = false) :
    (m.log r).Opens r.id r.status := by
  refine ⟨r, rfl, rfl, ?_⟩
  rw [log_records, if_neg (by simp [hopen]), h]

theorem OneOpen.of_opens {m : RecordManager} {nextId id : UInt32} {status : RecordStatus}
    (h : m.OneOpen nextId) (hopens : m.Opens id status) : id + 1 = nextId ∧ Record.resolvable status := by
  rcases h with hempty | ⟨id', status', hopens', hnext, hstatus⟩
  · exact absurd hempty hopens.ne_empty
  · obtain ⟨rfl, rfl⟩ := hopens.unique hopens'
    exact ⟨hnext, hstatus⟩

theorem OneOpen.opens_of_getElem? {m : RecordManager} {nextId id : UInt32} {status : RecordStatus}
    (h : m.OneOpen nextId) (hstatus : m.records[id]?.map Record.status = some status) : m.Opens id status := by
  rcases h with hempty | ⟨id', status', hopens, -⟩
  · rw [hempty] at hstatus
    simp at hstatus
  · rw [hopens.getElem?] at hstatus
    split at hstatus
    · rename_i hid
      obtain rfl := Option.some.inj hstatus
      rw [← hid]
      exact hopens
    · cases hstatus

end RecordManager

end CloudLabs.Cdb
