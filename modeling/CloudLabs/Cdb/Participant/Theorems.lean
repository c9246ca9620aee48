import CloudLabs.Cdb.Participant
import CloudLabs.Cdb.Record.Theorems
import Mathlib.Data.Finset.Card

namespace CloudLabs.Cdb.Participant

section Prepare

variable {p q : Participant} {cmd : Command} {ok : Bool}

theorem mem_insertById {cmd other : Command} {cmds : List Command}
    (h : other ∈ insertById cmd cmds) : other = cmd ∨ other ∈ cmds := by
  induction cmds with
  | nil => exact .inl (List.mem_singleton.mp h)
  | cons head rest ih =>
      simp only [insertById] at h
      split at h
      · simpa using h
      split at h
      · rcases List.mem_cons.mp h with rfl | h
        · exact .inr (by simp)
        · exact (ih h).imp_right fun h => by simp [h]
      · exact .inr h

theorem mapM_id_eq_some {α : Type} {values : List α} {options : List (Option α)}
    (h : options.mapM id = some values) : options = values.map some := by
  induction options generalizing values with
  | nil => cases h; rfl
  | cons head rest ih =>
      cases head with
      | none => simp at h
      | some value =>
          cases hrest : rest.mapM id with
          | none => simp [hrest] at h
          | some tail =>
              simp only [List.mapM_cons, id, hrest, Option.pure_def, Option.bind_eq_bind,
                Option.bind_some, Option.some.injEq] at h
              rw [← h, ih hrest]
              rfl

theorem mem_insertRequest {cmd other : Command} {requests requests' : List (Option Command)}
    (h : insertRequest (some cmd) requests = .ok requests') (hmem : some other ∈ requests') :
    other = cmd ∨ some other ∈ requests := by
  simp only [insertRequest] at h
  split at h
  · cases h
    exact .inl (by simpa using hmem)
  · cases hcmds : requests.mapM id with
    | none => simp [hcmds] at h
    | some cmds =>
        simp only [hcmds, pure_eq_ok, Except.ok.injEq] at h
        subst h
        obtain ⟨c, hc, heq⟩ := List.mem_map.mp hmem
        cases heq
        refine (mem_insertById hc).imp_right fun hold => ?_
        rw [mapM_id_eq_some hcmds]
        exact List.mem_map_of_mem hold

-- PREPARE keeps the command and changes nothing else.
theorem prepare_ok (h : p.prepare cmd = .ok (ok, q)) :
    q.store = p.store ∧ q.nextId = p.nextId ∧
      ∀ other, some other ∈ q.dbRequests → other = cmd ∨ some other ∈ p.dbRequests := by
  simp only [prepare] at h
  cases hlog : p.rManager.logCommand (some cmd) with
  | error fault =>
      simp only [hlog, pure_eq_ok, Except.ok.injEq, Prod.mk.injEq] at h
      obtain ⟨-, rfl⟩ := h
      exact ⟨rfl, rfl, fun _ => .inr⟩
  | ok m =>
      simp only [hlog] at h
      cases hreq : insertRequest (some cmd) p.dbRequests with
      | error fault => simp [hreq] at h
      | ok requests =>
          simp only [hreq, ok_bind, pure_eq_ok, Except.ok.injEq, Prod.mk.injEq] at h
          obtain ⟨-, rfl⟩ := h
          exact ⟨rfl, rfl, fun _ => mem_insertRequest hreq⟩

theorem prepare_of_empty (hempty : p.dbRequests = []) (hkind : cmd.isUpdate) :
    ∃ q, p.prepare cmd = .ok (true, q) ∧ q.store = p.store ∧ q.nextId = p.nextId ∧
      q.dbRequests = [some cmd] := by
  cases cmd with
  | get cmd => cases hkind
  | set cmd =>
      simp only [prepare, RecordManager.logCommand, insertRequest, hempty, if_pos, pure_eq_ok, ok_bind]
      exact ⟨_, rfl, rfl, rfl, rfl⟩
  | del cmd =>
      simp only [prepare, RecordManager.logCommand, insertRequest, hempty, if_pos, pure_eq_ok, ok_bind]
      exact ⟨_, rfl, rfl, rfl, rfl⟩

theorem prepareRefused_keeps (p : Participant) (stage : PrepareStage) (cmd : Command) :
    (p.prepareRefused stage cmd).store = p.store ∧ (p.prepareRefused stage cmd).nextId = p.nextId ∧
      (p.prepareRefused stage cmd).dbRequests = p.dbRequests := by
  simp only [prepareRefused]
  split <;> exact ⟨rfl, rfl, rfl⟩

end Prepare

section Decide

variable {p q : Participant} {id : UInt32} {ret : Bytes}

-- A COMMIT that returns was for an update that is resolved already, or it has
-- applied the command of that id.
theorem commit_ok (h : p.commit id = .ok (ret, q)) :
    id < p.nextId ∧ ret = [] ∧ q = p ∨
      id = p.nextId ∧ ∃ cmd rest, p.dbRequests = some cmd :: rest ∧ cmd.id = id ∧
        dispatch p.store cmd = .ok (ret, q.store) ∧ q.nextId = id + 1 ∧ q.dbRequests = rest := by
  rw [commit] at h
  split at h
  · rename_i hseen
    cases h
    exact .inl ⟨hseen, rfl, rfl⟩
  rename_i hseen
  split at h
  · cases h
  rename_i hahead
  have hid : id = p.nextId := by grind
  split at h
  · cases h
  · cases h
  rename_i cmd rest hpending
  split at h
  · cases h
  rename_i hcmd
  cases hdispatch : dispatch p.store cmd with
  | error fault => simp [hdispatch] at h
  | ok result =>
      simp only [hdispatch, ok_bind, pure_eq_ok, Except.ok.injEq, Prod.mk.injEq] at h
      obtain ⟨rfl, rfl⟩ := h
      exact .inr ⟨hid, cmd, rest, hpending, by simpa [hid] using hcmd, hdispatch, by rw [hid], rfl⟩

theorem commit_of_pending {cmd : Command} {rest : List (Option Command)} {store : Store}
    (hid : p.nextId = id) (hpending : p.dbRequests = some cmd :: rest) (hcmd : cmd.id = id)
    (hdispatch : dispatch p.store cmd = .ok (ret, store)) :
    ∃ q, p.commit id = .ok (ret, q) ∧ q.store = store ∧ q.nextId = id + 1 ∧ q.dbRequests = rest := by
  have hne : ¬ cmd.id ≠ p.nextId := by simp [hcmd, hid]
  rw [commit, if_neg (by grind), if_neg (by grind), hpending]
  simp only [if_neg hne, hdispatch, ok_bind, pure_eq_ok]
  exact ⟨_, rfl, rfl, by rw [hid], rfl⟩

@[simp] theorem abort_store (p : Participant) (id : UInt32) : (p.abort id).2.store = p.store := by
  simp only [abort]
  split <;> rfl

-- An ABORT is always answered with true.
theorem handle_abort (p : Participant) (id : UInt32) : p.handle (.ABORT id) = .ok (.bool true, (p.abort id).2) := by
  unfold handle abort
  simp only
  split <;> rfl

theorem abort_of_eq (h : p.nextId = id) : (p.abort id).2.nextId = id + 1 ∧
    (p.abort id).2.dbRequests = p.dbRequests.tail := by
  simp [abort, h]

theorem abort_of_lt (h : id < p.nextId) : (p.abort id).2.nextId = p.nextId ∧
    (p.abort id).2.dbRequests = p.dbRequests := by
  have hne : p.nextId ≠ id := by grind
  have hnot : ¬ p.nextId < id := by grind
  simp [abort, hne, hnot]

theorem abort_of_gt (h : p.nextId < id) : (p.abort id).2.nextId = id + 1 ∧
    (p.abort id).2.dbRequests = p.dbRequests := by
  have hne : p.nextId ≠ id := by grind
  simp [abort, hne, h]

end Decide

section Delete

theorem deleteKeys_getElem? (store : Store) (keys : List Bytes) (key : Bytes) :
    (deleteKeys store keys).2[key]? = if key ∈ keys then none else store[key]? := by
  induction keys generalizing store with
  | nil => simp [deleteKeys]
  | cons head rest ih =>
      rw [deleteKeys, ih, Std.ExtTreeMap.getElem?_erase]
      by_cases hrest : key ∈ rest
      · simp [hrest]
      · by_cases hhead : head = key
        · simp [hhead]
        · simp [hrest, hhead, Ne.symm hhead]

-- A DEL counts each key once that it names and that exists.
theorem deleteKeys_count (store : Store) (keys : List Bytes) :
    (deleteKeys store keys).1 = (keys.toFinset.filter (· ∈ store)).card := by
  induction keys generalizing store with
  | nil => rfl
  | cons head rest ih =>
      have herase : rest.toFinset.filter (· ∈ store.erase head) =
          (rest.toFinset.filter (· ∈ store)).erase head := by
        ext key
        simp [Std.ExtTreeMap.mem_erase]
        grind
      rw [deleteKeys]
      simp only [ih, herase, List.toFinset_cons, Finset.filter_insert]
      by_cases hhead : head ∈ store
      · have hinsert : insert head (rest.toFinset.filter (· ∈ store)) =
            insert head ((rest.toFinset.filter (· ∈ store)).erase head) := by
          ext key
          by_cases hkey : key = head <;> simp [hkey]
        rw [if_pos hhead, hinsert, Finset.card_insert_of_notMem (by simp)]
        simp [hhead]
      · rw [if_neg hhead, Finset.erase_eq_of_notMem (by simp [hhead])]
        simp [hhead]

end Delete

end CloudLabs.Cdb.Participant
