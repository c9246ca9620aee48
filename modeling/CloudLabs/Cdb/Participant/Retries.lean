import CloudLabs.Cdb.Participant.Theorems

namespace CloudLabs.Cdb.Participant

-- A call of one of the handlers that an update goes through. A PREPARE that
-- catches an exception is refused.
inductive Call where
  | prepareSet (cmd : SetCommand)
  | prepareDel (cmd : DelCommand)
  | refused (stage : PrepareStage) (cmd : Command)
  | commit (id : UInt32)
  | abort (id : UInt32)

def Call.id : Call → UInt32
  | .prepareSet cmd => cmd.id
  | .prepareDel cmd => cmd.id
  | .refused _ cmd => cmd.id
  | .commit id => id
  | .abort id => id

def Call.prepares : Call → Option Command
  | .prepareSet cmd => some (.set cmd)
  | .prepareDel cmd => some (.del cmd)
  | _ => none

def serve (p : Participant) : Call → Except Fault Participant
  | .prepareSet cmd => do let (_, p) ← p.prepareSet cmd; return p
  | .prepareDel cmd => do let (_, p) ← p.prepareDel cmd; return p
  | .refused stage cmd => pure (p.prepareRefused stage cmd)
  | .commit id => do let (_, p) ← p.commit id; return p
  | .abort id => pure (p.abort id).2

-- What throws has changed nothing.
def after (p : Participant) (call : Call) : Participant :=
  match p.serve call with
  | .ok q => q
  | .error _ => p

def afterAll (p : Participant) (calls : List Call) : Participant := calls.foldl after p

-- The id of the command that the call applies.
def applies (p : Participant) : Call → Option UInt32
  | .commit id => if p.nextId = id ∧ (p.commit id).isOk then some id else none
  | _ => none

def appliedIds (p : Participant) : List Call → List UInt32
  | [] => []
  | call :: calls => (p.applies call).toList ++ (p.after call).appliedIds calls

-- The largest number is not used, and a COMMIT of the next update finds something
-- pending.
def Allows (p : Participant) (call : Call) : Prop :=
  call.id < 4294967295 ∧ (call = .commit p.nextId → p.dbRequests ≠ [])

def AllowsAll (p : Participant) : List Call → Prop
  | [] => True
  | call :: calls => p.Allows call ∧ (p.after call).AllowsAll calls

-- db_requests_ is a set that is ordered by the ids. A null pointer is alone in it.
def IdOrdered (requests : List (Option Command)) : Prop :=
  requests = [none] ∨
    ∃ cmds : List Command, requests = cmds.map some ∧ cmds.Pairwise fun a b => a.id < b.id

def Ordered (p : Participant) : Prop := IdOrdered p.dbRequests

-- The command is pending through all of the calls.
def StaysPending (p : Participant) (cmd : Command) : List Call → Prop
  | [] => some cmd ∈ p.dbRequests
  | call :: calls => some cmd ∈ p.dbRequests ∧ (p.after call).StaysPending cmd calls

-- The command has been pending since the start, or since it was the first to be
-- prepared under its id.
def FirstPrepared (p : Participant) (calls : List Call) (cmd : Command) : Prop :=
  p.StaysPending cmd calls ∨
    ∃ before call later, calls = before ++ call :: later ∧ call.prepares = some cmd ∧
      (∀ other, some other ∈ (p.afterAll before).dbRequests → other.id ≠ cmd.id) ∧
      ((p.afterAll before).after call).StaysPending cmd later

section Insert

variable {cmd : Command} {cmds : List Command}

theorem insertById_of_mem {other : Command} (hordered : cmds.Pairwise fun a b => a.id < b.id)
    (hother : other ∈ cmds) (hid : other.id = cmd.id) : insertById cmd cmds = cmds := by
  induction cmds with
  | nil => cases hother
  | cons head rest ih =>
      obtain ⟨hhead, hrest⟩ := List.pairwise_cons.mp hordered
      unfold insertById
      rcases List.mem_cons.mp hother with rfl | hmem
      · rw [if_neg (by grind), if_neg (by grind)]
      · have hlt := hhead other hmem
        rw [if_neg (by grind), if_pos (by grind), ih hrest hmem]

theorem insertById_ordered (hordered : cmds.Pairwise fun a b => a.id < b.id) :
    (insertById cmd cmds).Pairwise fun a b => a.id < b.id := by
  induction cmds with
  | nil => simp [insertById]
  | cons head rest ih =>
      obtain ⟨hhead, hrest⟩ := List.pairwise_cons.mp hordered
      unfold insertById
      split
      · rename_i hlt
        refine List.pairwise_cons.mpr ⟨fun other hother => ?_, hordered⟩
        rcases List.mem_cons.mp hother with rfl | hother
        · exact hlt
        · have hnext := hhead other hother
          grind
      split
      · rename_i hlt
        refine List.pairwise_cons.mpr ⟨fun other hother => ?_, ih hrest⟩
        rcases mem_insertById hother with rfl | hother
        · exact hlt
        · exact hhead other hother
      · exact hordered

end Insert

section Order

variable {p q : Participant} {cmd : Command} {call : Call}

theorem Ordered.tail (h : p.Ordered)
    (htail : q.dbRequests = p.dbRequests.tail) : q.Ordered := by
  unfold Ordered IdOrdered
  rw [htail]
  rcases h with hnull | ⟨cmds, hcmds, hordered⟩
  · exact .inr ⟨[], by simp [hnull], List.Pairwise.nil⟩
  · exact .inr ⟨cmds.tail, by simp [hcmds, List.map_tail], hordered.tail⟩

theorem Ordered.same (h : p.Ordered) (hsame : q.dbRequests = p.dbRequests) : q.Ordered := by
  unfold Ordered
  rwa [hsame]

theorem mapM_id_map_some {α : Type} (values : List α) : (values.map some).mapM id = some values := by
  induction values with
  | nil => rfl
  | cons head rest ih => simp [ih]

-- An insertion adds the command where none of its id is pending, and else nothing.
theorem insertRequest_ok {requests requests' : List (Option Command)} (h : IdOrdered requests)
    (hinsert : insertRequest (some cmd) requests = .ok requests') :
    ∃ cmds : List Command, requests' = cmds.map some ∧ (cmds.Pairwise fun a b => a.id < b.id) ∧
      ∀ c ∈ cmds, some c ∈ requests ∨
        c = cmd ∧ ∀ other, some other ∈ requests → other.id ≠ cmd.id := by
  unfold insertRequest at hinsert
  split at hinsert
  · rename_i hempty
    cases hinsert
    refine ⟨[cmd], rfl, List.pairwise_singleton _ _, fun c hc => .inr ⟨List.mem_singleton.mp hc, ?_⟩⟩
    simp [hempty]
  rename_i hne
  rcases h with rfl | ⟨cmds, rfl, hordered⟩
  · simp at hinsert
  simp only [mapM_id_map_some, pure_eq_ok, Except.ok.injEq] at hinsert
  refine ⟨insertById cmd cmds, hinsert.symm, insertById_ordered hordered, fun c hc => ?_⟩
  by_cases hother : ∃ other ∈ cmds, other.id = cmd.id
  · obtain ⟨other, hmem, hid⟩ := hother
    rw [insertById_of_mem hordered hmem hid] at hc
    exact .inl (List.mem_map_of_mem hc)
  · rcases mem_insertById hc with rfl | hold
    · refine .inr ⟨rfl, fun other hmem hid => hother ⟨other, ?_, hid⟩⟩
      simpa using hmem
    · exact .inl (List.mem_map_of_mem hold)

-- What a PREPARE leaves behind, whether it answers or throws.
theorem prepare_keeps {ok : Bool} (h : p.prepare cmd = .ok (ok, q)) (hp : p.Ordered) :
    q.store = p.store ∧ q.nextId = p.nextId ∧ q.Ordered ∧
      ∀ c, some c ∈ q.dbRequests → some c ∈ p.dbRequests ∨
        c = cmd ∧ ∀ other, some other ∈ p.dbRequests → other.id ≠ cmd.id := by
  obtain ⟨hstore, hnext, -⟩ := prepare_ok h
  refine ⟨hstore, hnext, ?_⟩
  unfold prepare at h
  cases hlog : p.rManager.logCommand (some cmd) with
  | error fault =>
      simp only [hlog, pure_eq_ok, Except.ok.injEq, Prod.mk.injEq] at h
      obtain ⟨-, rfl⟩ := h
      exact ⟨hp, fun _ => .inl⟩
  | ok m =>
      simp only [hlog] at h
      cases hinsert : insertRequest (some cmd) p.dbRequests with
      | error fault => simp [hinsert] at h
      | ok requests =>
          simp only [hinsert, ok_bind, pure_eq_ok, Except.ok.injEq, Prod.mk.injEq] at h
          obtain ⟨-, rfl⟩ := h
          obtain ⟨cmds, hcmds, hordered, hmem⟩ := insertRequest_ok hp hinsert
          refine ⟨.inr ⟨cmds, hcmds, hordered⟩, fun c hc => hmem c ?_⟩
          simpa [hcmds] using hc

-- What a call does to the number and to the set, whether it answers or throws.
structure Keeps (p : Participant) (call : Call) (q : Participant) : Prop where
  nextId : p.nextId ≤ q.nextId
  ordered : q.Ordered
  pending : ∀ cmd, some cmd ∈ q.dbRequests → some cmd ∈ p.dbRequests ∨
    call.prepares = some cmd ∧ ∀ other, some other ∈ p.dbRequests → other.id ≠ cmd.id

theorem Keeps.same (hp : p.Ordered) (hnext : q.nextId = p.nextId)
    (hpending : q.dbRequests = p.dbRequests) : p.Keeps call q where
  nextId := UInt32.le_of_eq hnext.symm
  ordered := hp.same hpending
  pending := fun cmd hcmd => .inl (by rwa [hpending] at hcmd)

theorem Keeps.popped (hp : p.Ordered) (hnext : p.nextId ≤ q.nextId)
    (hpending : q.dbRequests = p.dbRequests.tail) : p.Keeps call q where
  nextId := hnext
  ordered := hp.tail hpending
  pending := fun cmd hcmd => .inl (List.mem_of_mem_tail (by rwa [hpending] at hcmd))

theorem commit_keeps {id : UInt32} {ret : Bytes} (h : p.commit id = .ok (ret, q)) (hp : p.Ordered)
    (hid : id < 4294967295) : p.Keeps (.commit id) q := by
  rcases commit_ok h with ⟨-, -, rfl⟩ | ⟨hnext, cmd, rest, hpending, -, -, hnextId, hrest⟩
  · exact Keeps.same hp rfl rfl
  · apply Keeps.popped hp
    · grind
    · rw [hrest, hpending]
      rfl

theorem abort_keeps {id : UInt32} (hp : p.Ordered) (hid : id < 4294967295) :
    p.Keeps (.abort id) (p.abort id).2 := by
  by_cases heq : p.nextId = id
  · obtain ⟨hnext, hpending⟩ := abort_of_eq heq
    exact Keeps.popped hp (by grind) hpending
  by_cases hlt : id < p.nextId
  · obtain ⟨hnext, hpending⟩ := abort_of_lt hlt
    exact Keeps.same hp hnext hpending
  have hgt : p.nextId < id := by grind
  obtain ⟨hnext, hpending⟩ := abort_of_gt hgt
  exact {
    nextId := by grind
    ordered := hp.same hpending
    pending := fun cmd hcmd => .inl (by rwa [hpending] at hcmd) }

theorem after_keeps (hp : p.Ordered) (hid : call.id < 4294967295) : p.Keeps call (p.after call) := by
  unfold after
  cases hserve : p.serve call with
  | error fault => exact Keeps.same hp rfl rfl
  | ok q =>
      cases call with
      | prepareSet cmd =>
          obtain ⟨⟨ok, q'⟩, hprepare, hq⟩ := ok_of_bind hserve
          cases hq
          obtain ⟨-, hnext, hordered, hpending⟩ := prepare_keeps hprepare hp
          exact ⟨UInt32.le_of_eq hnext.symm, hordered, fun c hc => (hpending c hc).imp_right
            fun ⟨heq, hnew⟩ => ⟨by rw [heq]; rfl, by rwa [heq]⟩⟩
      | prepareDel cmd =>
          obtain ⟨⟨ok, q'⟩, hprepare, hq⟩ := ok_of_bind hserve
          cases hq
          obtain ⟨-, hnext, hordered, hpending⟩ := prepare_keeps hprepare hp
          exact ⟨UInt32.le_of_eq hnext.symm, hordered, fun c hc => (hpending c hc).imp_right
            fun ⟨heq, hnew⟩ => ⟨by rw [heq]; rfl, by rwa [heq]⟩⟩
      | refused stage cmd =>
          cases hserve
          obtain ⟨-, hnext, hpending⟩ := p.prepareRefused_keeps stage cmd
          exact Keeps.same hp hnext hpending
      | commit id =>
          obtain ⟨⟨ret, q'⟩, hcommit, hq⟩ := ok_of_bind hserve
          cases hq
          exact commit_keeps hcommit hp hid
      | abort id =>
          cases hserve
          exact abort_keeps hp hid

-- The insertions of recovery() may put a null pointer into the set.
theorem insertRequest_ordered {cmd : Option Command} {requests requests' : List (Option Command)}
    (h : IdOrdered requests) (hinsert : insertRequest cmd requests = .ok requests') :
    IdOrdered requests' := by
  cases cmd with
  | some cmd =>
      obtain ⟨cmds, hcmds, hordered, -⟩ := insertRequest_ok h hinsert
      exact .inr ⟨cmds, hcmds, hordered⟩
  | none =>
      unfold insertRequest at hinsert
      split at hinsert
      · cases hinsert
        exact .inl rfl
      · cases hinsert

theorem recoverRecords_ordered {cmds : IdMap Command} {records : List Record} {id : UInt32}
    {requests : List (Option Command)} {state : UInt32 × List (Option Command)}
    (h : recoverRecords cmds records (id, requests) = .ok state) (hrequests : IdOrdered requests) :
    IdOrdered state.2 := by
  induction records generalizing id requests with
  | nil =>
      cases h
      exact hrequests
  | cons r rest ih =>
      unfold recoverRecords at h
      split at h
      · obtain ⟨-, -, hthrow⟩ := ok_of_bind h
        cases hthrow
      split at h
      · obtain ⟨inserted, hinsert, hrest⟩ := ok_of_bind h
        exact ih hrest (insertRequest_ordered hrequests hinsert)
      · cases h

theorem recovery_ordered {store : Store} {m : RecordManager} (h : recovery store m = .ok p) :
    p.Ordered := by
  obtain ⟨⟨nextId, requests⟩, hrecords, hp⟩ := ok_of_bind h
  cases hp
  exact recoverRecords_ordered hrecords (.inr ⟨[], rfl, List.Pairwise.nil⟩)

end Order

section Applied

variable {p q : Participant} {call : Call} {id : UInt32}

theorem applies_eq_some (h : p.applies call = some id) :
    call = .commit id ∧ p.nextId = id ∧ ∃ ret, p.commit id = .ok (ret, p.after call) := by
  unfold applies at h
  split at h
  · rename_i i
    split at h
    · rename_i hcommit
      cases h
      obtain ⟨hnext, hok⟩ := hcommit
      refine ⟨rfl, hnext, ?_⟩
      cases hresult : p.commit id with
      | error fault => simp [hresult, Except.isOk, Except.toBool] at hok
      | ok result =>
          refine ⟨result.1, ?_⟩
          simp [after, serve, hresult]
    · cases h
  · cases h

-- The command that is applied is the first of the pending ones.
theorem applies_spec (h : p.applies call = some id) :
    ∃ cmd rest ret, p.dbRequests = some cmd :: rest ∧ cmd.id = id ∧
      dispatch p.store cmd = .ok (ret, (p.after call).store) ∧
      (p.after call).nextId = id + 1 := by
  obtain ⟨rfl, hnext, ret, hcommit⟩ := applies_eq_some h
  rcases commit_ok hcommit with ⟨hlt, -⟩ | ⟨-, cmd, rest, hpending, hid, hdispatch, hnextId, -⟩
  · exact absurd hlt (by rw [hnext]; exact UInt32.lt_irrefl id)
  · exact ⟨cmd, rest, ret, hpending, hid, hdispatch, hnextId⟩

theorem after_store (h : p.applies call = none) : (p.after call).store = p.store := by
  unfold after
  cases hserve : p.serve call with
  | error fault => rfl
  | ok q =>
      cases call with
      | prepareSet cmd =>
          obtain ⟨⟨ok, q'⟩, hprepare, hq⟩ := ok_of_bind hserve
          cases hq
          exact (prepare_ok hprepare).1
      | prepareDel cmd =>
          obtain ⟨⟨ok, q'⟩, hprepare, hq⟩ := ok_of_bind hserve
          cases hq
          exact (prepare_ok hprepare).1
      | refused stage cmd =>
          cases hserve
          exact (p.prepareRefused_keeps stage cmd).1
      | commit id =>
          obtain ⟨⟨ret, q'⟩, hcommit, hq⟩ := ok_of_bind hserve
          cases hq
          rcases commit_ok hcommit with ⟨-, -, rfl⟩ | ⟨hnext, -⟩
          · rfl
          · have happlies : p.applies (.commit id) = some id := by
              have hok : (p.commit id).isOk = true := by rw [hcommit]; rfl
              simp [applies, ← hnext, hok]
            rw [happlies] at h
            cases h
      | abort id =>
          cases hserve
          exact p.abort_store id

-- A retried COMMIT or ABORT finds its update resolved.
theorem after_of_lt (hcall : call = .commit id ∨ call = .abort id) (hlt : id < p.nextId) :
    (p.after call).store = p.store ∧ (p.after call).dbRequests = p.dbRequests ∧
      (p.after call).nextId = p.nextId := by
  rcases hcall with rfl | rfl
  · have hcommit : p.commit id = .ok ([], p) := by rw [commit, if_pos hlt, pure_eq_ok]
    simp [after, serve, hcommit]
  · obtain ⟨hnext, hpending⟩ := abort_of_lt hlt
    exact ⟨p.abort_store id, hpending, hnext⟩

end Applied

section Sequences

variable {p : Participant} {calls later : List Call} {call : Call} {cmd : Command}

theorem afterAll_append : p.afterAll (calls ++ later) = (p.afterAll calls).afterAll later :=
  List.foldl_append

theorem allowsAll_append :
    p.AllowsAll (calls ++ later) ↔ p.AllowsAll calls ∧ (p.afterAll calls).AllowsAll later := by
  induction calls generalizing p with
  | nil => simp [AllowsAll, afterAll]
  | cons call calls ih =>
      have hafter : p.afterAll (call :: calls) = (p.after call).afterAll calls := rfl
      simp only [List.cons_append, AllowsAll, hafter, ih, and_assoc]

theorem staysPending_snoc : p.StaysPending cmd (calls ++ [call]) ↔
    p.StaysPending cmd calls ∧ some cmd ∈ ((p.afterAll calls).after call).dbRequests := by
  induction calls generalizing p with
  | nil => rfl
  | cons head calls ih =>
      have hafter : p.afterAll (head :: calls) = (p.after head).afterAll calls := rfl
      simp only [List.cons_append, StaysPending, hafter, ih, and_assoc]

theorem afterAll_ordered (hp : p.Ordered) (hallows : p.AllowsAll calls) :
    (p.afterAll calls).Ordered := by
  induction calls generalizing p with
  | nil => exact hp
  | cons call calls ih => exact ih (after_keeps hp hallows.1.1).ordered hallows.2

theorem FirstPrepared.extend (h : p.FirstPrepared calls cmd)
    (hpending : some cmd ∈ ((p.afterAll calls).after call).dbRequests) :
    p.FirstPrepared (calls ++ [call]) cmd := by
  rcases h with hstays | ⟨before, prepare, later, hcalls, hprepares, hnew, hstays⟩
  · exact .inl (staysPending_snoc.mpr ⟨hstays, hpending⟩)
  · refine .inr ⟨before, prepare, later ++ [call], by simp [hcalls], hprepares, hnew, ?_⟩
    apply staysPending_snoc.mpr
    refine ⟨hstays, ?_⟩
    rw [hcalls, afterAll_append] at hpending
    exact hpending

-- By induction on the calls from the last one: what is pending after it was
-- pending before it or is what it has prepared.
theorem firstPrepared_of_pending (hp : p.Ordered) (hallows : p.AllowsAll calls)
    (hpending : some cmd ∈ (p.afterAll calls).dbRequests) : p.FirstPrepared calls cmd := by
  induction calls using List.reverseRecOn with
  | nil => exact .inl hpending
  | append_singleton calls call ih =>
      obtain ⟨hbefore, hcall⟩ := allowsAll_append.mp hallows
      rw [afterAll_append] at hpending
      have hkeeps := after_keeps (afterAll_ordered hp hbefore) hcall.1.1
      rcases hkeeps.pending cmd hpending with hold | ⟨hprepares, hnew⟩
      · exact (ih hbefore hold).extend hpending
      · exact .inr ⟨calls, call, [], rfl, hprepares, hnew, hpending⟩

theorem nextId_le_appliedIds (hp : p.Ordered) (hallows : p.AllowsAll calls) :
    ∀ id ∈ p.appliedIds calls, p.nextId ≤ id := by
  induction calls generalizing p with
  | nil => simp [appliedIds]
  | cons call calls ih =>
      intro id hid
      have hkeeps := after_keeps hp hallows.1.1
      rcases List.mem_append.mp hid with happlied | hlater
      · obtain ⟨-, hnext, -⟩ := applies_eq_some (Option.mem_toList.mp happlied)
        exact UInt32.le_of_eq hnext
      · exact UInt32.le_trans hkeeps.nextId (ih hkeeps.ordered hallows.2 id hlater)

-- An id that has been applied is below next_id_ from then on.
theorem appliedIds_nodup (hp : p.Ordered) (hallows : p.AllowsAll calls) :
    (p.appliedIds calls).Nodup := by
  induction calls generalizing p with
  | nil => exact List.nodup_nil
  | cons call calls ih =>
      have hkeeps := after_keeps hp hallows.1.1
      have hlater := ih hkeeps.ordered hallows.2
      unfold appliedIds
      cases happlies : p.applies call with
      | none => simpa using hlater
      | some id =>
          obtain ⟨rfl, -, -⟩ := applies_eq_some happlies
          obtain ⟨-, -, -, -, -, -, hnext⟩ := applies_spec happlies
          refine List.nodup_cons.mpr ⟨fun hmem => ?_, hlater⟩
          have hle := nextId_le_appliedIds hkeeps.ordered hallows.2 id hmem
          have hbound : id < 4294967295 := hallows.1.1
          grind

end Sequences

-- What a call does after the given ones.
structure Retried (p : Participant) (calls : List Call) (call : Call) : Prop where
  monotone : (p.afterAll calls).nextId ≤ ((p.afterAll calls).after call).nextId
  kept : (p.afterAll calls).applies call = none →
    ((p.afterAll calls).after call).store = (p.afterAll calls).store
  applied : ∀ id, (p.afterAll calls).applies call = some id →
    call = .commit id ∧ (p.afterAll calls).nextId = id ∧
      ∃ cmd ret, p.FirstPrepared calls cmd ∧
        (∀ other, some other ∈ (p.afterAll calls).dbRequests ∧ other.id = id ↔ other = cmd) ∧
        dispatch (p.afterAll calls).store cmd = .ok (ret, ((p.afterAll calls).after call).store)
  resolved : ∀ id, call = .commit id ∨ call = .abort id → id < (p.afterAll calls).nextId →
    ((p.afterAll calls).after call).store = (p.afterAll calls).store ∧
      ((p.afterAll calls).after call).dbRequests = (p.afterAll calls).dbRequests ∧
      ((p.afterAll calls).after call).nextId = (p.afterAll calls).nextId

theorem Ordered.eq_head {p : Participant} {cmd : Command} {rest : List (Option Command)}
    (hp : p.Ordered) (hpending : p.dbRequests = some cmd :: rest) (other : Command) :
    some other ∈ p.dbRequests ∧ other.id = cmd.id ↔ other = cmd := by
  constructor
  · intro ⟨hmem, hid⟩
    rcases hp with hnull | ⟨cmds, hcmds, hordered⟩
    · simp [hnull] at hpending
    obtain ⟨head, tail, rfl, hhead, -⟩ := List.map_eq_cons_iff.mp (hcmds.symm.trans hpending)
    cases hhead
    have hother : other ∈ cmd :: tail := by simpa [hcmds] using hmem
    rcases List.mem_cons.mp hother with heq | hlater
    · exact heq
    · have hlt := (List.pairwise_cons.mp hordered).1 other hlater
      exact absurd hlt (by rw [hid]; exact UInt32.lt_irrefl cmd.id)
  · rintro rfl
    exact ⟨by rw [hpending]; exact List.mem_cons_self, rfl⟩

end CloudLabs.Cdb.Participant
