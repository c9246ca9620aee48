import CloudLabs.Cdb.Connections.Steps

namespace CloudLabs.Cdb.Connections

open TcpServer

section Rank

-- A job does its actions in the order of their ranks, the highest first. Rank 6
-- is disconnecting, rank 2 the part before handle_db_requests, and the ranks
-- between them are inside of it.
def Request.rank : Request → Nat
  | .read _ => 4
  | .write _ => 5

def Held.rank : Held → Nat
  | .serve _ _ => 2
  | .clearCallback _ _ => 6
  | .submit _ request => request.rank
  | .setCallback _ request => request.rank
  | .push _ request => request.rank

def Action.rank : Action → Nat
  | .serve _ _ | .accept | .onReadAvailable _ _ _ | .onWriteAvailable _ _ _
  | .handleDbRequests _ _ _ => 2
  | .submit _ request => request.rank
  | .dispatch _ _ _ _ => 4
  | .returned _ => 3
  | .disconnect _ _ | .setDisconnected _ _ | .clearRequests _ _ | .unregister _ | .close _
  | .waitOnRemoval _ => 6
  | .complete => 1

-- The second rank comes after the first one in a job.
def follows (first second : Nat) : Prop := first = 6 ∨ (second < first ∧ second ≠ 2)

def Job.ranks (job : Job) : List Nat := (job.held.map Held.rank).toList ++ job.todo.map Action.rank

def Job.Shaped (job : Job) : Prop := job.ranks.Pairwise follows

-- What takes the place of an action comes before what is left as the action did.
theorem pairwise_follows_replace {rank : Nat} {new rest : List Nat}
    (h : (rank :: rest).Pairwise follows) (hnew : new.Pairwise follows)
    (hranks : ∀ other ∈ new, other = 6 ∨ (rank ≠ 6 ∧ rank ≤ other)) :
    (new ++ rest).Pairwise follows := by
  obtain ⟨hrank, hrest⟩ := List.pairwise_cons.mp h
  refine List.pairwise_append.mpr ⟨hnew, hrest, fun other hother last hlast => ?_⟩
  have hlast := hrank last hlast
  unfold follows at hlast ⊢
  obtain hsix | ⟨hne, hle⟩ := hranks other hother
  · exact .inl hsix
  · right
    omega

theorem Request.rank_eq (request : Request) : request.rank = 4 ∨ request.rank = 5 := by
  cases request with
  | read _ => exact .inl rfl
  | write _ => exact .inr rfl

theorem ranks_of_held {job : Job} {held : Held} (h : job.held = some held) :
    job.ranks = held.rank :: job.todo.map Action.rank := by
  unfold Job.ranks
  rw [h]
  rfl

theorem ranks_of_todo {job : Job} {action : Action} {rest : List Action} (hheld : job.held = none)
    (htodo : job.todo = action :: rest) : job.ranks = action.rank :: rest.map Action.rank := by
  unfold Job.ranks
  rw [hheld, htodo]
  rfl

theorem pairwise_follows_singleton (rank : Nat) : [rank].Pairwise follows :=
  List.pairwise_singleton follows rank

theorem pairwise_follows_six {new : List Nat} (h : ∀ rank ∈ new, rank = 6) : new.Pairwise follows :=
  List.pairwise_of_forall_mem_list fun rank hrank _ _ => .inl (h rank hrank)

end Rank

namespace Job.Shaped

variable {s next : Shared} {busy : Kind × Nat → Bool} {job job' : Job}

theorem replace_held {held : Held} (h : job.Shaped) (new : List Nat) (hheld : job.held = some held)
    (hranks : job'.ranks = new ++ job.todo.map Action.rank) (hnew : new.Pairwise follows)
    (hle : ∀ other ∈ new, other = 6 ∨ (held.rank ≠ 6 ∧ held.rank ≤ other)) : job'.Shaped := by
  unfold Shaped at h ⊢
  rw [ranks_of_held hheld] at h
  rw [hranks]
  exact pairwise_follows_replace h hnew hle

theorem replace_todo {action : Action} {rest : List Action} (h : job.Shaped) (new : List Nat)
    (hheld : job.held = none) (htodo : job.todo = action :: rest)
    (hranks : job'.ranks = new ++ rest.map Action.rank) (hnew : new.Pairwise follows)
    (hle : ∀ other ∈ new, other = 6 ∨ (action.rank ≠ 6 ∧ action.rank ≤ other)) : job'.Shaped := by
  unfold Shaped at h ⊢
  rw [ranks_of_todo hheld htodo] at h
  rw [hranks]
  exact pairwise_follows_replace h hnew hle

theorem served {kind : Kind} {c : Nat} {last : Bool} {action : Action} (h : job.Shaped)
    (hheld : job.held = some (.serve kind c)) (haction : action.rank = 2) :
    (job.served kind c last action).Shaped := by
  cases last with
  | true =>
      refine h.replace_held [6, 2] hheld ?_ (by simp [follows]) (by simp [Held.rank])
      simp [Job.served, Job.ranks, Held.rank, haction]
  | false =>
      refine h.replace_held [2] hheld ?_ (pairwise_follows_singleton 2) (by simp [Held.rank])
      simp [Job.served, Job.ranks, haction]

theorem step (h : job.Shaped) (hstep : JobStep s busy job next job') : job'.Shaped := by
  cases hstep with
  | readNothing result hheld hnone =>
      exact h.replace_held [2] hheld rfl (pairwise_follows_singleton 2) (by simp [Held.rank])
  | received data hheld hrequests => exact h.served hheld rfl
  | recvFailed hheld hrequests => exact h.served hheld rfl
  | wroteNothing success hheld hnone =>
      exact h.replace_held [2] hheld rfl (pairwise_follows_singleton 2) (by simp [Held.rank])
  | sent success hheld hrequests => exact h.served hheld rfl
  | cleared hheld => exact h.replace_held [] hheld rfl .nil (by simp)
  | @refused c request hheld hconnected =>
      cases request with
      | read prevData => exact h.replace_held [] hheld rfl .nil (by simp)
      | write request =>
          exact h.replace_held [6] hheld rfl (pairwise_follows_singleton 6) (by simp)
  | @submitted c request hheld hconnected =>
      refine h.replace_held [request.rank] hheld rfl (pairwise_follows_singleton _) ?_
      have hrank := request.rank_eq
      simp only [List.mem_singleton, Held.rank, forall_eq]
      omega
  | @callbackSet c request hheld =>
      refine h.replace_held [request.rank] hheld rfl (pairwise_follows_singleton _) ?_
      have hrank := request.rank_eq
      simp only [List.mem_singleton, Held.rank, forall_eq]
      omega
  | pushed hheld => exact h.replace_held [] hheld rfl .nil (by simp)
  | serves hheld htodo hbusy =>
      exact h.replace_todo [2] hheld htodo rfl (pairwise_follows_singleton 2) (by simp [Action.rank])
  | @submits c request rest hheld htodo hbusy =>
      refine h.replace_todo [request.rank] hheld htodo rfl (pairwise_follows_singleton _) ?_
      have hrank := request.rank_eq
      simp only [List.mem_singleton, Action.rank, forall_eq]
      omega
  | accepted hheld htodo hfree =>
      refine h.replace_todo [4] hheld htodo ?_ (pairwise_follows_singleton 4) (by simp [Action.rank])
      simp [Job.ranks, hheld, Action.rank, Request.rank]
  | @readAvailable c result cb rest hheld htodo =>
      refine h.replace_todo ((Job.afterRead c result cb).map Action.rank) hheld htodo ?_ ?_ ?_
      · simp [Job.ranks, hheld]
      · cases result <;> cases cb <;> simp [Job.afterRead, Action.rank, follows]
      · cases result <;> cases cb <;> simp [Job.afterRead, Action.rank]
  | @writeAvailable c success disconnects rest hheld htodo =>
      refine h.replace_todo ((Job.afterWrite c success disconnects).map Action.rank) hheld htodo ?_ ?_ ?_
      · simp [Job.ranks, hheld]
      · cases success <;> cases disconnects <;> simp [Job.afterWrite, Action.rank, follows]
      · cases success <;> cases disconnects <;> simp [Job.afterWrite, Action.rank]
  | handledFailure hheld htodo =>
      refine h.replace_todo [6, 3] hheld htodo ?_ (by simp [follows]) (by simp [Action.rank])
      simp [Job.ranks, hheld, Action.rank]
  | parsed hheld htodo =>
      refine h.replace_todo [4, 3] hheld htodo ?_ (by simp [follows]) (by simp [Action.rank])
      simp [Job.ranks, hheld, Action.rank]
  | @dispatchedAll c number after rest hheld htodo =>
      refine h.replace_todo [(Job.afterDispatch number after).rank] hheld htodo ?_
        (pairwise_follows_singleton _) ?_
      · simp [Job.ranks, hheld, Action.rank]
      · have hrank := (Job.afterDispatch number after).rank_eq
        simp only [List.mem_singleton, Action.rank, forall_eq]
        omega
  | replied data disconnects hheld htodo =>
      refine h.replace_todo [5, 4] hheld htodo ?_ (by simp [follows]) (by simp [Action.rank])
      simp [Job.ranks, hheld, Action.rank, Request.rank]
  | dispatched hheld htodo =>
      refine h.replace_todo [4] hheld htodo ?_ (pairwise_follows_singleton 4) (by simp [Action.rank])
      simp [Job.ranks, hheld, Action.rank]
  | threw hheld htodo => simp [Shaped, Job.ranks, hheld]
  | returned hheld htodo =>
      exact h.replace_todo [] hheld htodo (by simp [Job.ranks, hheld]) .nil (by simp)
  | disconnects hheld htodo =>
      refine h.replace_todo [6] hheld htodo ?_ (pairwise_follows_singleton 6) (by simp)
      simp [Job.ranks, hheld, Action.rank]
  | notConnected hheld htodo =>
      exact h.replace_todo [] hheld htodo (by simp [Job.ranks, hheld]) .nil (by simp)
  | @setDisconnected c wait rest hheld htodo =>
      refine h.replace_todo ([6, 6, 6, 6] ++ (if wait then [6] else [])) hheld htodo ?_
        (pairwise_follows_six (by cases wait <;> simp)) (by cases wait <;> simp)
      cases wait <;> simp [Job.ranks, hheld, Action.rank]
  | requestsCleared hheld htodo hbusy =>
      exact h.replace_todo [] hheld htodo (by simp [Job.ranks, hheld]) .nil (by simp)
  | unregistered hheld htodo =>
      exact h.replace_todo [] hheld htodo (by simp [Job.ranks, hheld]) .nil (by simp)
  | closed hheld htodo =>
      exact h.replace_todo [] hheld htodo (by simp [Job.ranks, hheld]) .nil (by simp)
  | removed hheld htodo hremoved =>
      exact h.replace_todo [] hheld htodo (by simp [Job.ranks, hheld]) .nil (by simp)
  | completed hheld htodo hrole => simp [Shaped, Job.ranks, hheld]
  | ended hheld htodo hrole => simp [Shaped, Job.ranks, hheld]

end Job.Shaped

section Marks

-- What a job does for a client: it carries out its read callback, it has the one
-- read that the client waits for, it knows the client, or it disconnects it.
inductive Mark where
  | reads (c : Nat)
  | token (c : Nat)
  | mentions (c : Nat)
  | gone (c : Nat)
  deriving DecidableEq

def Request.marks (c : Nat) : Request → List Mark
  | .read _ => [.mentions c, .token c]
  | .write _ => [.mentions c, .reads c]

def Held.marks : Held → List Mark
  | .serve .rd c => [.mentions c, .reads c]
  | .serve .wr c => [.mentions c]
  | .clearCallback _ c => [.mentions c]
  | .submit c request => request.marks c
  | .setCallback c request => request.marks c
  | .push c request => request.marks c

def Action.marks : Action → List Mark
  | .serve .rd c => [.mentions c, .reads c]
  | .serve .wr c => [.mentions c]
  | .submit c request => request.marks c
  | .accept => []
  | .onReadAvailable c _ none => [.mentions c, .reads c]
  | .onReadAvailable c _ (some _) => [.mentions c, .reads c, .token c]
  | .onWriteAvailable c _ _ => [.mentions c]
  | .handleDbRequests c _ _ => [.mentions c, .reads c, .token c]
  | .dispatch c _ _ (.read _) => [.mentions c, .reads c, .token c]
  | .dispatch c _ _ .closed => [.mentions c, .reads c]
  | .returned c => [.mentions c, .reads c]
  | .disconnect c _ | .setDisconnected c _ => [.mentions c]
  | .clearRequests _ c | .unregister c | .close c | .waitOnRemoval c => [.mentions c, .gone c]
  | .complete => []

def Role.marks : Role → List Mark
  | .task _ _ (.client c) => [.mentions c]
  | _ => []

def Job.marks (job : Job) : List Mark :=
  job.role.marks ++ ((job.held.map Held.marks).getD [] ++ job.todo.flatMap Action.marks)

variable {s next : Shared} {busy : Kind × Nat → Bool} {job job' : Job} {mark : Mark}

theorem marks_of_held {held : Held} (h : job.held = some held) :
    job.marks = job.role.marks ++ (held.marks ++ job.todo.flatMap Action.marks) := by
  unfold Job.marks
  rw [h]
  rfl

theorem marks_of_todo {action : Action} {rest : List Action} (hheld : job.held = none)
    (htodo : job.todo = action :: rest) :
    job.marks = job.role.marks ++ (action.marks ++ rest.flatMap Action.marks) := by
  unfold Job.marks
  rw [hheld, htodo]
  rfl

theorem mem_marks_held {held : Held} (h : job.held = some held) (hmark : mark ∈ held.marks) :
    mark ∈ job.marks := by
  rw [marks_of_held h]
  exact List.mem_append_right _ (List.mem_append_left _ hmark)

theorem mem_marks_todo {action : Action} (h : action ∈ job.todo) (hmark : mark ∈ action.marks) :
    mark ∈ job.marks :=
  List.mem_append_right _ (List.mem_append_right _ (List.mem_flatMap.mpr ⟨action, h, hmark⟩))

theorem mem_marks_head {action : Action} {rest : List Action} (htodo : job.todo = action :: rest)
    (hmark : mark ∈ action.marks) : mark ∈ job.marks :=
  mem_marks_todo (htodo ▸ List.mem_cons_self) hmark

def Mark.client : Mark → Nat
  | .reads c | .token c | .mentions c | .gone c => c

theorem Request.mentions_client {request : Request} {c : Nat} (h : mark ∈ request.marks c) :
    .mentions mark.client ∈ request.marks c := by
  cases request <;> simp only [Request.marks, List.mem_cons, List.not_mem_nil, or_false] at h ⊢ <;>
    obtain rfl | rfl := h <;> simp [Mark.client]

theorem Held.mentions_client {held : Held} (h : mark ∈ held.marks) :
    .mentions mark.client ∈ held.marks := by
  cases held with
  | serve kind c => cases kind <;> simp only [Held.marks] at h ⊢ <;> grind [Mark.client]
  | clearCallback kind c => simp only [Held.marks] at h ⊢; grind [Mark.client]
  | _ => exact Request.mentions_client h

theorem Action.mentions_client {action : Action} (h : mark ∈ action.marks) :
    .mentions mark.client ∈ action.marks := by
  cases action with
  | serve kind c => cases kind <;> simp only [Action.marks] at h ⊢ <;> grind [Mark.client]
  | submit c request => exact Request.mentions_client h
  | onReadAvailable c result cb => cases cb <;> simp only [Action.marks] at h ⊢ <;> grind [Mark.client]
  | dispatch c number cmds after => cases after <;> simp only [Action.marks] at h ⊢ <;> grind [Mark.client]
  | _ => simp only [Action.marks] at h ⊢; grind [Mark.client]

-- A job knows the clients that it does something for.
theorem mentions_client (h : mark ∈ job.marks) : .mentions mark.client ∈ job.marks := by
  simp only [Job.marks, List.mem_append, List.mem_flatMap] at h ⊢
  obtain h | h | ⟨action, haction, h⟩ := h
  · left
    unfold Role.marks at h ⊢
    split at h
    · rw [List.mem_singleton.mp h]
      exact List.mem_singleton.mpr rfl
    · cases h
  · refine .inr (.inl ?_)
    cases hheld : job.held with
    | none =>
        rw [hheld] at h
        cases h
    | some held =>
        rw [hheld] at h
        exact Held.mentions_client h
  · exact .inr (.inr ⟨action, haction, action.mentions_client h⟩)

theorem mentions_of_gone {c : Nat} (h : .gone c ∈ job.marks) : .mentions c ∈ job.marks :=
  mentions_client h

theorem mentions_of_token {c : Nat} (h : .token c ∈ job.marks) : .mentions c ∈ job.marks :=
  mentions_client h

-- What a job gets for the head of its actions, and what it had.
theorem mem_marks_of_todo {action : Action} {rest : List Action} (new : List Action)
    (hheld : job.held = none) (htodo : job.todo = action :: rest)
    (h : mark ∈ Job.marks { job with todo := new ++ rest }) :
    mark ∈ new.flatMap Action.marks ∨ mark ∈ job.marks := by
  simp only [Job.marks, List.mem_append, List.flatMap_append, hheld] at h
  obtain h | h | h | h := h
  · exact .inr (List.mem_append_left _ h)
  · cases h
  · exact .inl h
  · obtain ⟨other, hother, hmark⟩ := List.mem_flatMap.mp h
    exact .inr (mem_marks_todo (htodo ▸ List.mem_cons_of_mem _ hother) hmark)

theorem mem_marks_replaced {action : Action} {rest : List Action} (new : List Action)
    (hheld : job.held = none) (htodo : job.todo = action :: rest)
    (hnew : new.flatMap Action.marks ⊆ action.marks)
    (h : mark ∈ Job.marks { job with todo := new ++ rest }) : mark ∈ job.marks := by
  obtain h | h := mem_marks_of_todo new hheld htodo h
  · exact mem_marks_head htodo (hnew h)
  · exact h

-- What a job gets for what it did under a mutex, and what it had.
theorem mem_marks_of_held (held : Option Held) (new : List Action)
    (h : mark ∈ Job.marks { job with held := held, todo := new ++ job.todo }) :
    mark ∈ (held.map Held.marks).getD [] ++ new.flatMap Action.marks ∨ mark ∈ job.marks := by
  simp only [Job.marks, List.mem_append, List.flatMap_append] at h
  obtain h | h | h | h := h
  · exact .inr (List.mem_append_left _ h)
  · exact .inl (List.mem_append_left _ h)
  · exact .inl (List.mem_append_right _ h)
  · obtain ⟨other, hother, hmark⟩ := List.mem_flatMap.mp h
    exact .inr (mem_marks_todo hother hmark)

theorem mem_marks_released {held : Held} (held' : Option Held) (new : List Action)
    (hheld : job.held = some held)
    (hnew : (held'.map Held.marks).getD [] ++ new.flatMap Action.marks ⊆ held.marks)
    (h : mark ∈ Job.marks { job with held := held', todo := new ++ job.todo }) : mark ∈ job.marks := by
  obtain h | h := mem_marks_of_held held' new h
  · exact mem_marks_held hheld (hnew h)
  · exact h

theorem mem_marks_served {c : Nat} {cb : Option Bytes} {last : Bool} {result : ReadResult}
    (hheld : job.held = some (.serve .rd c))
    (h : mark ∈ (job.served .rd c last (.onReadAvailable c result (some cb))).marks) :
    mark = .token c ∨ mark ∈ job.marks := by
  obtain h | h := mem_marks_of_held _ [.onReadAvailable c result (some cb)] h
  · by_cases htoken : mark = .token c
    · exact .inl htoken
    · right
      refine mem_marks_held hheld ?_
      cases last <;> simpa [Held.marks, Action.marks, htoken] using h
  · exact .inr h

-- The marks of the job after a step, apart from those that the step is there for.
theorem marks_step (hstep : JobStep s busy job next job') (hmark : mark ∈ job'.marks) :
    mark ∈ job.marks ∨
    (∃ c, mark = .token c ∧ job.held = some (.serve .rd c) ∧ (s.clients c).readRequests ≠ []) ∨
    ((mark = .mentions s.accepted ∨ mark = .token s.accepted) ∧ ∃ fd, next = s.accept fd) ∨
    (∃ c, mark = .gone c ∧ .mentions c ∈ job.marks ∧ (next.clients c).isConnected = false) := by
  cases hstep with
  | @readNothing c result hheld hnone =>
      left
      exact mem_marks_released none [.onReadAvailable c result none] hheld
        (by simp [Action.marks, Held.marks]) hmark
  | received data hheld hrequests =>
      refine (mem_marks_served hheld hmark).elim (fun h => .inr (.inl ⟨_, h, hheld, ?_⟩)) .inl
      simp [hrequests]
  | recvFailed hheld hrequests =>
      refine (mem_marks_served hheld hmark).elim (fun h => .inr (.inl ⟨_, h, hheld, ?_⟩)) .inl
      simp [hrequests]
  | @wroteNothing c success hheld hnone =>
      left
      exact mem_marks_released none [.onWriteAvailable c success false] hheld
        (by simp [Action.marks, Held.marks]) hmark
  | @sent c request requests success hheld hrequests =>
      left
      refine mem_marks_released _ [.onWriteAvailable c success request.disconnects] hheld ?_ hmark
      cases requests <;> simp [Action.marks, Held.marks]
  | cleared hheld => exact .inl (mem_marks_released none [] hheld (by simp) hmark)
  | @refused c request hheld hconnected =>
      left
      refine mem_marks_released none _ hheld ?_ hmark
      cases request <;> simp [Job.notConnected, Action.marks, Held.marks, Request.marks]
  | submitted hheld hconnected =>
      exact .inl (mem_marks_released _ [] hheld (by simp [Held.marks]) hmark)
  | callbackSet hheld => exact .inl (mem_marks_released _ [] hheld (by simp [Held.marks]) hmark)
  | pushed hheld => exact .inl (mem_marks_released none [] hheld (by simp) hmark)
  | @serves kind c rest hheld htodo hbusy =>
      left
      have hheadMarks : Held.marks (.serve kind c) = Action.marks (.serve kind c) := by cases kind <;> rfl
      rw [marks_of_todo hheld htodo, ← hheadMarks]
      exact hmark
  | submits hheld htodo hbusy =>
      left
      rw [marks_of_todo hheld htodo]
      exact hmark
  | @accepted fd rest hheld htodo hfree =>
      obtain h | h := mem_marks_of_todo [.submit s.accepted (.read none)] hheld htodo hmark
      · exact .inr (.inr (.inl ⟨by simpa [Action.marks, Request.marks] using h, fd, rfl⟩))
      · exact .inl h
  | @readAvailable c result cb rest hheld htodo =>
      left
      refine mem_marks_replaced _ hheld htodo ?_ hmark
      cases result <;> cases cb <;> simp [Job.afterRead, Action.marks]
  | @writeAvailable c success disconnects rest hheld htodo =>
      left
      refine mem_marks_replaced _ hheld htodo ?_ hmark
      cases success <;> cases disconnects <;> simp [Job.afterWrite, Action.marks]
  | @handledFailure c prevData rest hheld htodo =>
      left
      exact mem_marks_replaced [.disconnect c false, .returned c] hheld htodo (by simp [Action.marks]) hmark
  | @parsed c prevData data rest hheld htodo =>
      left
      refine mem_marks_replaced [.dispatch _ _ _ _, .returned c] hheld htodo ?_ hmark
      cases (handleDbRequests prevData data).2 <;> simp [Action.marks]
  | @dispatchedAll c number after rest hheld htodo =>
      left
      refine mem_marks_replaced [.submit c (Job.afterDispatch number after)] hheld htodo ?_ hmark
      cases after <;> simp [Action.marks, Job.afterDispatch, Request.marks]
  | @replied c number cmd cmds after rest data disconnects hheld htodo =>
      left
      refine mem_marks_replaced [.submit c _, .dispatch c number (cmd :: cmds) after] hheld htodo ?_ hmark
      cases after <;> simp [Action.marks, Request.marks]
  | @dispatched c number cmd cmds after rest hheld htodo =>
      left
      refine mem_marks_replaced [.dispatch c (number + 1) cmds after] hheld htodo ?_ hmark
      cases after <;> simp [Action.marks]
  | threw hheld htodo =>
      left
      simp only [Job.marks, hheld, Option.map_none, Option.getD_none, List.flatMap_nil, List.append_nil] at hmark
      exact List.mem_append_left _ hmark
  | returned hheld htodo => exact .inl (mem_marks_replaced [] hheld htodo (by simp) hmark)
  | @disconnects c wait rest hheld htodo =>
      left
      exact mem_marks_replaced [.setDisconnected c wait] hheld htodo (by simp [Action.marks]) hmark
  | notConnected hheld htodo => exact .inl (mem_marks_replaced [] hheld htodo (by simp) hmark)
  | @setDisconnected c wait rest hheld htodo =>
      have hhead : Mark.mentions c ∈ job.marks := mem_marks_head htodo (by simp [Action.marks])
      obtain h | h := mem_marks_of_todo ([.clearRequests .rd c, .clearRequests .wr c, .unregister c,
        .close c] ++ if wait then [.waitOnRemoval c] else []) hheld htodo
        (by simpa [List.append_assoc] using hmark)
      · have hnew : mark = .mentions c ∨ mark = .gone c := by
          obtain ⟨action, haction, hmem⟩ := List.mem_flatMap.mp h
          cases wait <;> simp only [List.cons_append, List.nil_append, List.mem_cons, List.not_mem_nil,
            or_false, if_true, Bool.false_eq_true, if_false] at haction <;> grind [Action.marks]
        obtain h | h := hnew
        · exact .inl (h ▸ hhead)
        · exact .inr (.inr (.inr ⟨c, h, hhead, by simp [Shared.setClient]⟩))
      · exact .inl h
  | requestsCleared hheld htodo hbusy => exact .inl (mem_marks_replaced [] hheld htodo (by simp) hmark)
  | unregistered hheld htodo => exact .inl (mem_marks_replaced [] hheld htodo (by simp) hmark)
  | closed hheld htodo => exact .inl (mem_marks_replaced [] hheld htodo (by simp) hmark)
  | removed hheld htodo hremoved => exact .inl (mem_marks_replaced [] hheld htodo (by simp) hmark)
  | completed hheld htodo hrole =>
      left
      simp only [Job.marks, hheld, Option.map_none, Option.getD_none, List.flatMap_nil, List.append_nil] at hmark
      exact List.mem_append_left _ hmark
  | ended hheld htodo hrole =>
      left
      simp only [Job.marks, hheld, Option.map_none, Option.getD_none, List.flatMap_nil, List.append_nil] at hmark
      exact List.mem_append_left _ hmark

end Marks

section Numbers

-- The commands that a job still queues replies for, in the order of its actions.
def Request.number? : Request → Option Nat
  | .read _ => none
  | .write request => some request.number

def Held.number? : Held → Option Nat
  | .submit _ request => request.number?
  | .setCallback _ request => request.number?
  | .push _ request => request.number?
  | _ => none

def Action.number? : Action → Option Nat
  | .submit _ request => request.number?
  | .dispatch _ number _ _ => some number
  | _ => none

def Job.numbers (job : Job) : List Nat :=
  (job.held.bind Held.number?).toList ++ job.todo.filterMap Action.number?

def Job.Numbered (job : Job) : Prop := job.numbers.Pairwise (· ≤ ·)

variable {s next : Shared} {busy : Kind × Nat → Bool} {job job' : Job}

theorem Action.rank_of_number {action : Action} {number : Nat} (h : action.number? = some number) :
    4 ≤ action.rank := by
  cases action with
  | submit c request =>
      have hrank := request.rank_eq
      simp only [Action.rank]
      omega
  | dispatch => exact Nat.le_refl 4
  | _ => cases h

-- Behind an action of rank 4 or less nothing is queued.
theorem filterMap_number_eq_nil {action : Action} {rest : List Action} (h : job.Shaped)
    (hheld : job.held = none) (htodo : job.todo = action :: rest) (hrank : action.rank ≤ 4) :
    rest.filterMap Action.number? = [] := by
  unfold Job.Shaped at h
  rw [ranks_of_todo hheld htodo] at h
  refine List.filterMap_eq_nil_iff.mpr fun other hother => ?_
  cases hnumber : other.number? with
  | none => rfl
  | some number =>
      have hlow := (List.pairwise_cons.mp h).1 other.rank (List.mem_map_of_mem hother)
      have hhigh := Action.rank_of_number hnumber
      unfold follows at hlow
      omega

theorem numbers_of_held {held : Held} (h : job.held = some held) :
    job.numbers = held.number?.toList ++ job.todo.filterMap Action.number? := by
  unfold Job.numbers
  rw [h]
  rfl

theorem numbers_of_todo {action : Action} {rest : List Action} (hheld : job.held = none)
    (htodo : job.todo = action :: rest) :
    job.numbers = action.number?.toList ++ rest.filterMap Action.number? := by
  unfold Job.numbers
  rw [hheld, htodo, List.filterMap_cons]
  cases action.number? <;> rfl

-- Where nothing but the front of the numbers is lost, they stay in order.
theorem Job.Numbered.of_held {held : Held} (h : job.Numbered) (hheld : job.held = some held)
    (hsuffix : job'.numbers <:+ held.number?.toList ++ job.todo.filterMap Action.number?) :
    job'.Numbered := by
  unfold Job.Numbered at h ⊢
  rw [numbers_of_held hheld] at h
  exact List.Pairwise.sublist hsuffix.sublist h

theorem Job.Numbered.of_todo {action : Action} {rest : List Action} (h : job.Numbered)
    (hheld : job.held = none) (htodo : job.todo = action :: rest)
    (hsuffix : job'.numbers <:+ action.number?.toList ++ rest.filterMap Action.number?) :
    job'.Numbered := by
  unfold Job.Numbered at h ⊢
  rw [numbers_of_todo hheld htodo] at h
  exact List.Pairwise.sublist hsuffix.sublist h

theorem Job.Numbered.replaced {action : Action} {rest : List Action} (h : job.Numbered)
    (hheld : job.held = none) (htodo : job.todo = action :: rest) (new : List Action)
    (hnew : new.filterMap Action.number? = []) :
    Job.Numbered { job with todo := new ++ rest } := by
  refine h.of_todo hheld htodo ?_
  unfold Job.numbers
  rw [hheld, List.filterMap_append, hnew]
  exact List.suffix_append _ _

theorem Job.numbered_of_rest {rest : List Action} (hheld : job.held = none)
    (hrest : rest.filterMap Action.number? = []) (new : List Action)
    (hnew : (new.filterMap Action.number?).Pairwise (· ≤ ·)) :
    Job.Numbered { job with todo := new ++ rest } := by
  unfold Job.Numbered Job.numbers
  rw [hheld, List.filterMap_append, hrest, List.append_nil]
  exact hnew

theorem Job.Numbered.served {kind : Kind} {c : Nat} {action : Action} (h : job.Numbered)
    (hheld : job.held = some (.serve kind c)) (last : Bool) (haction : action.number? = none) :
    (job.served kind c last action).Numbered := by
  refine h.of_held hheld ?_
  unfold Job.numbers Job.served
  rw [List.filterMap_cons_none haction]
  cases last <;> exact List.suffix_refl _

theorem Job.Numbered.step (h : job.Numbered) (hshaped : job.Shaped)
    (hstep : JobStep s busy job next job') : job'.Numbered := by
  cases hstep with
  | readNothing result hheld hnone => exact h.of_held hheld (List.suffix_refl _)
  | received data hheld hrequests =>
      exact h.served hheld _ rfl
  | recvFailed hheld hrequests =>
      exact h.served hheld _ rfl
  | wroteNothing success hheld hnone => exact h.of_held hheld (List.suffix_refl _)
  | sent success hheld hrequests =>
      exact h.served hheld _ rfl
  | cleared hheld => exact h.of_held hheld (List.suffix_refl _)
  | @refused c request hheld hconnected =>
      refine h.of_held hheld ?_
      cases request with
      | read prevData => exact List.suffix_refl _
      | write request => exact List.suffix_append _ _
  | submitted hheld hconnected => exact h.of_held hheld (List.suffix_refl _)
  | callbackSet hheld => exact h.of_held hheld (List.suffix_refl _)
  | pushed hheld => exact h.of_held hheld (List.suffix_append _ _)
  | serves hheld htodo hbusy => exact h.of_todo hheld htodo (List.suffix_refl _)
  | submits hheld htodo hbusy => exact h.of_todo hheld htodo (List.suffix_refl _)
  | accepted hheld htodo hfree => exact h.replaced hheld htodo [.submit _ (.read none)] rfl
  | @readAvailable c result cb rest hheld htodo =>
      exact h.replaced hheld htodo _ (by cases result <;> cases cb <;> rfl)
  | @writeAvailable c success disconnects rest hheld htodo =>
      exact h.replaced hheld htodo _ (by cases success <;> cases disconnects <;> rfl)
  | @handledFailure c prevData rest hheld htodo =>
      exact h.replaced hheld htodo [.disconnect c false, .returned c] rfl
  | @parsed c prevData data rest hheld htodo =>
      have hrest := filterMap_number_eq_nil hshaped hheld htodo (by simp [Action.rank])
      exact Job.numbered_of_rest hheld hrest [.dispatch c _ _ _, .returned c] (List.pairwise_singleton _ _)
  | @dispatchedAll c number after rest hheld htodo =>
      have hrest := filterMap_number_eq_nil hshaped hheld htodo (by simp [Action.rank])
      refine Job.numbered_of_rest hheld hrest [.submit c (Job.afterDispatch number after)] ?_
      cases after with
      | read prevData => exact .nil
      | closed => exact List.pairwise_singleton _ _
  | @replied c number cmd cmds after rest data disconnects hheld htodo =>
      have hrest := filterMap_number_eq_nil hshaped hheld htodo (by simp [Action.rank])
      refine Job.numbered_of_rest hheld hrest
        [.submit c (.write ⟨data, disconnects, number⟩), .dispatch c number (cmd :: cmds) after] ?_
      exact List.pairwise_pair.mpr (Nat.le_refl number)
  | @dispatched c number cmd cmds after rest hheld htodo =>
      have hrest := filterMap_number_eq_nil hshaped hheld htodo (by simp [Action.rank])
      exact Job.numbered_of_rest hheld hrest [.dispatch c (number + 1) cmds after]
        (List.pairwise_singleton _ _)
  | threw hheld htodo => simp [Job.Numbered, Job.numbers, hheld]
  | returned hheld htodo =>
      exact h.replaced hheld htodo [] rfl
  | @disconnects c wait rest hheld htodo =>
      exact h.replaced hheld htodo [.setDisconnected c wait] rfl
  | notConnected hheld htodo =>
      exact h.replaced hheld htodo [] rfl
  | @setDisconnected c wait rest hheld htodo =>
      have hreplaced := h.replaced hheld htodo ([.clearRequests .rd c, .clearRequests .wr c, .unregister c,
        .close c] ++ if wait then [.waitOnRemoval c] else []) (by cases wait <;> rfl)
      rw [List.append_assoc] at hreplaced
      exact hreplaced
  | requestsCleared hheld htodo hbusy =>
      exact h.replaced hheld htodo [] rfl
  | unregistered hheld htodo =>
      exact h.replaced hheld htodo [] rfl
  | closed hheld htodo =>
      exact h.replaced hheld htodo [] rfl
  | removed hheld htodo hremoved =>
      exact h.replaced hheld htodo [] rfl
  | completed hheld htodo hrole => simp [Job.Numbered, Job.numbers, hheld]
  | ended hheld htodo hrole => simp [Job.Numbered, Job.numbers, hheld]

end Numbers

end CloudLabs.Cdb.Connections
