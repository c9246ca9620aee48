import CloudLabs.HttpServer.ThreadPool
import CloudLabs.HttpServer.Serving
import CloudLabs.Interaction.Slots

namespace CloudLabs.HttpServer

open Interaction

-- serve_client never comes back, be it from its reading or from its send.
def Endless (host : Host) (client : Client) : Prop :=
  ∀ fresh rounds, serveToEnd host fresh rounds client = none

-- serve_client throws.
def Throws (host : Host) (client : Client) : Prop :=
  ∃ fresh rounds fault, serveToEnd host fresh rounds client = some (.threw fault)

-- serve_client has something to send to a peer that has reset the connection.
def Killed (host : Host) (client : Client) : Prop :=
  ∃ fresh rounds, serveToEnd host fresh rounds client = some .killed

section Clients

variable {host : Host} {client : Client} {fresh fresh' : Nat → UInt8} {rounds rounds' : Nat}
  {outcome : Outcome} {served : Served}

theorem returned_of_returned (hreturned : serveToEnd host fresh rounds client = some (.returned outcome))
    (hserve : serveToEnd host fresh' rounds' client = some served) : ∃ outcome', served = .returned outcome' := by
  obtain ⟨hok, hback⟩ := serveToEnd_returned_iff.mp hreturned
  obtain ⟨result, hresult, hdeliver⟩ := Option.bind_eq_some_iff.mp hserve
  obtain ⟨outcome', rfl⟩ := answered_of_answers ⟨rounds, outcome, hok⟩ hresult
  refine ⟨outcome', ?_⟩
  have hreturns : serveToEnd host fresh' rounds' client = some (.returned outcome') := by
    apply serveToEnd_returned_iff.mpr
    refine ⟨hresult, hback.imp_left ?_⟩
    rintro rfl
    rw [serveClient_dropped_iff.mpr (serveClient_dropped_iff.mp hok)] at hresult
    cases hresult
    rfl
  rw [hserve] at hreturns
  exact Option.some.inj hreturns

theorem not_throws (hreturned : serveToEnd host fresh rounds client = some (.returned outcome)) :
    ¬ Throws host client := by
  rintro ⟨fresh', rounds', fault, hthrows⟩
  obtain ⟨outcome', heq⟩ := returned_of_returned hreturned hthrows
  cases heq

theorem not_killed (hreturned : serveToEnd host fresh rounds client = some (.returned outcome)) :
    ¬ Killed host client := by
  rintro ⟨fresh', rounds', hkilled⟩
  obtain ⟨outcome', heq⟩ := returned_of_returned hreturned hkilled
  cases heq

theorem not_endless (hserve : serveToEnd host fresh rounds client = some served) : ¬ Endless host client := by
  intro hendless
  rw [hendless fresh rounds] at hserve
  cases hserve

end Clients

open Classical in
-- The clients that so many workers come to serve, if each client that holds a worker
-- for ever takes it away from those behind it.
noncomputable def reached (host : Host) : Nat → List Client → List Client
  | 0, _ => []
  | _, [] => []
  | workers + 1, client :: clients =>
      client :: reached host (if Endless host client then workers else workers + 1) clients

-- How many of the clients hold their worker for ever.
open Classical in
noncomputable def endlessCount (host : Host) (clients : List Client) : Nat :=
  clients.countP fun client => decide (Endless host client)

section Reached

variable {host : Host} {workers : Nat} {client : Client} {clients : List Client}

@[simp] theorem reached_nil : reached host workers [] = [] := by
  cases workers <;> rfl

theorem reached_cons (hfree : 0 < workers) : reached host workers (client :: clients) =
    client :: reached host (workers - endlessCount host [client]) clients := by
  obtain ⟨rest, rfl⟩ := Nat.exists_eq_add_of_lt hfree
  unfold endlessCount
  simp only [Nat.zero_add, reached, List.countP_cons, List.countP_nil, decide_eq_true_eq]
  by_cases hendless : Endless host client
  · simp [hendless]
  · simp [hendless]

theorem endlessCount_append (before : List Client) :
    endlessCount host (before ++ clients) = endlessCount host before + endlessCount host clients :=
  List.countP_append

end Reached

namespace ThreadPool

variable {pool next : ThreadPool} {i : Nat} {old : Worker}

-- The clients that are being served.
def serving (pool : ThreadPool) : List Client := pool.workers.filterMap Worker.client?

def looking (pool : ThreadPool) : Nat := pool.workers.countP Worker.isLooking

theorem serving_setWorker (hold : pool.workers[i]? = some old) (new : Worker) :
    (old.client?.toList ++ (pool.setWorker i new).serving).Perm (new.client?.toList ++ pool.serving) :=
  Slots.filterMap_set Worker.client? hold new

theorem looking_setWorker (hold : pool.workers[i]? = some old) (new : Worker) :
    (pool.setWorker i new).looking + (if old.isLooking then 1 else 0) =
      pool.looking + (if new.isLooking then 1 else 0) :=
  Slots.countP_set Worker.isLooking hold new

-- One more worker looks at the queue.
theorem looking_setWorker_looking (hold : pool.workers[i]? = some old) (hrests : old.isLooking = false) :
    (pool.setWorker i .looking).looking = pool.looking + 1 := by
  have hlooking := looking_setWorker hold .looking
  rw [hrests] at hlooking
  simpa [Worker.isLooking] using hlooking

theorem anyAsleep_setWorker (new : Worker) (hnew : new.isAsleep = false)
    (hasleep : (pool.setWorker i new).workers.any Worker.isAsleep = true) :
    pool.workers.any Worker.isAsleep = true := by
  obtain ⟨worker, hworker, hsleeps⟩ := List.any_eq_true.mp hasleep
  rcases List.mem_or_eq_of_mem_set hworker with hbefore | rfl
  · exact List.any_eq_true.mpr ⟨worker, hbefore, hsleeps⟩
  · rw [hnew] at hsleeps
    cases hsleeps

theorem stays_setWorker {new : Worker} (hnew : new ≠ .exited) (hstays : .exited ∉ pool.workers) :
    .exited ∉ (pool.setWorker i new).workers := by
  intro hexited
  rcases List.mem_or_eq_of_mem_set hexited with hbefore | heq
  · exact hstays hbefore
  · exact hnew heq.symm

-- Whoever looks at the queue serves nobody.
theorem serving_lt (hlooking : pool.workers[i]? = some .looking) : pool.serving.length < pool.workers.length := by
  have hcons := (serving_setWorker hlooking (.serving ⟨.sending [], .sent⟩)).length_eq
  have hle : (pool.setWorker i (.serving ⟨.sending [], .sent⟩)).serving.length ≤ pool.workers.length := by
    have hfilter := List.length_filterMap_le Worker.client? (pool.setWorker i (.serving ⟨.sending [], .sent⟩)).workers
    rwa [setWorker, List.length_set] at hfilter
  simp only [Worker.client?, Option.toList, List.length_append, List.length_nil, List.length_singleton] at hcons
  omega

theorem notifyOne_cases (hnotify : pool.notifyOne i = some next) :
    (pool.workers.any Worker.isAsleep = false ∧ next = pool) ∨
      (pool.workers[i]? = some .asleep ∧ next = pool.setWorker i .looking) := by
  unfold notifyOne at hnotify
  split at hnotify
  · split at hnotify
    · next hasleep =>
        cases hnotify
        exact .inr ⟨hasleep, rfl⟩
    · cases hnotify
  · next hnone =>
      cases hnotify
      exact .inl ⟨Bool.eq_false_of_not_eq_true hnone, rfl⟩

theorem look_cases (hlook : pool.look i = some next) (hdone : pool.done = false) :
    pool.workers[i]? = some .looking ∧
      ((pool.clientSocks = [] ∧ next = pool.setWorker i .asleep) ∨
        ∃ client rest, pool.clientSocks = client :: rest ∧
          next = { pool.setWorker i (.serving client) with
            clientSocks := rest
            taken := pool.taken ++ [client] }) := by
  unfold look at hlook
  split at hlook
  · next hlooking =>
      rw [hdone] at hlook
      cases hsocks : pool.clientSocks with
      | nil =>
          rw [hsocks] at hlook
          cases hlook
          exact ⟨hlooking, .inl ⟨rfl, rfl⟩⟩
      | cons client rest =>
          rw [hsocks] at hlook
          cases hlook
          exact ⟨hlooking, .inr ⟨client, rest, rfl, rfl⟩⟩
  · cases hlook

theorem rouse_cases (hrouse : pool.rouse i = some next) :
    pool.workers[i]? = some .asleep ∧ next = pool.setWorker i .looking := by
  unfold rouse at hrouse
  split at hrouse
  · next hasleep =>
      cases hrouse
      exact ⟨hasleep, rfl⟩
  · cases hrouse

theorem serve_cases {host : Host} {rounds : Nat} {fresh : Nat → UInt8} {client : Client}
    {served : Served} (hserve : pool.serve host i rounds fresh = some (client, served)) :
    pool.workers[i]? = some (.serving client) ∧ serveToEnd host fresh rounds client = some served := by
  unfold serve at hserve
  split at hserve
  · next hserving =>
      obtain ⟨served', hserved, heq⟩ := Option.map_eq_some_iff.mp hserve
      cases heq
      exact ⟨hserving, hserved⟩
  · cases hserve

end ThreadPool

namespace Server

-- What holds of a server with so many threads and these clients, in every state.
structure Kept (host : Host) (threadNum : Nat) (clients : List Client) (server : Server) : Prop where
  size : server.pool.workers.length = threadNum
  stays : .exited ∉ server.pool.workers
  undone : server.pool.done = false
  order : server.pool.taken ++ (server.pool.clientSocks ++ server.coming) = clients
  -- no client waits for a worker that sleeps
  awake : server.pool.workers.any Worker.isAsleep = true → server.pool.clientSocks.length ≤ server.pool.looking
  held : server.pool.taken.Perm (server.answered.map Prod.fst ++ server.pool.serving)
  answers : ∀ answer ∈ server.answered,
    ∃ fresh rounds, serveToEnd host fresh rounds answer.1 = some (.returned answer.2)
  reaches : reached host threadNum clients = server.pool.taken ++
    reached host (threadNum - endlessCount host server.pool.taken) (server.pool.clientSocks ++ server.coming)
  throws : ∀ fault, server.ending = some (.terminated fault) → ∃ client ∈ server.pool.taken, Throws host client
  killed : server.ending = some .signalled → ∃ client ∈ server.pool.taken, Killed host client

variable {host : Host} {threadNum : Nat} {clients : List Client} {server next : Server}

namespace Kept

theorem endlessCount_le (hkept : Kept host threadNum clients server) :
    endlessCount host server.pool.taken ≤ server.pool.serving.length := by
  have hcount : endlessCount host server.pool.taken = _ := hkept.held.countP_eq _
  have hanswered : endlessCount host (server.answered.map Prod.fst) = 0 := by
    apply List.countP_eq_zero.mpr
    intro client hclient
    obtain ⟨answer, hanswer, rfl⟩ := List.mem_map.mp hclient
    obtain ⟨fresh, rounds, hserve⟩ := hkept.answers answer hanswer
    simp [not_endless hserve]
  rw [List.countP_append] at hcount
  have hle : endlessCount host server.pool.serving ≤ server.pool.serving.length := List.countP_le_length
  unfold endlessCount at *
  omega

theorem start (host : Host) (threadNum : Nat) (clients : List Client) :
    Kept host threadNum clients (start threadNum clients) where
  size := List.length_replicate
  stays := fun hmem => by cases List.eq_of_mem_replicate hmem
  undone := rfl
  order := rfl
  awake := fun _ => Nat.zero_le _
  held := by
    have hserving : (ThreadPool.create threadNum).serving = [] := by
      apply List.filterMap_eq_nil_iff.mpr
      intro worker hworker
      rw [List.eq_of_mem_replicate hworker]
      rfl
    change List.Perm [] ([] ++ (ThreadPool.create threadNum).serving)
    rw [hserving]
    exact .nil
  answers := fun _ hmem => absurd hmem List.not_mem_nil
  reaches := rfl
  throws := fun _ hending => by cases hending
  killed := fun hending => by cases hending

-- A worker that slept looks at the queue again.
theorem roused (hkept : Kept host threadNum clients server) {i : Nat}
    (hasleep : server.pool.workers[i]? = some .asleep) :
    Kept host threadNum clients { server with pool := server.pool.setWorker i .looking } :=
  { hkept with
    size := by rw [← hkept.size]; exact List.length_set
    stays := ThreadPool.stays_setWorker (by simp) hkept.stays
    awake := by
      intro hany
      have hle := hkept.awake (ThreadPool.anyAsleep_setWorker .looking rfl hany)
      rw [ThreadPool.looking_setWorker_looking hasleep rfl]
      exact Nat.le_succ_of_le hle
    held := hkept.held.trans (.append_left _ (ThreadPool.serving_setWorker hasleep .looking).symm) }

theorem accepted (hkept : Kept host threadNum clients server) {client : Client} {coming : List Client} {woken : Nat}
    {pool : ThreadPool} (hcoming : server.coming = client :: coming)
    (hadd : server.pool.addClient client woken = some pool) :
    Kept host threadNum clients { server with pool := pool, coming := coming } := by
  have hqueued : server.pool.clientSocks ++ [client] ++ coming = server.pool.clientSocks ++ server.coming := by
    rw [hcoming, List.append_assoc]
    rfl
  rcases ThreadPool.notifyOne_cases hadd with ⟨hnone, rfl⟩ | ⟨hasleep, rfl⟩
  · exact { hkept with
      order := by rw [← hkept.order, ← hqueued]
      awake := fun hany => by rw [hnone] at hany; cases hany
      reaches := by rw [hkept.reaches, ← hqueued] }
  · have hasleep' : server.pool.workers[woken]? = some .asleep := hasleep
    have hroused := hkept.roused hasleep'
    exact { hroused with
      order := by rw [← hkept.order, ← hqueued]; rfl
      awake := by
        intro hany
        have hle := hkept.awake (ThreadPool.anyAsleep_setWorker .looking rfl hany)
        change (server.pool.clientSocks ++ [client]).length ≤ (server.pool.setWorker woken .looking).looking
        rw [ThreadPool.looking_setWorker_looking hasleep' rfl, List.length_append, List.length_singleton]
        omega
      reaches := by rw [hkept.reaches, ← hqueued]; rfl }

theorem looked (hkept : Kept host threadNum clients server) {i : Nat} {pool : ThreadPool}
    (hlook : server.pool.look i = some pool) : Kept host threadNum clients { server with pool := pool } := by
  obtain ⟨hlooking, ⟨hnothing, rfl⟩ | ⟨client, rest, hsocks, rfl⟩⟩ := ThreadPool.look_cases hlook hkept.undone
  · exact { hkept with
      size := by rw [← hkept.size]; exact List.length_set
      stays := ThreadPool.stays_setWorker (by simp) hkept.stays
      awake := fun _ => by
        change server.pool.clientSocks.length ≤ _
        rw [hnothing]
        exact Nat.zero_le _
      held := hkept.held.trans (.append_left _ (ThreadPool.serving_setWorker hlooking .asleep).symm) }
  · have hserving := ThreadPool.serving_setWorker hlooking (.serving client)
    have hcount := ThreadPool.looking_setWorker hlooking (.serving client)
    have hfree : 0 < threadNum - endlessCount host server.pool.taken := by
      have hlt := ThreadPool.serving_lt hlooking
      have hle := hkept.endlessCount_le
      rw [hkept.size] at hlt
      omega
    exact { hkept with
      size := by rw [← hkept.size]; exact List.length_set
      stays := ThreadPool.stays_setWorker (by simp) hkept.stays
      order := by
        rw [← hkept.order, hsocks, List.append_assoc]
        rfl
      awake := by
        intro hany
        have hle := hkept.awake (ThreadPool.anyAsleep_setWorker (.serving client) rfl hany)
        simp only [Worker.isLooking, reduceIte, Bool.false_eq_true] at hcount
        change rest.length ≤ (server.pool.setWorker i (.serving client)).looking
        rw [hsocks, List.length_cons] at hle
        omega
      held := by
        have happend := hkept.held.append_right [client]
        rw [List.append_assoc] at happend
        exact happend.trans (.append_left _ (List.perm_append_comm.trans hserving.symm))
      reaches := by
        rw [hkept.reaches, hsocks, List.cons_append, reached_cons hfree]
        change _ = server.pool.taken ++ [client] ++ reached host (threadNum - endlessCount host _) (rest ++ server.coming)
        rw [endlessCount_append, Nat.sub_add_eq, List.append_assoc]
        rfl
      throws := by
        intro fault hending
        obtain ⟨other, hother, hthrows⟩ := hkept.throws fault hending
        exact ⟨other, List.mem_append_left _ hother, hthrows⟩
      killed := by
        intro hending
        obtain ⟨other, hother, hkilled⟩ := hkept.killed hending
        exact ⟨other, List.mem_append_left _ hother, hkilled⟩ }

theorem served (hkept : Kept host threadNum clients server) {i rounds : Nat} {fresh : Nat → UInt8} {client : Client}
    {outcome : Outcome} (hserve : server.pool.serve host i rounds fresh = some (client, .returned outcome)) :
    Kept host threadNum clients { server with
      pool := server.pool.setWorker i .looking
      answered := server.answered ++ [(client, outcome)] } := by
  obtain ⟨hserving, hresult⟩ := ThreadPool.serve_cases hserve
  have hleaves := ThreadPool.serving_setWorker hserving .looking
  exact { hkept with
    size := by rw [← hkept.size]; exact List.length_set
    stays := ThreadPool.stays_setWorker (by simp) hkept.stays
    awake := by
      intro hany
      have hle := hkept.awake (ThreadPool.anyAsleep_setWorker .looking rfl hany)
      rw [ThreadPool.looking_setWorker_looking hserving rfl]
      exact Nat.le_succ_of_le hle
    held := by
      rw [List.map_append, List.append_assoc]
      exact hkept.held.trans (.append_left _ hleaves.symm)
    answers := by
      intro answer hanswer
      rcases List.mem_append.mp hanswer with hbefore | hnew
      · exact hkept.answers answer hbefore
      · rw [List.mem_singleton.mp hnew]
        exact ⟨fresh, rounds, hresult⟩ }

theorem mem_taken (hkept : Kept host threadNum clients server) {i : Nat} {client : Client}
    (hserving : server.pool.workers[i]? = some (.serving client)) : client ∈ server.pool.taken := by
  have hmem : client ∈ server.pool.serving :=
    List.mem_filterMap.mpr ⟨_, List.mem_of_getElem? hserving, rfl⟩
  exact hkept.held.mem_iff.mpr (List.mem_append_right _ hmem)

theorem threw (hkept : Kept host threadNum clients server) {i rounds : Nat} {fresh : Nat → UInt8} {client : Client}
    {fault : Fault} (hserve : server.pool.serve host i rounds fresh = some (client, .threw fault)) :
    Kept host threadNum clients { server with ending := some (.terminated fault) } := by
  obtain ⟨hserving, hthrows⟩ := ThreadPool.serve_cases hserve
  exact { hkept with
    throws := fun _ _ => ⟨client, hkept.mem_taken hserving, fresh, rounds, fault, hthrows⟩
    killed := fun hending => by cases hending }

theorem signalled (hkept : Kept host threadNum clients server) {i rounds : Nat} {fresh : Nat → UInt8} {client : Client}
    (hserve : server.pool.serve host i rounds fresh = some (client, .killed)) :
    Kept host threadNum clients { server with ending := some .signalled } := by
  obtain ⟨hserving, hkilled⟩ := ThreadPool.serve_cases hserve
  exact { hkept with
    throws := fun _ hending => by cases hending
    killed := fun _ => ⟨client, hkept.mem_taken hserving, fresh, rounds, hkilled⟩ }

end Kept

theorem kept_step (host : Host) (threadNum : Nat) (clients : List Client) :
    Transition.Keeps (step host) (Kept host threadNum clients) := by
  intro server move next hkept hstep
  unfold step at hstep
  split at hstep
  · cases hstep
  cases move with
  | accept woken =>
      simp only [stepLive] at hstep
      split at hstep
      · cases hstep
      · next client coming hcoming =>
          obtain ⟨pool, hadd, rfl⟩ := Option.map_eq_some_iff.mp hstep
          exact hkept.accepted hcoming hadd
  | fail =>
      cases hstep
      exact { hkept with
        throws := fun _ hending => by cases hending
        killed := fun hending => by cases hending }
  | look i =>
      obtain ⟨pool, hlook, rfl⟩ := Option.map_eq_some_iff.mp hstep
      exact hkept.looked hlook
  | serve i rounds fresh =>
      simp only [stepLive] at hstep
      split at hstep
      · cases hstep
      · next client outcome hserve =>
          cases hstep
          exact hkept.served hserve
      · next client fault hserve =>
          cases hstep
          exact hkept.threw hserve
      · next client hserve =>
          cases hstep
          exact hkept.signalled hserve
  | rouse i =>
      obtain ⟨pool, hrouse, rfl⟩ := Option.map_eq_some_iff.mp hstep
      obtain ⟨hasleep, rfl⟩ := ThreadPool.rouse_cases hrouse
      exact hkept.roused hasleep

section Quiet

variable (hkept : Kept host threadNum clients server) (hquiet : server.Quiet host) (hlive : server.ending = none)
include hquiet hlive

theorem stepLive_eq_none (move : Move) (hmove : move.isChance = false) : server.stepLive host move = none := by
  have hstep := hquiet move hmove
  unfold step at hstep
  rwa [hlive] at hstep

-- Every client has been accepted.
theorem coming_eq_nil : server.coming = [] := by
  cases hcoming : server.coming with
  | nil => rfl
  | cons client coming =>
      have hstuck : ∀ woken, server.pool.addClient client woken = none := by
        intro woken
        have hstep := stepLive_eq_none hquiet hlive (.accept woken) rfl
        simpa only [stepLive, hcoming, Option.map_eq_none_iff] using hstep
      by_cases hany : server.pool.workers.any Worker.isAsleep = true
      · obtain ⟨worker, hworker, hsleeps⟩ := List.any_eq_true.mp hany
        obtain ⟨i, hi⟩ := List.mem_iff_getElem?.mp hworker
        cases worker with
        | asleep =>
            have hnone := hstuck i
            simp only [ThreadPool.addClient, ThreadPool.notifyOne, hany, hi, if_true] at hnone
            cases hnone
        | _ => cases hsleeps
      · have hnone := hstuck 0
        simp only [ThreadPool.addClient, ThreadPool.notifyOne, if_neg hany] at hnone
        cases hnone

include hkept

theorem not_looking (i : Nat) : server.pool.workers[i]? ≠ some .looking := by
  intro hlooking
  have hstep := stepLive_eq_none hquiet hlive (.look i) rfl
  simp only [stepLive, Option.map_eq_none_iff, ThreadPool.look, hlooking, hkept.undone] at hstep
  cases hsocks : server.pool.clientSocks with
  | nil =>
      rw [hsocks] at hstep
      cases hstep
  | cons client rest =>
      rw [hsocks] at hstep
      cases hstep

omit hkept in
theorem endless_of_serving {client : Client} (hclient : client ∈ server.pool.serving) : Endless host client := by
  obtain ⟨worker, hworker, hserves⟩ := List.mem_filterMap.mp hclient
  obtain ⟨i, hi⟩ := List.mem_iff_getElem?.mp hworker
  intro fresh rounds
  cases worker with
  | serving other =>
      cases hserves
      have hstep := stepLive_eq_none hquiet hlive (.serve i rounds fresh) rfl
      cases hserve : serveToEnd host fresh rounds client with
      | none => rfl
      | some served =>
          simp only [stepLive, ThreadPool.serve, hi, hserve, Option.map_some] at hstep
          cases served with
          | returned outcome => cases hstep
          | threw fault => cases hstep
          | killed => cases hstep
  | _ => cases hserves

-- Nobody looks at the queue, so that a client in it means that no worker sleeps, and
-- then each serves a client for ever.
theorem taken_eq_reached : server.pool.taken = reached host threadNum clients := by
  have hlooking : server.pool.looking = 0 := by
    apply List.countP_eq_zero.mpr
    intro worker hworker hlooks
    obtain ⟨i, hi⟩ := List.mem_iff_getElem?.mp hworker
    cases worker with
    | looking => exact not_looking hkept hquiet hlive i hi
    | _ => cases hlooks
  rw [hkept.reaches, coming_eq_nil hquiet hlive, List.append_nil]
  by_cases hany : server.pool.workers.any Worker.isAsleep = true
  · have hle := hkept.awake hany
    have hnothing : server.pool.clientSocks = [] := List.length_eq_zero_iff.mp (by omega)
    rw [hnothing, reached_nil, List.append_nil]
  · have hserving : server.pool.serving.length = threadNum := by
      rw [← hkept.size, ThreadPool.serving, List.length_filterMap_eq_countP, List.countP_eq_length]
      intro worker hworker
      obtain ⟨i, hi⟩ := List.mem_iff_getElem?.mp hworker
      cases worker with
      | looking => exact absurd hi (not_looking hkept hquiet hlive i)
      | asleep => exact absurd (List.any_eq_true.mpr ⟨_, hworker, rfl⟩) hany
      | serving client => rfl
      | exited => exact absurd hworker hkept.stays
    have hendless : endlessCount host server.pool.taken = threadNum := by
      have hcount : endlessCount host server.pool.taken = _ := hkept.held.countP_eq _
      have hall : endlessCount host server.pool.serving = server.pool.serving.length := by
        apply List.countP_eq_length.mpr
        intro client hclient
        simpa using endless_of_serving hquiet hlive hclient
      have hle := hkept.endlessCount_le
      rw [List.countP_append] at hcount
      unfold endlessCount at *
      omega
    rw [hendless, Nat.sub_self, reached, List.append_nil]

end Quiet

section Turns

-- What is left to do: four steps for a client that is still to connect, two for one
-- in the queue, and those of the workers.
def weight : Worker → Nat
  | .looking => 1
  | .serving _ => 2
  | _ => 0

def left (server : Server) : Nat :=
  4 * server.coming.length + 2 * server.pool.clientSocks.length + (server.pool.workers.map weight).sum +
    (if server.ending.isSome then 0 else 1)

def adds : Move → Nat
  | .rouse _ => 2
  | _ => 0

theorem weight_setWorker {pool : ThreadPool} {i : Nat} {old : Worker} (hold : pool.workers[i]? = some old)
    (new : Worker) : ((pool.setWorker i new).workers.map weight).sum + weight old =
      (pool.workers.map weight).sum + weight new :=
  Slots.sum_map_set weight hold new

theorem left_step {move : Move} (hkept : Kept host threadNum clients server)
    (hstep : step host server move = some next) : next.left + 1 ≤ server.left + adds move := by
  unfold step at hstep
  split at hstep
  · cases hstep
  next hlive =>
  cases move with
  | accept woken =>
      simp only [stepLive] at hstep
      split at hstep
      · cases hstep
      · next client coming hcoming =>
          obtain ⟨pool, hadd, rfl⟩ := Option.map_eq_some_iff.mp hstep
          rcases ThreadPool.notifyOne_cases hadd with ⟨-, rfl⟩ | ⟨hasleep, rfl⟩
          · simp only [left, adds, hcoming, List.length_append, List.length_cons, List.length_nil]
            omega
          · have hweight := weight_setWorker hasleep .looking
            simp only [weight] at hweight
            simp only [left, adds, hcoming, List.length_cons, ThreadPool.setWorker, List.length_append] at hweight ⊢
            simp only [List.length_nil]
            omega
  | fail =>
      cases hstep
      simp only [left, adds, Option.isSome_some, if_true, if_neg hlive]
      omega
  | look i =>
      obtain ⟨pool, hlook, rfl⟩ := Option.map_eq_some_iff.mp hstep
      obtain ⟨hlooking, ⟨-, rfl⟩ | ⟨client, rest, hsocks, rfl⟩⟩ := ThreadPool.look_cases hlook hkept.undone
      · have hweight := weight_setWorker hlooking .asleep
        simp only [weight, left, adds, ThreadPool.setWorker] at hweight ⊢
        omega
      · have hweight := weight_setWorker hlooking (.serving client)
        simp only [weight, left, adds, ThreadPool.setWorker, hsocks, List.length_cons] at hweight ⊢
        omega
  | serve i rounds fresh =>
      simp only [stepLive] at hstep
      split at hstep
      · cases hstep
      · next client outcome hserve =>
          cases hstep
          have hweight := weight_setWorker (ThreadPool.serve_cases hserve).1 .looking
          simp only [weight, left, adds, ThreadPool.setWorker] at hweight ⊢
          omega
      · cases hstep
        simp only [left, adds, Option.isSome_some, if_true, if_neg hlive]
        omega
      · cases hstep
        simp only [left, adds, Option.isSome_some, if_true, if_neg hlive]
        omega
  | rouse i =>
      obtain ⟨pool, hrouse, rfl⟩ := Option.map_eq_some_iff.mp hstep
      obtain ⟨hasleep, rfl⟩ := ThreadPool.rouse_cases hrouse
      have hweight := weight_setWorker hasleep .looking
      simp only [weight, left, adds, ThreadPool.setWorker] at hweight ⊢
      omega

theorem left_start (threadNum : Nat) (clients : List Client) :
    (Server.start threadNum clients).left = 4 * clients.length + threadNum + 1 := by
  simp [Server.start, left, ThreadPool.create, weight]

theorem sum_adds (moves : List Move) : (moves.map adds).sum ≤ 2 * moves.countP Move.isChance := by
  induction moves with
  | nil => exact Nat.le_refl 0
  | cons move moves ih =>
      rw [List.map_cons, List.sum_cons, List.countP_cons]
      cases move with
      | rouse i =>
          simp only [adds, Move.isChance, if_true]
          omega
      | _ =>
          simp only [adds]
          omega

end Turns

open Classical in
-- However the threads take their turns, the workers take the clients in the order in
-- which they come and come to a standstill. Unless an accept fails, they have then
-- taken all clients they can reach while some hold their workers for ever, and have
-- answered each of the others once, or one of these has thrown or had reset its
-- connection before it was answered, and has ended the process.
theorem serves_reached (host : Host) (threadNum : Nat) (clients : List Client) {moves : List Move} {last : Server}
    (hrun : Transition.run (step host) (start threadNum clients) moves = some last) :
    moves.length ≤ 4 * clients.length + threadNum + 1 + 2 * moves.countP Move.isChance ∧
      last.pool.taken <+: reached host threadNum clients ∧
      (∀ answer ∈ last.answered,
        ∃ fresh rounds, serveToEnd host fresh rounds answer.1 = some (.returned answer.2)) ∧
      (∀ fault, last.ending = some (.terminated fault) →
        ∃ client ∈ reached host threadNum clients, Throws host client) ∧
      (last.ending = some .signalled → ∃ client ∈ reached host threadNum clients, Killed host client) ∧
      (last.Quiet host → last.ending ≠ some .aborted →
        (last.ending = none ↔
          ∀ client ∈ reached host threadNum clients, ¬ Throws host client ∧ ¬ Killed host client) ∧
        (last.ending = none → last.pool.taken = reached host threadNum clients ∧
          (last.answered.map Prod.fst).Perm
            ((reached host threadNum clients).filter fun client => ¬ Endless host client))) := by
  have hkept := (kept_step host threadNum clients).run (Kept.start host threadNum clients) hrun
  have hprefix : last.pool.taken <+: reached host threadNum clients := ⟨_, hkept.reaches.symm⟩
  have hthrows : ∀ fault, last.ending = some (.terminated fault) →
      ∃ client ∈ reached host threadNum clients, Throws host client := by
    intro fault hending
    obtain ⟨client, hclient, hthrows⟩ := hkept.throws fault hending
    exact ⟨client, hprefix.subset hclient, hthrows⟩
  have hkilled : last.ending = some .signalled →
      ∃ client ∈ reached host threadNum clients, Killed host client := by
    intro hending
    obtain ⟨client, hclient, hkilled⟩ := hkept.killed hending
    exact ⟨client, hprefix.subset hclient, hkilled⟩
  refine ⟨?_, hprefix, hkept.answers, hthrows, hkilled, fun hquiet hlistens => ⟨⟨?_, ?_⟩, ?_⟩⟩
  · have hlength := Transition.length_le (kept_step host threadNum clients) left adds
      (fun _ _ _ => left_step) (Kept.start host threadNum clients) hrun
    have hadds := sum_adds moves
    rw [left_start] at hlength
    omega
  · -- it has been answered, or it is being served for ever
    intro hlive client hclient
    rw [← taken_eq_reached hkept hquiet hlive, hkept.held.mem_iff, List.mem_append] at hclient
    rcases hclient with hanswered | hserved
    · obtain ⟨answer, hanswer, rfl⟩ := List.mem_map.mp hanswered
      obtain ⟨fresh, rounds, hreturned⟩ := hkept.answers answer hanswer
      exact ⟨not_throws hreturned, not_killed hreturned⟩
    · have hendless := endless_of_serving hquiet hlive hserved
      constructor
      · rintro ⟨fresh, rounds, fault, hthrown⟩
        exact not_endless hthrown hendless
      · rintro ⟨fresh, rounds, hsignal⟩
        exact not_endless hsignal hendless
  · intro hharmless
    cases hending : last.ending with
    | none => rfl
    | some ending =>
        cases ending with
        | aborted => exact absurd hending hlistens
        | terminated fault =>
            obtain ⟨client, hclient, hthrown⟩ := hthrows fault hending
            exact absurd hthrown (hharmless client hclient).1
        | signalled =>
            obtain ⟨client, hclient, hsignal⟩ := hkilled hending
            exact absurd hsignal (hharmless client hclient).2
  · intro hlive
    have htaken := taken_eq_reached hkept hquiet hlive
    refine ⟨htaken, ?_⟩
    have hfilter := hkept.held.filter fun client => ¬ Endless host client
    have hanswered : (last.answered.map Prod.fst).filter (fun client => ¬ Endless host client) =
        last.answered.map Prod.fst := by
      apply List.filter_eq_self.mpr
      intro client hclient
      obtain ⟨answer, hanswer, rfl⟩ := List.mem_map.mp hclient
      obtain ⟨fresh, rounds, hreturned⟩ := hkept.answers answer hanswer
      simpa using not_endless hreturned
    have hserving : last.pool.serving.filter (fun client => ¬ Endless host client) = [] := by
      apply List.filter_eq_nil_iff.mpr
      intro client hclient
      simpa using endless_of_serving hquiet hlive hclient
    rw [List.filter_append, hanswered, hserving, List.append_nil, htaken] at hfilter
    exact hfilter.symm

-- A client that connects and closes.
def silent : Client := ⟨.sending [], .sent⟩

-- One worker, and this client.
def dismissing : Server := ⟨⟨[.asleep], [], false, [silent]⟩, [], [(silent, .dropped)], none⟩

theorem serves_reached_dismissing : dismissing.pool.taken = reached Host.bare 1 [silent] := by
  have hrun : Transition.run (step Host.bare) (start 1 [silent])
      [.accept 0, .look 0, .serve 0 0 (fun _ => 0), .look 0] = some dismissing := rfl
  have hquiet : dismissing.Quiet Host.bare := by
    intro move hmove
    cases move with
    | accept woken => rfl
    | look i => cases i <;> rfl
    | serve i rounds fresh => cases i <;> rfl
    | _ => cases hmove
  have hserves := serves_reached Host.bare 1 [silent] hrun
  exact ((hserves.2.2.2.2.2 hquiet (by simp [dismissing])).2 rfl).1

end Server

end CloudLabs.HttpServer
