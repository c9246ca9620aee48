import CloudLabs.Cdb.Coordinator.Outline

namespace CloudLabs.Cdb

open Interaction Coordinator

variable {T : Terms Effect World Choice} {K : Contract Effect World} {role : Role} {mode : Mode}

section Plain

variable [Plain K]

theorem give_inside (hmode : mode ≠ .outside) (s t : World) : K.give role mode s t :=
  ⟨fun h => absurd h hmode, fun _ => Plain.follow s t⟩

theorem stable_coordinator (hmode : mode ≠ .outside) (P : Coordinator → Prop) :
    K.Stable role mode fun w => P w.coordinator :=
  .of_quiet hmode fun _ _ h hq _ => by rwa [Plain.coordinator hq]

-- Reading the coordinator.
theorem get_knows {P : World → Prop} (hmode : mode ≠ .outside) (hP : K.Stable role mode P) :
    Triple cdb T K role mode P Coordinator.get fun c w => P w ∧ w.coordinator = c :=
  Coordinator.get_triple hP (fun c => hP.and (stable_coordinator hmode (· = c)))
    fun w _ hw => ⟨Plain.get mode w, give_inside hmode w w, hw, rfl⟩

theorem stable_self (A : Coordinator → K.Assertion) (hmode : mode ≠ .outside) :
    K.Stable role mode fun w => A w.coordinator w :=
  .of_quiet hmode fun _ _ h hq ha => by
    rw [Plain.coordinator hq]
    exact (A _).quiet h hq ha

-- What is known of the coordinator as it is, is known of what has been read.
theorem get_self (A : Coordinator → K.Assertion) (hmode : mode ≠ .outside) :
    Triple cdb T K role mode (fun w => A w.coordinator w) Coordinator.get
      fun c w => A c w ∧ w.coordinator = c :=
  (get_knows hmode (stable_self A hmode)).post fun c w _ hw => by
    obtain ⟨hA, rfl⟩ := hw
    exact ⟨hA, rfl⟩

theorem notifyIf_knows {P : World → Prop} (hmode : mode ≠ .outside) (hP : K.Stable role mode P)
    (dead : Bool) : Triple cdb T K role mode P (Coordinator.notifyIf dead) fun _ => P := by
  cases dead with
  | false => exact Triple.ret hP fun _ _ h => h
  | true =>
      exact Coordinator.notifyAll_triple hP hP fun w _ hw =>
        ⟨Plain.notifyAll mode w, give_inside hmode w w, hw⟩

theorem not_isEmpty {c : Coordinator} (h : ¬ c.participants.isEmpty = true) : c.participants ≠ ∅ := by
  simpa using h

end Plain

namespace Deciding

variable (D : Deciding T K role mode)

theorem commitLoop_triple (hmode : mode ≠ .outside) (job : Job) (id : UInt32) (addrs : List Addr)
    (ret : Bytes) (dead : Bool) :
    Triple cdb T K role mode (D.committing job id addrs ret)
      (forEachParticipant (.COMMIT id) judgeCommit addrs (ret, dead))
      fun result => D.committing job id [] result.1 := by
  refine forEachParticipant_triple
    (fun addrs (state : Bytes × Bool) => D.committing job id addrs state.1)
    (fun addr rest (state : Bytes × Bool) => D.uncommitted job id addr rest state.1)
    ?_ ?_ ?_ ?_ ?_ addrs (ret, dead)
  · exact fun state => (D.committing job id [] state.1).stable hmode
  · exact fun state w _ h => h
  · intro addr rest state
    refine (D.commit job id addr rest state.1).post fun reply w _ h => ?_
    match reply with
    | some (.string value) => exact h
    | none | some (.bool _) | some (.uint32 _) | some (.vector _) | some .void => exact h
  · exact fun addr rest state => D.dropUncommitted job id addr rest state.1
  · exact fun state => (D.committing job id [] state.1).stable hmode

theorem sendCommit_triple (hmode : mode ≠ .outside) (job : Job) (id : UInt32) (ret : Bytes) :
    Triple cdb T K role mode (D.committed job id ret) (sendResultTo (job.map Prod.fst) ret)
      fun _ => D.replied job id := by
  cases job with
  | none => exact Triple.ret ((D.committed none id ret).stable hmode) (D.keepCommit id ret)
  | some job => exact D.sendCommit job.1 job.2 id ret

theorem abortLoop_triple (hmode : mode ≠ .outside) (job : Job) (id : UInt32) (addrs : List Addr)
    (dead : Bool) :
    Triple cdb T K role mode (D.aborting job id addrs)
      (forEachParticipant (.ABORT id) judgeAbort addrs dead) fun _ => D.aborting job id [] := by
  apply forEachParticipant_triple (fun addrs (_ : Bool) => D.aborting job id addrs)
    (fun addr rest (_ : Bool) => D.unaborted job id addr rest)
  · exact fun _ => (D.aborting job id []).stable hmode
  · exact fun _ w _ h => h
  · intro addr rest dead
    refine (D.abort job id addr rest).post fun reply w _ h => ?_
    match reply with
    | some (.bool true) => exact h
    | none | some (.bool false) | some (.uint32 _) | some (.vector _) | some (.string _) | some .void =>
        exact h
  · exact fun addr rest _ => D.dropUnaborted job id addr rest
  · exact fun _ => (D.aborting job id []).stable hmode

theorem sendAbort_triple (hmode : mode ≠ .outside) (job : Job) (id : UInt32) :
    Triple cdb T K role mode (D.aborted job id) (sendErrorTo (job.map Prod.fst) id)
      fun _ => D.settled := by
  cases job with
  | none => exact Triple.ret ((D.aborted none id).stable hmode) (D.keepAbort id)
  | some job => exact D.sendAbort job.1 job.2 id

section

variable [Plain K]

theorem logCommitDone_triple (hmode : mode ≠ .outside) (job : Job) (id : UInt32) (ret : Bytes) :
    Triple cdb T K role mode (D.committing job id [] ret) (logDone RECORD_COMMIT_DONE id)
      fun _ => D.committed job id ret := by
  refine Triple.bind (get_knows hmode ((D.committing job id [] ret).stable hmode)) fun c => ?_
  split
  · rename_i hempty
    refine Triple.ret (((D.committing job id [] ret).stable hmode).and
      (stable_coordinator hmode (· = c))) ?_
    rintro w ha ⟨hw, rfl⟩
    exact D.commitLost job id ret w ha hw (by simpa using hempty)
  · rename_i hsome
    refine (D.logCommitDone job id ret).pre ?_
    rintro w - ⟨hw, rfl⟩
    exact ⟨hw, not_isEmpty hsome⟩

theorem commitDbRequest_triple (hmode : mode ≠ .outside) (job : Job) (id : UInt32) (dead : Bool) :
    Triple cdb T K role mode (D.toCommit job id) (commitDbRequest (job.map Prod.fst) id dead)
      fun _ => D.replied job id := by
  refine Triple.bind (D.logCommit job id) fun _ => ?_
  refine Triple.bind (get_self (fun c => D.committing job id c.participants.toList []) hmode) fun c => ?_
  refine Triple.bind ((D.commitLoop_triple hmode job id _ [] dead).pre fun w _ h => h.1) fun result => ?_
  refine Triple.bind (D.logCommitDone_triple hmode job id result.1) fun _ => ?_
  refine Triple.bind (D.sendCommit_triple hmode job id result.1) fun _ => ?_
  exact Triple.ret ((D.replied job id).stable hmode) fun _ _ h => h

theorem logAbortDone_triple (hmode : mode ≠ .outside) (job : Job) (id : UInt32) :
    Triple cdb T K role mode (D.aborting job id []) (logDone RECORD_ABORT_DONE id)
      fun _ => D.aborted job id := by
  refine Triple.bind (get_knows hmode ((D.aborting job id []).stable hmode)) fun c => ?_
  split
  · rename_i hempty
    refine Triple.ret (((D.aborting job id []).stable hmode).and (stable_coordinator hmode (· = c))) ?_
    rintro w ha ⟨hw, rfl⟩
    exact D.abortLost job id w ha hw (by simpa using hempty)
  · rename_i hsome
    refine (D.logAbortDone job id).pre ?_
    rintro w - ⟨hw, rfl⟩
    exact ⟨hw, not_isEmpty hsome⟩

theorem abortDbRequest_triple (hmode : mode ≠ .outside) (job : Job) (id : UInt32) (dead : Bool) :
    Triple cdb T K role mode (D.toAbort job id) (abortDbRequest (job.map Prod.fst) id dead)
      fun _ => D.settled := by
  refine Triple.bind (D.logAbort job id) fun _ => ?_
  refine Triple.bind (get_self (fun c => D.aborting job id c.participants.toList) hmode) fun c => ?_
  refine Triple.bind ((D.abortLoop_triple hmode job id _ dead).pre fun w _ h => h.1) fun dead => ?_
  refine Triple.bind (D.logAbortDone_triple hmode job id) fun _ => ?_
  refine Triple.bind (D.sendAbort_triple hmode job id) fun _ => ?_
  exact Triple.ret (D.settled.stable hmode) fun _ _ h => h

end

end Deciding

namespace Serving

variable (V : Serving T K role mode)

theorem prepareLoop_triple (hmode : mode ≠ .outside) (client : Client) (cmd : Command)
    (request : Request) (hrequest : request.prepares = some cmd) (addrs : List Addr) (dead : Bool) :
    Triple cdb T K role mode (V.preparing client cmd addrs)
      (forEachParticipant request judgePrepare addrs (true, dead))
      fun phase => V.prepared client cmd phase.1 := by
  have hstable : ∀ state : Bool × Bool, K.Stable role mode fun w =>
      state.1 = true ∧ V.preparing client cmd [] w := fun state =>
    (Contract.Stable.const _).and ((V.preparing client cmd []).stable hmode)
  refine (forEachParticipant_triple
    (fun addrs (state : Bool × Bool) w => state.1 = true ∧ V.preparing client cmd addrs w)
    (fun addr rest (state : Bool × Bool) w => state.1 = true ∧ V.unprepared client cmd addr rest w)
    ?_ ?_ ?_ ?_ hstable addrs (true, dead)).pre fun w _ h => ⟨rfl, h⟩
  · exact fun state => (V.prepared client cmd state.1).stable hmode
  · rintro ⟨ok, dead⟩ w ha ⟨rfl, h⟩
    exact V.allPrepared client cmd w ha h
  · rintro addr rest ⟨ok, dead⟩
    refine Triple.of_forall ?_
    rintro s ⟨rfl, -⟩
    refine ((V.prepare client cmd request addr rest hrequest).pre fun w _ h => h.2).post
      fun reply w _ h => ?_
    match reply with
    | some (.bool true) => exact ⟨rfl, h⟩
    | some (.bool false) => exact h
    | none | some (.string _) | some (.uint32 _) | some (.vector _) | some .void => exact ⟨rfl, h⟩
  · rintro addr rest ⟨ok, dead⟩
    refine Triple.of_forall ?_
    rintro s ⟨rfl, -⟩
    exact ((V.dropUnprepared client cmd addr rest).pre fun w _ h => h.2).post fun _ w _ h => ⟨rfl, h⟩

theorem getFromParticipants_triple (hmode : mode ≠ .outside) (client : Client) (cmd : GetCommand)
    (addrs : List Addr) (dead : Bool) :
    Triple cdb T K role mode (V.getting client cmd addrs)
      (getFromParticipants client cmd addrs dead)
      fun answer w => V.settled w ∧ (answer.1 = false → V.unanswered) := by
  induction addrs generalizing dead with
  | nil =>
      refine Triple.ret ((V.getting client cmd []).stable hmode) fun w ha h => ?_
      obtain ⟨hsettled, hunanswered⟩ := V.noneGot client cmd w ha h
      exact ⟨hsettled, fun _ => hunanswered⟩
  | cons addr rest ih =>
      refine Triple.bind (V.get client cmd addr rest) fun reply => ?_
      have hdrop := Triple.bind (V.dropUngot client cmd addr rest) fun _ => ih true
      match reply with
      | some (.string value) =>
          refine Triple.bind (V.sendGot client cmd value) fun _ => ?_
          exact Triple.ret (V.settled.stable hmode) fun w _ h => ⟨h, nofun⟩
      | none | some (.bool _) | some (.uint32 _) | some (.vector _) | some .void => exact hdrop

-- How the update of a command ends once it has been committed.
def Finishes (client : Client) (cmd : Command) (finish : Code Unit) : Prop :=
  Triple cdb T K role mode (V.replied (some (client, cmd)) cmd.id) finish fun _ => V.settled

section

variable [Plain K]

theorem fetchAddNextId_triple (hmode : mode ≠ .outside) (client : Client) (cmd : Command)
    (hasks : V.asks client cmd) (hkind : cmd.isUpdate) :
    Triple cdb T K role mode (fun w => V.ready w ∧ w.coordinator.participants ≠ ∅) fetchAddNextId
      fun id => V.drawn client cmd id := by
  refine Triple.bind (get_knows hmode ((V.ready.stable hmode).and
    (stable_coordinator hmode (·.participants ≠ ∅)))) fun c => ?_
  refine Triple.bind ((V.draw client cmd c hasks hkind).pre ?_) fun _ => ?_
  · rintro w - ⟨⟨hidle, hsome⟩, rfl⟩
    exact ⟨hidle, rfl, hsome⟩
  · exact Triple.ret ((V.drawn client cmd c.nextId).stable hmode) fun _ _ h => h

theorem resolveUpdate_triple (hmode : mode ≠ .outside) (client : Client) (cmd : Command)
    (request : Request) (hrequest : request.prepares = some cmd) (finish : Code Unit)
    (hfinish : V.Finishes client cmd finish) :
    Triple cdb T K role mode (fun w => V.preparing client cmd w.coordinator.participants.toList w)
      (resolveUpdate request client cmd.id finish) fun _ => V.settled := by
  refine Triple.bind (get_self (fun c => V.preparing client cmd c.participants.toList) hmode) fun c => ?_
  refine Triple.bind ((V.prepareLoop_triple hmode client cmd request hrequest _ false).pre
    fun w _ h => h.1) fun phase => ?_
  refine Triple.bind (get_knows hmode ((V.prepared client cmd phase.1).stable hmode)) fun c => ?_
  split
  · rename_i hempty
    refine (V.nobodyPrepared client cmd phase.1).pre ?_
    rintro w - ⟨hw, rfl⟩
    exact ⟨hw, by simpa using hempty⟩
  rename_i hsome
  split
  · rename_i hok
    rw [hok]
    refine Triple.bind ((V.commitDbRequest_triple hmode (some (client, cmd)) cmd.id phase.2).pre ?_)
      fun dead => ?_
    · rintro w ha ⟨hw, rfl⟩
      exact V.accept client cmd w ha hw (not_isEmpty hsome)
    · exact Triple.bind hfinish fun _ => notifyIf_knows hmode (V.settled.stable hmode) dead
  · rename_i hok
    rw [Bool.eq_false_of_not_eq_true hok]
    refine Triple.bind ((V.abortDbRequest_triple hmode (some (client, cmd)) cmd.id phase.2).pre ?_)
      fun dead => ?_
    · rintro w ha ⟨hw, rfl⟩
      exact V.reject client cmd w ha hw (not_isEmpty hsome)
    · exact notifyIf_knows hmode (V.settled.stable hmode) dead

-- What SET and DEL do under the mutex.
theorem handleUpdate_triple (hmode : mode ≠ .outside) (client : Client) (cmd : Command)
    (request : UInt32 → Request) (hasks : V.asks client cmd) (hkind : cmd.isUpdate)
    (hrequest : ∀ id, (request id).prepares = some (cmd.setId id)) (hid : ∀ id, (cmd.setId id).id = id)
    (finish : Code Unit) (hfinish : ∀ id, V.Finishes client (cmd.setId id) finish) :
    Triple cdb T K role mode V.ready (handleUpdate request client finish) fun _ => V.settled := by
  refine Triple.bind (get_knows hmode (V.ready.stable hmode)) fun c => ?_
  split
  · rename_i hempty
    refine (V.refuse client).pre ?_
    rintro w - ⟨hw, rfl⟩
    exact ⟨hw, by simpa using hempty⟩
  rename_i hsome
  refine Triple.bind ((V.fetchAddNextId_triple hmode client cmd hasks hkind).pre ?_) fun id => ?_
  · rintro w - ⟨hw, rfl⟩
    exact ⟨hw, not_isEmpty hsome⟩
  refine Triple.bind (V.logUnresolved client cmd id) fun _ => ?_
  have hresolve := V.resolveUpdate_triple hmode client (cmd.setId id) (request id) (hrequest id) finish
    (hfinish id)
  rwa [hid id] at hresolve

-- What GET does under the mutex.
theorem handleGet_triple (hmode : mode ≠ .outside) (client : Client) (cmd : GetCommand)
    (hasks : V.asks client (.get cmd)) :
    Triple cdb T K role mode V.ready
      (do
        if (← Coordinator.get).participants.isEmpty then
          sendError client none
          return none
        else
          return some (← getFromParticipants client cmd (← Coordinator.get).participants.toList false))
      fun answered w => V.settled w ∧ ∀ dead, answered = some (false, dead) → V.unanswered := by
  refine Triple.bind (get_knows hmode (V.ready.stable hmode)) fun c => ?_
  split
  · rename_i hempty
    refine Triple.bind ((V.refuse client).pre ?_) fun _ => ?_
    · rintro w - ⟨hw, rfl⟩
      exact ⟨hw, by simpa using hempty⟩
    · exact Triple.ret (V.settled.stable hmode) fun w _ h => ⟨h, nofun⟩
  rename_i hsome
  refine Triple.bind ((get_self (fun c => V.getting client cmd c.participants.toList) hmode).pre ?_)
    fun c => ?_
  · rintro w ha ⟨hw, rfl⟩
    exact V.startGet client cmd w ha hasks hw (not_isEmpty hsome)
  refine Triple.bind ((V.getFromParticipants_triple hmode client cmd _ false).pre fun w _ h => h.1)
    fun answer => ?_
  refine Triple.ret ((V.settled.stable hmode).and (.const _)) fun w _ h => ⟨h.1, fun dead hanswer => ?_⟩
  exact h.2 (by rw [Option.some.inj hanswer])

end

end Serving

section Handler

-- A scope under the lock guard of participants_mutex_.
theorem critical_triple {α : Type} {body : Code α} {ready settled : World → Prop} {post : α → Prop}
    (h : Triple cdb T K role .inside ready body fun value w => settled w ∧ post value)
    (hready : ∀ w, K.idle w → ready w) (hsettled : ∀ w, settled w → K.idle w) :
    Triple cdb T K role .outside (fun _ => True) (Program.critical body) fun value _ => post value :=
  Triple.critical (.const _) (h.imp (fun w _ hw => hready w hw.1) fun _ w _ hw => ⟨hsettled w hw.1, hw.2⟩)
    (fun _ _ _ h _ _ => h) fun _ => .const _

-- The same where what is known inside depends on the state that is found.
theorem critical_triple_of {α : Type} {body : Code α} {ready settled : World → World → Prop}
    {post : α → Prop}
    (h : ∀ found, Triple cdb T K role .inside (ready found) body
      fun value w => settled found w ∧ post value)
    (hready : ∀ w, K.idle w → ready w w) (hsettled : ∀ found w, settled found w → K.idle w) :
    Triple cdb T K role .outside (fun _ => True) (Program.critical body) fun value _ => post value := by
  have hidle : Triple cdb T K role .inside K.idle body fun value w => K.idle w ∧ post value := by
    intro s ha hs
    exact ((h s).post fun value w _ hw => ⟨hsettled s w hw.1, hw.2⟩) s ha (hready s hs)
  exact critical_triple hidle (fun _ h => h) fun _ h => h

variable [Plain K]

theorem notifyIf_outside (dead : Bool) :
    Triple cdb T K role .outside (fun _ => True) (Coordinator.notifyIf dead) fun _ _ => True := by
  cases dead with
  | false => exact Triple.ret (.const _) fun _ _ h => h
  | true =>
      exact Coordinator.notifyAll_triple (.const _) (.const _) fun w _ _ =>
        ⟨Plain.notifyAll .outside w, ⟨fun _ => K.quiet_refl w, fun _ => K.follow_refl w⟩, trivial⟩

theorem Serving.handle_triple (V : World → Serving T K role .inside)
    (hready : ∀ w, K.idle w → (V w).ready w) (hsettled : ∀ found w, (V found).settled w → K.idle w)
    (client : Client) (cmd : Command) (hasks : ∀ found, (V found).asks client cmd) :
    Triple cdb T K role .outside (fun _ => True) (Coordinator.handle (client, cmd)) fun _ _ => True := by
  have hinside : Mode.inside ≠ .outside := by decide
  cases cmd with
  | get cmd =>
      have hbody := fun found => ((V found).handleGet_triple hinside client cmd (hasks found)).post
        fun answered w _ hw => (⟨hw.1, fun dead hanswer => ⟨found, hw.2 dead hanswer⟩⟩ :
          (V found).settled w ∧ ∀ dead, answered = some (false, dead) → ∃ found, (V found).unanswered)
      refine Triple.bind (critical_triple_of hbody hready hsettled) fun answered => ?_
      match answered with
      | none => exact Triple.ret (.const _) fun _ _ _ => trivial
      | some (true, dead) => exact (notifyIf_outside dead).pre fun _ _ _ => trivial
      | some (false, dead) =>
          refine Triple.of_forall fun s hunanswered => ?_
          obtain ⟨found, hfound⟩ := hunanswered dead rfl
          refine Triple.bind (((V found).sendUnanswered client hfound).pre fun _ _ _ => trivial)
            fun _ => ?_
          exact notifyIf_outside dead
  | set cmd =>
      simp only [Coordinator.handle, handleDbSetRequest_eq]
      have hupdate := fun found => (V found).handleUpdate_triple hinside client (.set cmd)
        (fun id => .PREPARE_SET { cmd with id }) (hasks found) rfl (fun _ => rfl) (fun _ => rfl) (.ret ())
        fun id => Triple.ret (((V found).replied _ _).stable hinside)
          ((V found).finishSet client { cmd with id })
      exact critical_triple_of (fun found => (hupdate found).post fun _ _ _ h => ⟨h, trivial⟩) hready hsettled
  | del cmd =>
      simp only [Coordinator.handle, handleDbDelRequest_eq]
      have hupdate := fun found => (V found).handleUpdate_triple hinside client (.del cmd)
        (fun id => .PREPARE_DEL { cmd with id }) (hasks found) rfl (fun _ => rfl) (fun _ => rfl)
        (rememberDelKeys cmd.keys) fun id => (V found).finishDel client { cmd with id }
      exact critical_triple_of (fun found => (hupdate found).post fun _ _ _ h => ⟨h, trivial⟩) hready hsettled

end Handler

namespace Rejoining

variable (J : Rejoining T K role mode)

section

variable [Plain K]

theorem recoverFromSnapshot_triple (hmode : mode ≠ .outside) (addr : Addr) (donors : List Addr) :
    Triple cdb T K role mode (J.lagging addr donors) (recoverFromSnapshot addr donors)
      fun ok w => if ok then J.returning addr w else J.settled w := by
  have hsettled : Triple cdb T K role mode J.settled (.ret false : Code Bool)
      fun ok w => if ok then J.returning addr w else J.settled w :=
    Triple.ret (J.settled.stable hmode) fun _ _ h => h
  induction donors with
  | nil => exact hsettled.pre (J.noDonor addr)
  | cons donor rest ih =>
      refine Triple.bind (J.snapshot addr donor rest) fun reply => ?_
      have hdrop := Triple.bind (J.dropDonor addr donor rest) fun _ => ih
      match reply with
      | some (.vector data) =>
          refine Triple.bind (get_knows hmode ((J.fetched addr data).stable hmode)) fun c => ?_
          refine Triple.bind (J.recover addr data c) fun recovered => ?_
          cases recovered with
          | none => exact hsettled
          | some _ =>
              refine Triple.bind (J.catchUp addr c) fun set => ?_
              cases set with
              | none => exact hsettled
              | some _ => exact Triple.ret ((J.returning addr).stable hmode) fun _ _ h => h
      | none | some (.bool _) | some (.uint32 _) | some (.string _) | some .void => exact hdrop

theorem recoverParticipant_triple (hmode : mode ≠ .outside) (addr : Addr) (hknown : J.known addr) :
    Triple cdb T K role mode (fun w => J.ready w ∧ ¬ w.coordinator.participants.contains addr)
      (recoverParticipant addr) fun recovered w => match recovered with
        | some true => J.returning addr w
        | some false => J.settled w
        | none => J.settled w := by
  refine Triple.bind (get_knows hmode ((J.ready.stable hmode).and
    (stable_coordinator hmode (¬ ·.participants.contains addr)))) fun c => ?_
  refine Triple.of_forall ?_
  rintro s ⟨⟨-, habsent⟩, rfl⟩
  split
  · rename_i hfresh
    refine Triple.bind ((J.setNextId addr _ hknown habsent (by simpa using hfresh)).pre
      fun w _ h => ⟨h.1.1, h.2⟩) fun reply => ?_
    cases reply with
    | none => exact Triple.ret (J.settled.stable hmode) fun _ _ h => h
    | some _ =>
        refine Triple.bind (J.recovered addr) fun _ => ?_
        exact Triple.ret ((J.returning addr).stable hmode) fun _ _ h => h
  · rename_i hrecovered
    refine Triple.bind ((J.nextId addr _ hknown habsent (by simpa using hrecovered)).pre
      fun w _ h => ⟨h.1.1, h.2⟩) fun reply => ?_
    match reply with
    | some (.uint32 pNextId) =>
        have htold : K.Stable role mode fun w => J.told addr pNextId w ∧ w.coordinator = s.coordinator :=
          ((J.told addr pNextId).stable hmode).and (stable_coordinator hmode (· = s.coordinator))
        dsimp only
        split
        · rename_i hsame
          refine Triple.ret htold ?_
          rintro w ha ⟨hw, hc⟩
          rw [hsame, ← hc] at hw
          exact J.same addr w ha hw
        rename_i hne
        split
        · rename_i hprepared
          refine Triple.ret htold ?_
          rintro w ha ⟨hw, hc⟩
          rw [← hc] at hprepared
          exact J.prepared addr pNextId w ha hw hprepared.1 hprepared.2
        · refine Triple.bind ((J.recoverFromSnapshot_triple hmode addr _).pre ?_) fun ok => ?_
          · rintro w ha ⟨hw, hc⟩
            rw [← hc] at hne ⊢
            exact J.behind addr pNextId w ha hw hne
          · cases ok with
            | true => exact Triple.ret ((J.returning addr).stable hmode) fun _ _ h => h
            | false => exact Triple.ret (J.settled.stable hmode) fun _ _ h => h
    | none | some (.bool _) | some (.vector _) | some (.string _) | some .void =>
        exact Triple.ret (J.settled.stable hmode) fun _ _ h => h

theorem resolveRecord_triple (hmode : mode ≠ .outside) (r : Record) :
    Triple cdb T K role mode
      (fun w => (r.status = RECORD_UNRESOLVED ∨ r.status = RECORD_ABORT) ∧ J.toAbort none r.id w ∨
        r.status = RECORD_COMMIT ∧ J.toCommit none r.id w)
      (resolveRecord r) fun _ => J.settled := by
  have hret : Triple cdb T K role mode J.settled (.ret () : Code Unit) fun _ => J.settled :=
    Triple.ret (J.settled.stable hmode) fun _ _ h => h
  refine Triple.of_forall fun s hs => ?_
  have hdiffer : ∀ {status : RecordStatus}, status = RECORD_UNRESOLVED ∨ status = RECORD_ABORT →
      status ≠ RECORD_COMMIT := by
    rintro status (rfl | rfl) <;> decide
  by_cases habort : r.status = RECORD_UNRESOLVED ∨ r.status = RECORD_ABORT
  · rw [resolveRecord, if_pos habort]
    refine Triple.bind ((J.abortDbRequest_triple hmode none r.id false).pre ?_) fun _ => hret
    rintro w - (⟨-, hw⟩ | ⟨hcommit, -⟩)
    · exact hw
    · exact absurd hcommit (hdiffer habort)
  · have hcommit : r.status = RECORD_COMMIT := hs.elim (fun h => absurd h.1 habort) fun h => h.1
    rw [resolveRecord, if_neg habort, if_pos hcommit]
    refine Triple.bind (((J.commitDbRequest_triple hmode none r.id false).pre ?_).post ?_) fun _ => hret
    · rintro w - (⟨h, -⟩ | ⟨-, hw⟩)
      · exact absurd h habort
      · exact hw
    · exact fun _ w ha h => J.finishNone r.id w ha h

theorem handleUnfinishedRecords_triple (hmode : mode ≠ .outside) :
    Triple cdb T K role mode J.joined handleUnfinishedRecords fun _ => J.settled := by
  have hret : Triple cdb T K role mode J.settled (.ret () : Code Unit) fun _ => J.settled :=
    Triple.ret (J.settled.stable hmode) fun _ _ h => h
  refine Triple.bind J.copy fun rs => ?_
  intro w ha hw
  rcases hw with ⟨rfl, hw⟩ | ⟨r, rfl, hw⟩
  · exact hret w ha hw
  · exact (Triple.bind (J.resolveRecord_triple hmode r) fun _ => hret) w ha hw

theorem readmitParticipant_triple (hmode : mode ≠ .outside) (addr : Addr) (hknown : J.known addr) :
    Triple cdb T K role mode J.ready (readmitParticipant addr)
      fun ok w => J.settled w ∧ (ok = false → J.gone addr) := by
  have hret : ∀ ok, (ok = false → J.gone addr) → Triple cdb T K role mode J.settled (.ret ok : Code Bool)
      fun ok w => J.settled w ∧ (ok = false → J.gone addr) :=
    fun ok hok => Triple.ret (J.settled.stable hmode) fun _ _ h => ⟨h, hok⟩
  refine Triple.bind (get_knows hmode (J.ready.stable hmode)) fun c => ?_
  split
  · rename_i hmember
    refine (hret true nofun).pre ?_
    rintro w ha ⟨hw, rfl⟩
    exact J.member addr w ha hw hmember
  rename_i habsent
  have habsent' : ∀ w, K.always w → J.ready w ∧ w.coordinator = c → J.gone addr := by
    rintro w ha ⟨hw, rfl⟩
    exact J.absent addr w ha hw habsent
  refine Triple.assuming habsent' fun hgone => ?_
  refine Triple.bind ((J.recoverParticipant_triple hmode addr hknown).pre ?_) fun recovered => ?_
  · rintro w - ⟨hw, rfl⟩
    exact ⟨hw, habsent⟩
  match recovered with
  | none => exact hret false fun _ => hgone
  | some false => exact hret true nofun
  | some true =>
      refine Triple.bind (J.insert addr) fun _ => Triple.bind J.forget fun _ => ?_
      exact Triple.bind (J.handleUnfinishedRecords_triple hmode) fun _ => hret true nofun

end

end Rejoining

section Heartbeats

variable [Plain K] (J : Rejoining T K role .inside)

theorem Rejoining.heartbeatParticipant_triple (hready : ∀ w, K.idle w → J.ready w)
    (hsettled : ∀ w, J.settled w → K.idle w) (addr : Addr) (hknown : J.known addr) :
    Triple cdb T K role .outside (fun _ => True) (heartbeatParticipant addr) fun _ _ => True := by
  have hdrop : J.gone addr → Triple cdb T K role .outside (fun _ => True)
      (Program.critical (eraseParticipant addr)) fun _ _ => True :=
    fun hgone => critical_triple ((J.drop addr hgone).post fun _ _ _ h => ⟨h, trivial⟩) hready hsettled
  refine Triple.bind (J.beat addr) fun reply => ?_
  cases reply with
  | none => exact Triple.of_forall fun _ hgone => (hdrop (hgone rfl)).pre fun _ _ _ => trivial
  | some _ =>
      refine Triple.bind ((critical_triple (J.readmitParticipant_triple (by decide) addr hknown) hready
        hsettled).pre fun _ _ _ => trivial) fun ok => ?_
      split
      · exact Triple.ret (.const _) fun _ _ _ => trivial
      · rename_i hok
        exact Triple.of_forall fun _ hgone =>
          (hdrop (hgone (Bool.eq_false_of_not_eq_true hok))).pre fun _ _ _ => trivial

theorem Rejoining.heartbeatParticipants_triple (hready : ∀ w, K.idle w → J.ready w)
    (hsettled : ∀ w, J.settled w → K.idle w) (passes : Nat) :
    Triple cdb T K role .outside (fun _ => True) (heartbeatParticipants passes) fun _ _ => True := by
  have hlist : ∀ addrs : List Addr, (∀ addr ∈ addrs, J.known addr) →
      Triple cdb T K role .outside (fun _ => True) (heartbeatList addrs) fun _ _ => True := by
    intro addrs hknown
    induction addrs with
    | nil => exact Triple.ret (.const _) fun _ _ h => h
    | cons addr rest ih =>
        have hrest := ih fun other hother => hknown other (by simp [hother])
        exact Triple.bind (J.heartbeatParticipant_triple hready hsettled addr (hknown addr (by simp)))
          fun _ => hrest
  induction passes with
  | zero => exact Triple.ret (.const _) fun _ _ h => h
  | succ passes ih =>
      refine Triple.seq (fun c _ => ∀ addr ∈ c.participantAddrs, J.known addr)
        (Coordinator.get_triple (.const _) (fun _ => .const _) ?_) fun c => Triple.of_forall fun _ hknown => ?_
      · exact fun w ha _ => ⟨Plain.get .outside w, ⟨fun _ => K.quiet_refl w, fun _ => K.follow_refl w⟩,
          J.configured w ha⟩
      · exact Triple.bind ((hlist _ hknown).pre fun _ _ _ => trivial) fun _ => ih

end Heartbeats

namespace Booting

variable [Plain K] (B : Booting T K role)

theorem initNextId_triple : Triple cdb T K role .alone B.started initNextId fun _ => B.numbered := by
  have halone := Mode.alone_ne_outside
  refine Triple.bind B.loadNumber fun _ => ?_
  refine Triple.bind (get_knows halone (B.loaded.stable halone)) fun c => ?_
  split
  · rename_i hzero
    refine Triple.bind (B.drawNumber.pre ?_) B.takeNumber
    rintro w - ⟨hw, rfl⟩
    exact ⟨hw, hzero⟩
  · rename_i hnumber
    refine Triple.ret ((B.loaded.stable halone).and (stable_coordinator halone (· = c))) ?_
    rintro w ha ⟨hw, rfl⟩
    exact B.goOn w ha hw hnumber

theorem initParticipant_triple (addr : Addr) (hknown : B.known addr) :
    Triple cdb T K role .alone B.joined (initParticipant addr) fun _ => B.joined := by
  have halone := Mode.alone_ne_outside
  have hjoined : Triple cdb T K role .alone B.joined (.ret () : Code Unit) fun _ => B.joined :=
    Triple.ret (B.joined.stable halone) fun _ _ h => h
  refine Triple.bind (B.insertFirst addr hknown) fun _ => ?_
  refine Triple.bind (B.askNumber addr) fun reply => ?_
  match reply with
  | some (.uint32 pNextId) =>
      refine Triple.bind (get_knows halone ((B.bearing addr pNextId).stable halone)) fun c => ?_
      have hstable : K.Stable role .alone fun w => B.bearing addr pNextId w ∧ w.coordinator = c :=
        ((B.bearing addr pNextId).stable halone).and (stable_coordinator halone (· = c))
      dsimp only
      split
      · rename_i hfresh
        refine Triple.bind ((B.tellNumber addr c (by simpa using hfresh)).pre
          fun w ha hw => ⟨B.bears addr pNextId w ha hw.1, hw.2⟩) fun told => ?_
        cases told with
        | none => exact B.eraseFirst addr
        | some _ => exact hjoined
      split
      · rename_i hsame
        refine Triple.ret hstable ?_
        rintro w ha ⟨hw, rfl⟩
        rw [hsame] at hw
        exact B.stays addr w ha hw
      split
      · rename_i hbehind
        refine Triple.ret hstable ?_
        rintro w ha ⟨hw, rfl⟩
        exact B.staysBehind addr pNextId w ha hw hbehind.1 hbehind.2
      · exact (B.eraseFirst addr).pre fun w ha hw => B.bears addr pNextId w ha hw.1
  | none | some (.bool _) | some (.vector _) | some (.string _) | some .void => exact B.eraseFirst addr

theorem initParticipantList_triple (addrs : List Addr) (hknown : ∀ addr ∈ addrs, B.known addr) :
    Triple cdb T K role .alone B.joined (initParticipantList addrs) fun _ => B.joined := by
  induction addrs with
  | nil => exact Triple.ret (B.joined.stable (by decide)) fun _ _ h => h
  | cons addr rest ih =>
      have hrest := ih fun other hother => hknown other (List.mem_cons_of_mem _ hother)
      exact Triple.bind (B.initParticipant_triple addr (hknown addr List.mem_cons_self)) fun _ => hrest

theorem recovery_triple : Triple cdb T K role .alone B.started recovery fun _ => B.settled := by
  have halone := Mode.alone_ne_outside
  refine Triple.bind B.initNextId_triple fun _ => Triple.bind ?_ fun _ =>
    B.toRejoining.handleUnfinishedRecords_triple halone
  refine Triple.critical_alone (Triple.bind (get_knows halone (B.numbered.stable halone)) fun c => ?_)
    fun _ => B.joined.stable halone
  have hknown : ∀ w, K.always w → B.numbered w ∧ w.coordinator = c → ∀ addr ∈ c.participantAddrs, B.known addr := by
    rintro w ha ⟨-, rfl⟩
    exact B.configured w ha
  exact Triple.assuming hknown fun hknown =>
    (B.initParticipantList_triple _ hknown).pre fun w ha hw => B.nobody w ha hw.1

end Booting

end CloudLabs.Cdb
