import CloudLabs.Interaction.Service

namespace CloudLabs.Interaction

variable {E : Type} {R : E → Type} {σ χ ρ : Type} {α β γ : Type}

-- `mark` says which effects leave a mark. When `word` has been left already, every
-- way in which the program can end leaves a word with its value as `post` says.
def Program.Leaves (mark : E → Option γ) (program : Program E R α) (word : List γ)
    (post : α → List γ → Prop) : Prop :=
  match program with
  | .ret value => post value word
  | .op effect next => ∀ answer, (next answer).Leaves mark (word ++ (mark effect).toList) post
  | .acquire next => next.Leaves mark word post
  | .release next => next.Leaves mark word post

namespace Program.Leaves

variable {mark : E → Option γ} {program : Program E R α} {word : List γ} {post post' : α → List γ → Prop}

theorem mono (h : program.Leaves mark word post) (himp : ∀ value word, post value word → post' value word) :
    program.Leaves mark word post' := by
  induction program generalizing word with
  | ret value => exact himp value word h
  | op effect next ih => exact fun answer => ih answer (h answer)
  | acquire next ih => exact ih h
  | release next ih => exact ih h

theorem bind {rest : α → Program E R β} {post : β → List γ → Prop}
    (h : program.Leaves mark word fun value later => (rest value).Leaves mark later post) :
    (program.bind rest).Leaves mark word post := by
  induction program generalizing word with
  | ret value => exact h
  | op effect next ih => exact fun answer => ih answer (h answer)
  | acquire next ih => exact ih h
  | release next ih => exact ih h

theorem critical (h : program.Leaves mark word post) : (Program.critical program).Leaves mark word post :=
  bind (h.mono fun _ _ hvalue => hvalue)

-- A program that leaves no mark.
theorem of_within {kind : E → Prop} (hprogram : program.Within kind)
    (hkind : ∀ effect, kind effect → mark effect = none) (hpost : ∀ value, post value word) :
    program.Leaves mark word post := by
  induction program with
  | ret value => exact hpost value
  | op effect next ih =>
      intro answer
      rw [hkind effect hprogram.1, Option.toList_none, List.append_nil]
      exact ih answer (hprogram.2 answer)
  | acquire next ih => exact hprogram.elim
  | release next ih => exact hprogram.elim

-- What has been left is the front of what will have been left in the end.
theorem exists_append (hanswer : ∀ effect, Nonempty (R effect)) (h : program.Leaves mark word post) :
    ∃ value more, post value (word ++ more) := by
  induction program generalizing word with
  | ret value => exact ⟨value, [], by rw [List.append_nil]; exact h⟩
  | op effect next ih =>
      obtain ⟨answer⟩ := hanswer effect
      obtain ⟨value, more, hpost⟩ := ih answer (h answer)
      exact ⟨value, (mark effect).toList ++ more, by rwa [← List.append_assoc]⟩
  | acquire next ih => exact ih h
  | release next ih => exact ih h

end Program.Leaves

-- The state records the marks of all threads, the last one first.
structure Records (S : Service E R σ χ ρ) (mark : E → Option γ) (record : σ → List γ) : Prop where
  exec : ∀ s effect choice answer t, S.exec s effect choice = some (answer, t) →
    record t = (mark effect).toList ++ record s
  environment : ∀ s choice t, S.environment s choice = some t → record t = record s

-- Each of so many threads has left the marks that it owns in their order, and when it
-- ends they are its word.
def Pool.Leaves (mark : E → Option γ) (record : σ → List γ) (owner : γ → Nat) (word : Nat → List γ)
    (count : Nat) (pool : Pool E R σ) : Prop :=
  ∃ holder threads, pool.phase = .serving holder threads ∧ threads.length = count ∧
    ∀ (thread : Nat) (program : Program E R Unit), threads[thread]? = some program →
      program.Leaves mark ((record pool.shared).reverse.filter fun m => owner m = thread)
        fun _ left => left = word thread

section Runs

variable {S : Service E R σ χ ρ} {T : Terms E σ χ} {mark : E → Option γ} {record : σ → List γ}
  {owner : γ → Nat} {word : Nat → List γ} {count : Nat} {pool next : Pool E R σ}

-- A mark that a thread leaves is in its word, so the thread owns it.
theorem Program.Leaves.owned (hanswer : ∀ effect, Nonempty (R effect)) {thread : Nat}
    (howner : ∀ m ∈ word thread, owner m = thread) {program : Program E R α} {left marks : List γ}
    (h : program.Leaves mark (left ++ marks) fun _ last => last = word thread) :
    ∀ m ∈ marks, owner m = thread := by
  intro m hm
  obtain ⟨_, more, hword⟩ := h.exists_append hanswer
  apply howner
  rw [← hword]
  simp [hm]

-- One thread has moved on and left its mark, if it left one.
theorem Pool.Leaves.set {s t : σ} {holder holder' : Option Nat} {threads : List (Program E R Unit)}
    {thread : Nat} {program : Program E R Unit} (left : Option γ)
    (h : Pool.Leaves mark record owner word count ⟨s, .serving holder threads⟩)
    (hrecord : record t = left.toList ++ record s) (hown : ∀ m ∈ left.toList, owner m = thread)
    (hself : program.Leaves mark ((record s).reverse.filter (fun m => owner m = thread) ++ left.toList)
      fun _ last => last = word thread) :
    Pool.Leaves mark record owner word count ⟨t, .serving holder' (threads.set thread program)⟩ := by
  obtain ⟨_, _, hphase, hcount, hthreads⟩ := h
  cases hphase
  refine ⟨holder', threads.set thread program, rfl, by rwa [List.length_set], fun other q hq => ?_⟩
  have hreverse : left.toList.reverse = left.toList := by cases left <;> rfl
  simp only [hrecord, List.reverse_append, List.filter_append, hreverse]
  by_cases heq : thread = other
  · subst heq
    rw [List.getElem?_set_self'] at hq
    obtain ⟨_, _, rfl⟩ := Option.map_eq_some_iff.mp hq
    have hkept : left.toList.filter (fun m => owner m = thread) = left.toList :=
      List.filter_eq_self.mpr fun m hm => decide_eq_true (hown m hm)
    rw [hkept]
    exact hself
  · rw [List.getElem?_set_ne heq] at hq
    have hnone : left.toList.filter (fun m => owner m = other) = [] := by
      apply List.filter_eq_nil_iff.mpr
      intro m hm
      rw [hown m hm]
      simpa using heq
    rw [hnone, List.append_nil]
    exact hthreads other q hq

-- An effect adds its mark to what its own thread has left.
theorem Pool.Leaves.step (hrecords : Records S mark record) (hanswer : ∀ effect, Nonempty (R effect))
    (howner : ∀ thread, ∀ m ∈ word thread, owner m = thread) (hcrash : ∀ s, ¬ T.crash s) [IsEmpty ρ]
    (h : pool.Leaves mark record owner word count) {move : Move χ ρ} (hmove : T.permits pool move)
    (hstep : S.step pool move = some next) : next.Leaves mark record owner word count := by
  obtain ⟨s, phase⟩ := pool
  obtain ⟨holder, threads, hphase, hcount, hthreads⟩ := id h
  cases hphase
  cases move with
  | arrive request => exact isEmptyElim request
  | early passes request => exact isEmptyElim request
  | crash => exact absurd hmove (hcrash s)
  | serve passes => cases hstep
  | environment choice =>
      obtain ⟨t, ht, rfl⟩ := Option.map_eq_some_iff.mp hstep
      refine ⟨holder, threads, rfl, hcount, fun thread program hp => ?_⟩
      rw [hrecords.environment s choice t ht]
      exact hthreads thread program hp
  | advance thread choice =>
      obtain ⟨program, hp, hrest⟩ := Option.bind_eq_some_iff.mp hstep
      obtain ⟨after, hafter, rfl⟩ := Option.map_eq_some_iff.mp hrest
      have hself := hthreads thread program hp
      -- The mutex is not told apart by the marks.
      have hsilent : ∀ rest : Program E R Unit, ∀ holder',
          rest.Leaves mark ((record s).reverse.filter fun m => owner m = thread) (fun _ last => last = word thread) →
          Pool.Leaves mark record owner word count ⟨s, .serving holder' (threads.set thread rest)⟩ :=
        fun rest holder' hrest => h.set none rfl nofun (by simpa using hrest)
      cases program with
      | ret value => cases hafter
      | acquire rest =>
          simp only [Service.stepThread] at hafter
          split at hafter
          · cases hafter
            exact hsilent rest _ hself
          · cases hafter
      | release rest =>
          simp only [Service.stepThread] at hafter
          split at hafter
          · cases hafter
            exact hsilent rest _ hself
          · cases hafter
      | op effect rest =>
          obtain ⟨⟨answer, t⟩, hexec, rfl⟩ := Option.map_eq_some_iff.mp hafter
          have hnext := hself answer
          exact h.set (mark effect) (hrecords.exec s effect choice answer t hexec)
            (Program.Leaves.owned hanswer (howner thread) hnext) hnext

theorem Service.Reachable.leaves {start : Pool E R σ} (hrecords : Records S mark record)
    (hanswer : ∀ effect, Nonempty (R effect)) (howner : ∀ thread, ∀ m ∈ word thread, owner m = thread)
    (hcrash : ∀ s, ¬ T.crash s) [IsEmpty ρ] (hstart : start.Leaves mark record owner word count)
    (hreach : S.Reachable T start pool) : pool.Leaves mark record owner word count := by
  induction hreach with
  | start => exact hstart
  | step move _ hmove hstep ih => exact ih.step hrecords hanswer howner hcrash hmove hstep

end Runs

end CloudLabs.Interaction
