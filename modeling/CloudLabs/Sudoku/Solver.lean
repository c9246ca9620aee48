import CloudLabs.Sudoku.Board

namespace CloudLabs.Sudoku

-- Two cells that share a row, a column or a box.
def Sees (r c r' c' : Fin DIM) : Prop :=
  r' = r ∨ c' = c ∨ (r'.val / 3 = r.val / 3 ∧ c'.val / 3 = c.val / 3)

theorem Sees.symm {r c r' c' : Fin DIM} (h : Sees r c r' c') : Sees r' c' r c :=
  h.imp Eq.symm (Or.imp Eq.symm fun ⟨hrow, hcol⟩ => ⟨hrow.symm, hcol.symm⟩)

-- The other cells of a row, a column and a box have other values.
def Differs (board : Board) (r c : Fin DIM) : Prop :=
  ∀ r' c', Sees r c r' c' → (r', c') ≠ (r, c) → board r' c' ≠ board r c

-- A board with a value from 1 to 9 in each cell, where `board` has been kept.
structure Fills (board filled : Board) : Prop where
  keeps : ∀ r c, board r c ≠ 0 → filled r c = board r c
  assigned : ∀ r c, filled r c ≠ 0
  differs : ∀ r c, board r c = 0 → Differs filled r c

def CanBeFilled (board : Board) : Prop := ∃ filled, Fills board filled

-- Two cells that are given hold one value in a row, a column or a box.
def Conflicting (board : Board) : Prop := ∃ r c, (board r c).val ≠ 0 ∧ ¬ Differs board r c

-- The calls and loops of the source that return, with what they leave.
mutual

inductive Returns : Board → Bool × Board → Prop
  | full {board : Board} (hfull : getUnassignedLocation board = none) : Returns board (true, board)
  | loop {board : Board} {row col : Fin DIM} {result : Bool × Board}
      (hcell : getUnassignedLocation board = some (row, col))
      (hloop : LoopReturns row col board values result) : Returns board result

inductive LoopReturns : Fin DIM → Fin DIM → Board → List (Fin 10) → Bool × Board → Prop
  | exhausted {row col : Fin DIM} {board : Board} : LoopReturns row col board [] (false, board)
  | skipped {row col : Fin DIM} {board : Board} {v : Fin 10} {rest : List (Fin 10)}
      {result : Bool × Board} (hsafe : ¬ isSafe board row col v)
      (hloop : LoopReturns row col board rest result) : LoopReturns row col board (v :: rest) result
  | solved {row col : Fin DIM} {board board' : Board} {v : Fin 10} {rest : List (Fin 10)}
      (hsafe : isSafe board row col v) (hcall : Returns (board.set row col v) (true, board')) :
      LoopReturns row col board (v :: rest) (true, board')
  | backtracked {row col : Fin DIM} {board board' : Board} {v : Fin 10} {rest : List (Fin 10)}
      {result : Bool × Board} (hsafe : isSafe board row col v)
      (hcall : Returns (board.set row col v) (false, board'))
      (hloop : LoopReturns row col (board'.set row col 0) rest result) :
      LoopReturns row col board (v :: rest) result

end

section Safe

variable {board filled : Board} {row col : Fin DIM} {v : Fin 10}

theorem boxIndex_iff (r r' : Fin DIM) : (∃ offset, boxIndex r offset = r') ↔ r'.val / 3 = r.val / 3 := by
  have hr := r.isLt
  have hr' := r'.isLt
  constructor
  · rintro ⟨offset, rfl⟩
    have hoffset := offset.isLt
    simp only [boxIndex, DIM] at *
    omega
  · intro h
    refine ⟨⟨r'.val % 3, Nat.mod_lt _ (by decide)⟩, Fin.ext ?_⟩
    simp only [boxIndex, DIM] at *
    omega

theorem isSafe_iff : isSafe board row col v = true ↔ ∀ r c, Sees row col r c → board r c ≠ v := by
  have hbox : (∃ r c : Fin 3, board (boxIndex row r) (boxIndex col c) = v) ↔
      ∃ r c, (r.val / 3 = row.val / 3 ∧ c.val / 3 = col.val / 3) ∧ board r c = v := by
    constructor
    · rintro ⟨r, c, hv⟩
      exact ⟨_, _, ⟨(boxIndex_iff row _).mp ⟨r, rfl⟩, (boxIndex_iff col _).mp ⟨c, rfl⟩⟩, hv⟩
    · rintro ⟨r, c, ⟨hrow, hcol⟩, hv⟩
      obtain ⟨r', rfl⟩ := (boxIndex_iff row r).mpr hrow
      obtain ⟨c', rfl⟩ := (boxIndex_iff col c).mpr hcol
      exact ⟨r', c', hv⟩
  have hfails : isSafe board row col v = false ↔ ∃ r c, Sees row col r c ∧ board r c = v := by
    unfold isSafe
    simp only [List.any_eq_true, List.mem_finRange, true_and, beq_iff_eq]
    constructor
    · intro h
      split at h
      · rename_i hrow
        obtain ⟨c, hv⟩ := hrow
        exact ⟨row, c, .inl rfl, hv⟩
      split at h
      · rename_i hcol
        obtain ⟨r, hv⟩ := hcol
        exact ⟨r, col, .inr (.inl rfl), hv⟩
      split at h
      · rename_i hin
        obtain ⟨r, c, hsees, hv⟩ := hbox.mp hin
        exact ⟨r, c, .inr (.inr hsees), hv⟩
      · cases h
    · rintro ⟨r, c, hsees, hv⟩
      split
      · rfl
      rename_i hrow
      split
      · rfl
      rename_i hcol
      split
      · rfl
      rename_i hin
      rcases hsees with rfl | rfl | hsees
      · exact absurd ⟨c, hv⟩ hrow
      · exact absurd ⟨r, hv⟩ hcol
      · exact absurd (hbox.mpr ⟨r, c, hsees, hv⟩) hin
  constructor
  · intro hsafe r c hsees hv
    rw [hfails.mpr ⟨r, c, hsees, hv⟩] at hsafe
    cases hsafe
  · intro h
    cases hsafe : isSafe board row col v with
    | true => rfl
    | false =>
        obtain ⟨r, c, hsees, hv⟩ := hfails.mp hsafe
        exact absurd hv (h r c hsees)

theorem set_of_ne {r c : Fin DIM} (hne : (r, c) ≠ (row, col)) : board.set row col v r c = board r c := by
  unfold Board.set
  rw [if_neg (fun h => hne (by rw [h.1, h.2]))]

theorem set_self : board.set row col v row col = v := by simp [Board.set]

-- A filling puts a safe value into an empty cell, and fills what is then left.
theorem Fills.step (h : Fills board filled) (hcell : board row col = 0) :
    isSafe board row col (filled row col) = true ∧
      Fills (board.set row col (filled row col)) filled := by
  constructor
  · apply isSafe_iff.mpr
    intro r c hsees
    by_cases hzero : board r c = 0
    · rw [hzero]
      exact (h.assigned row col).symm
    · have hne : (r, c) ≠ (row, col) := by
        intro heq
        cases heq
        exact hzero hcell
      rw [← h.keeps r c hzero]
      exact h.differs row col hcell r c hsees hne
  · refine ⟨fun r c hrc => ?_, h.assigned, fun r c hrc => ?_⟩
    · by_cases hne : (r, c) = (row, col)
      · cases hne
        exact set_self.symm
      · rw [set_of_ne hne] at hrc ⊢
        exact h.keeps r c hrc
    · by_cases hne : (r, c) = (row, col)
      · cases hne
        rw [set_self] at hrc
        exact absurd hrc (h.assigned row col)
      · rw [set_of_ne hne] at hrc
        exact h.differs r c hrc

theorem Fills.of_set (h : Fills (board.set row col v) filled) (hcell : board row col = 0)
    (hv : v ≠ 0) (hsafe : isSafe board row col v = true) : Fills board filled := by
  have hfilled : filled row col = v := by
    rw [h.keeps row col (by rwa [set_self]), set_self]
  have hne {r c : Fin DIM} (hrc : board r c ≠ 0) : (r, c) ≠ (row, col) := by
    intro heq
    cases heq
    exact hrc hcell
  have hkeeps : ∀ r c, board r c ≠ 0 → filled r c = board r c := by
    intro r c hrc
    rw [h.keeps r c (by rwa [set_of_ne (hne hrc)]), set_of_ne (hne hrc)]
  have hlater {r c : Fin DIM} (hrc : board r c = 0) (hother : (r, c) ≠ (row, col)) :
      Differs filled r c := h.differs r c (by rwa [set_of_ne hother])
  refine ⟨hkeeps, h.assigned, fun r c hrc => ?_⟩
  by_cases hself : (r, c) = (row, col)
  · cases hself
    intro r' c' hsees hother
    rw [hfilled]
    by_cases hzero : board r' c' = 0
    · -- The other cell is filled later, and looks at this one then.
      have hdiffers := hlater hzero hother row col hsees.symm (Ne.symm hother)
      rw [hfilled] at hdiffers
      exact hdiffers.symm
    · rw [hkeeps r' c' hzero]
      exact isSafe_iff.mp hsafe r' c' hsees
  · exact hlater hrc hself

end Safe

section Search

variable {board : Board} {row col : Fin DIM}

theorem mem_values {v : Fin 10} (hv : v ≠ 0) : v ∈ values := by
  revert v
  decide

theorem getUnassignedLocation_none (h : getUnassignedLocation board = none) (r c : Fin DIM) :
    board r c ≠ 0 := by
  intro hzero
  have hrow := List.findSome?_eq_none_iff.mp h r (List.mem_finRange r)
  have hcell := List.findSome?_eq_none_iff.mp hrow c (List.mem_finRange c)
  rw [if_pos hzero] at hcell
  cases hcell

-- What a call returns and leaves for a board.
structure Solves (board : Board) (result : Bool × Board) : Prop where
  returns : Returns board result
  sound : result.1 = true → Fills board result.2
  complete : result.1 = false → ¬ CanBeFilled board
  restores : result.1 = false → result.2 = board

-- The loop over the values: the calls it makes are for boards with one more cell
-- filled, and a value that fails is in no filling.
structure Tries (row col : Fin DIM) (board : Board) (rest : List (Fin 10))
    (result : Bool × Board) : Prop where
  returns : LoopReturns row col board rest result
  sound : result.1 = true → Fills board result.2
  complete : result.1 = false → ∀ filled, Fills board filled → filled row col ∉ rest
  restores : result.1 = false → result.2 = board

theorem tryValues_tries (solve : Board → Bool × Board) {rest : List (Fin 10)}
    (hcell : board row col = 0) (hrest : ∀ v ∈ rest, v ≠ 0)
    (hsolve : ∀ v ∈ rest, Solves (board.set row col v) (solve (board.set row col v))) :
    Tries row col board rest (tryValues solve row col board rest) := by
  induction rest with
  | nil => exact ⟨.exhausted, fun h => (by cases h), fun _ _ _ => List.not_mem_nil, fun _ => rfl⟩
  | cons v rest ih =>
      have hlater := ih (fun other hother => hrest other (List.mem_cons_of_mem v hother))
        fun other hother => hsolve other (List.mem_cons_of_mem v hother)
      have hcall := hsolve v List.mem_cons_self
      have hv := hrest v List.mem_cons_self
      unfold tryValues
      by_cases hsafe : isSafe board row col v
      · rw [if_pos hsafe]
        cases hresult : solve (board.set row col v) with
        | mk found board' =>
        rw [hresult] at hcall
        cases found with
        | true =>
            refine ⟨.solved hsafe hcall.returns, fun _ => ?_, fun h => (by cases h), fun h => (by cases h)⟩
            exact (hcall.sound rfl).of_set hcell hv hsafe
        | false =>
            have hback : board'.set row col 0 = board := by
              have hboard' : board' = board.set row col v := hcall.restores rfl
              rw [hboard', Board.set_set_zero v hcell]
            simp only [Bool.false_eq_true, if_false, hback]
            refine ⟨.backtracked hsafe hcall.returns (by rw [hback]; exact hlater.returns),
              hlater.sound, fun hfail filled hfills hmem => ?_, hlater.restores⟩
            rcases List.mem_cons.mp hmem with heq | hmem
            · have hfills' := (hfills.step hcell).2
              rw [heq] at hfills'
              exact hcall.complete rfl ⟨filled, hfills'⟩
            · exact hlater.complete hfail filled hfills hmem
      · rw [if_neg hsafe]
        refine ⟨.skipped hsafe hlater.returns, hlater.sound, fun hfail filled hfills hmem => ?_,
          hlater.restores⟩
        rcases List.mem_cons.mp hmem with heq | hmem
        · have hsafe' := (hfills.step hcell).1
          rw [heq] at hsafe'
          exact hsafe hsafe'
        · exact hlater.complete hfail filled hfills hmem

-- By induction on the number of cells that are not filled: every call of the loop
-- is for a board with one less.
theorem solveSudokuBasic_solves (board : Board) : Solves board (solveSudokuBasic board) := by
  induction hcount : unassigned board using Nat.strong_induction_on generalizing board with
  | _ count ih =>
      rw [solveSudokuBasic_eq]
      cases hcell : getUnassignedLocation board with
      | none =>
          have hfull := getUnassignedLocation_none hcell
          refine ⟨.full hcell, fun _ => ?_, fun h => (by cases h), fun h => (by cases h)⟩
          exact ⟨fun _ _ _ => rfl, hfull, fun r c hrc => absurd hrc (hfull r c)⟩
      | some cell =>
          have hzero := getUnassignedLocation_some hcell
          have htries := tryValues_tries solveSudokuBasic hzero
            (fun v hv => ne_zero_of_mem_values hv) fun v hv => by
              have hset := Board.unassigned_set hzero (ne_zero_of_mem_values hv)
              exact ih _ (by omega) _ rfl
          refine ⟨.loop hcell htries.returns, htries.sound, fun hfail hfilled => ?_, htries.restores⟩
          obtain ⟨filled, hfills⟩ := hfilled
          exact htries.complete hfail filled hfills (mem_values (hfills.assigned cell.1 cell.2))

theorem solved_iff (board : Board) : (solveSudokuBasic board).1 = true ↔ CanBeFilled board := by
  have hsolves := solveSudokuBasic_solves board
  constructor
  · intro htrue
    exact ⟨_, hsolves.sound htrue⟩
  · intro hfilled
    by_contra hfail
    exact hsolves.complete (Bool.eq_false_iff.mpr hfail) hfilled

end Search

-- The recursion ends, finds a filling where there is one, and else changes nothing.
theorem solveSudokuBasic_correct (board : Board) :
    Returns board (solveSudokuBasic board) ∧
      ((solveSudokuBasic board).1 = true ↔ CanBeFilled board) ∧
      ((solveSudokuBasic board).1 = true → Fills board (solveSudokuBasic board).2) ∧
      ((solveSudokuBasic board).1 = false → (solveSudokuBasic board).2 = board) := by
  have hsolves := solveSudokuBasic_solves board
  exact ⟨hsolves.returns, solved_iff board, hsolves.sound, hsolves.restores⟩

-- A puzzle whose cells are in conflict with each other is rejected.
def Rejects (board : Board) : Prop := Conflicting board → (solveSudokuBasic board).1 = false

-- The cells that are given are never compared with each other.
theorem rejects_iff (board : Board) : Rejects board ↔ ¬ (Conflicting board ∧ CanBeFilled board) := by
  constructor
  · intro hrejects ⟨hconflict, hfilled⟩
    have hfalse := hrejects hconflict
    rw [(solved_iff board).mpr hfilled] at hfalse
    cases hfalse
  · intro hnot hconflict
    apply Bool.eq_false_iff.mpr
    intro htrue
    exact hnot ⟨hconflict, (solved_iff board).mp htrue⟩

-- A full board of ones.
theorem ones_not_rejects : ¬ Rejects fun _ _ => 1 := by
  intro hrejects
  have hfull : getUnassignedLocation (fun _ _ => 1) = none := by decide
  have hconflict : Conflicting fun _ _ => 1 :=
    ⟨⟨0, by decide⟩, ⟨0, by decide⟩, by decide, fun hdiffers =>
      hdiffers ⟨0, by decide⟩ ⟨1, by decide⟩ (.inl rfl) (by decide) rfl⟩
  have hfalse := hrejects hconflict
  rw [solveSudokuBasic_eq, hfull] at hfalse
  cases hfalse

end CloudLabs.Sudoku
