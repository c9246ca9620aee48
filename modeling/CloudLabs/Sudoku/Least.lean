import CloudLabs.Sudoku.Solver
import Mathlib.Data.Prod.Lex
import Mathlib.Order.PiLex

namespace CloudLabs.Sudoku

-- The cells in the order in which get_unassigned_location looks at them.
abbrev Cell := Fin DIM ×ₗ Fin DIM

-- A board as the word of its cells.
def Board.word (board : Board) : Lex (Cell → Fin 10) := toLex fun cell => board (ofLex cell).1 (ofLex cell).2

section Order

variable {board filled filled' : Board} {row col : Fin DIM}

theorem first_unassigned (h : getUnassignedLocation board = some (row, col)) {cell : Cell}
    (hbefore : cell < toLex (row, col)) : board (ofLex cell).1 (ofLex cell).2 ≠ 0 := by
  obtain ⟨rows, r, later, hrows, hrow, hearlier⟩ := List.findSome?_eq_some_iff.mp h
  obtain ⟨cols, c, later', hcols, hcol, hleft⟩ := List.findSome?_eq_some_iff.mp hrow
  have hcell : r = row ∧ c = col := by
    by_cases hzero : board r c = 0
    · rw [if_pos hzero] at hcol
      exact Prod.mk.inj (Option.some.inj hcol)
    · rw [if_neg hzero] at hcol
      cases hcol
  obtain ⟨rfl, rfl⟩ := hcell
  -- What stands in front of an element of finRange is less.
  have hfront : ∀ {front back : List (Fin DIM)} {x y : Fin DIM}, List.finRange DIM = front ++ x :: back →
      y < x → y ∈ front := by
    intro front back x y hsplit hlt
    have hmem : y ∈ front ++ x :: back := hsplit ▸ List.mem_finRange y
    have hsorted : (front ++ x :: back).Pairwise (· < ·) := hsplit ▸ List.pairwise_lt_finRange DIM
    rcases List.mem_append.mp hmem with hin | hin
    · exact hin
    · have htail := (List.pairwise_append.mp hsorted).2.1
      rcases List.mem_cons.mp hin with heq | hback
      · omega
      · have hgt := (List.pairwise_cons.mp htail).1 y hback
        omega
  intro hzero
  rcases (Prod.Lex.lt_iff).mp hbefore with hrow' | ⟨hrow', hcol'⟩
  · have hnone := hearlier _ (hfront hrows hrow')
    have hcell := List.findSome?_eq_none_iff.mp hnone (ofLex cell).2 (List.mem_finRange _)
    rw [if_pos hzero] at hcell
    cases hcell
  · have hnone := hleft _ (hfront hcols hcol')
    have hsame : (ofLex cell).1 = r := hrow'
    rw [← hsame, if_pos hzero] at hnone
    cases hnone

-- Two fillings agree up to the first empty cell, and the lesser value there decides.
theorem word_lt (h : getUnassignedLocation board = some (row, col)) (hfills : Fills board filled)
    (hfills' : Fills board filled') (hlt : filled row col < filled' row col) : filled.word < filled'.word := by
  refine ⟨toLex (row, col), fun cell hbefore => ?_, hlt⟩
  have hgiven := first_unassigned h hbefore
  show filled (ofLex cell).1 (ofLex cell).2 = filled' (ofLex cell).1 (ofLex cell).2
  rw [hfills.keeps _ _ hgiven, hfills'.keeps _ _ hgiven]

end Order

section Search

variable {board : Board} {row col : Fin DIM}

-- What a call leaves comes before every other filling.
def FindsLeast (board : Board) (result : Bool × Board) : Prop :=
  result.1 = true → ∀ filled, Fills board filled → result.2.word ≤ filled.word

-- The values that are left are tried in increasing order, and a filling with one of
-- them is not less than what is found.
theorem tryValues_least {rest : List (Fin 10)} (hcell : getUnassignedLocation board = some (row, col))
    (hrest : ∀ v ∈ rest, v ≠ 0) (hsorted : rest.Pairwise (· < ·))
    (hsolve : ∀ v ∈ rest, FindsLeast (board.set row col v) (solveSudokuBasic (board.set row col v)))
    (hsolved : (tryValues solveSudokuBasic row col board rest).1 = true) {filled : Board}
    (hfills : Fills board filled) (hmem : filled row col ∈ rest) :
    (tryValues solveSudokuBasic row col board rest).2.word ≤ filled.word := by
  have hzero := getUnassignedLocation_some hcell
  induction rest with
  | nil => cases hmem
  | cons v rest ih =>
      obtain ⟨hless, hsorted'⟩ := List.pairwise_cons.mp hsorted
      have hlater := ih (fun other hother => hrest other (List.mem_cons_of_mem v hother)) hsorted'
        fun other hother => hsolve other (List.mem_cons_of_mem v hother)
      have hv := hrest v List.mem_cons_self
      have hcall := solveSudokuBasic_solves (board.set row col v)
      have hleast := hsolve v List.mem_cons_self
      unfold tryValues at hsolved ⊢
      by_cases hsafe : isSafe board row col v
      · rw [if_pos hsafe] at hsolved ⊢
        cases hfound : (solveSudokuBasic (board.set row col v)).1 with
        | true =>
            have hsound := hcall.sound hfound
            simp only [hfound, if_true]
            rcases List.mem_cons.mp hmem with heq | hmem'
            · have hset := (hfills.step hzero).2
              rw [heq] at hset
              exact hleast hfound filled hset
            · have hvalue : (solveSudokuBasic (board.set row col v)).2 row col = v := by
                rw [hsound.keeps row col (by rwa [set_self]), set_self]
              apply le_of_lt
              apply word_lt hcell (hsound.of_set hzero hv hsafe) hfills
              rw [hvalue]
              exact hless _ hmem'
        | false =>
            -- No filling has this value, and the board is as before.
            have hback : ((solveSudokuBasic (board.set row col v)).2).set row col 0 = board := by
              rw [hcall.restores hfound, Board.set_set_zero v hzero]
            simp only [hfound, Bool.false_eq_true, if_false, hback] at hsolved ⊢
            apply hlater hsolved
            rcases List.mem_cons.mp hmem with heq | hmem'
            · have hset := (hfills.step hzero).2
              rw [heq] at hset
              exact absurd ⟨filled, hset⟩ (hcall.complete hfound)
            · exact hmem'
      · rw [if_neg hsafe] at hsolved ⊢
        apply hlater hsolved
        rcases List.mem_cons.mp hmem with heq | hmem'
        · have hsafe' := (hfills.step hzero).1
          rw [heq] at hsafe'
          exact absurd hsafe' hsafe
        · exact hmem'

-- By induction on the number of cells that are not filled.
theorem solveSudokuBasic_findsLeast (board : Board) : FindsLeast board (solveSudokuBasic board) := by
  induction hcount : unassigned board using Nat.strong_induction_on generalizing board with
  | _ count ih =>
      intro hsolved filled hfills
      rw [solveSudokuBasic_eq] at hsolved ⊢
      cases hcell : getUnassignedLocation board with
      | none =>
          have hsame : filled = board := by
            funext r c
            exact hfills.keeps r c (getUnassignedLocation_none hcell r c)
          rw [hsame]
      | some cell =>
          obtain ⟨row, col⟩ := cell
          rw [hcell] at hsolved
          have hzero := getUnassignedLocation_some hcell
          apply tryValues_least hcell (fun v hv => ne_zero_of_mem_values hv) (by decide) _ hsolved hfills
          · exact mem_values (hfills.assigned row col)
          · intro v hv
            have hset := Board.unassigned_set hzero (ne_zero_of_mem_values hv)
            exact ih _ (by omega) _ rfl

end Search

-- What is to be printed for a line: the way to fill the board that it shows which comes
-- first, cell by cell, or nothing where there is none.
def Solution (line text : Bytes) : Prop :=
  ∃ board, Shows line board ∧
    ((∃ filled, Fills board filled ∧ (∀ other, Fills board other → filled.word ≤ other.word) ∧ Shows text filled) ∨
      (¬ CanBeFilled board ∧ text = []))

theorem solution_solveLine (line : Line) : Solution line.chars (solveLine line) := by
  have hsolves := solveSudokuBasic_solves (deserializeBoard line)
  refine ⟨deserializeBoard line, shows_deserializeBoard line, ?_⟩
  unfold solveLine
  cases hsolved : (solveSudokuBasic (deserializeBoard line)).1 with
  | true =>
      refine .inl ⟨_, hsolves.sound hsolved, solveSudokuBasic_findsLeast _ hsolved, ?_⟩
      simp only [hsolved, if_true]
      exact shows_serializeBoard _
  | false =>
      refine .inr ⟨hsolves.complete hsolved, ?_⟩
      simp only [hsolved, Bool.false_eq_true, if_false]

-- The search returns true for the puzzles that can be filled, and leaves the filling
-- that comes first, cell by cell; so what it leaves does not depend on how it goes on.
theorem canBeFilled_iff_isLeast (board : Board) :
    ((solveSudokuBasic board).1 = true ↔ CanBeFilled board) ∧
      (CanBeFilled board ↔
        IsLeast (Board.word '' {filled | Fills board filled}) (solveSudokuBasic board).2.word) := by
  refine ⟨solved_iff board, fun hfilled => ?_, ?_⟩
  · have hsolved := (solved_iff board).mpr hfilled
    refine ⟨⟨_, (solveSudokuBasic_solves board).sound hsolved, rfl⟩, ?_⟩
    rintro word ⟨filled, hfills, rfl⟩
    exact solveSudokuBasic_findsLeast board hsolved filled hfills
  · rintro ⟨⟨filled, hfills, -⟩, -⟩
    exact ⟨filled, hfills⟩

end CloudLabs.Sudoku
