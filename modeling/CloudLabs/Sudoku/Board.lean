import Mathlib.Data.Fin.Basic
import Mathlib.Data.List.FinRange
import Mathlib.Data.Fintype.Prod
import Mathlib.Data.Fintype.Card

namespace CloudLabs.Sudoku

abbrev Bytes := List UInt8

def DIM : Nat := 9

-- A cell holds 0 while it is not filled.
abbrev Board := Fin DIM → Fin DIM → Fin 10

def Board.set (board : Board) (row col : Fin DIM) (v : Fin 10) : Board :=
  fun r c => if r = row ∧ c = col then v else board r c

-- The row or column of a cell of the box that starts at `r - r % 3`.
def boxIndex (r : Fin DIM) (offset : Fin 3) : Fin DIM :=
  ⟨offset + (r - r % 3), by
    have hr := r.isLt
    have ho := offset.isLt
    simp only [DIM] at *
    omega⟩

def isSafe (board : Board) (r c : Fin DIM) (v : Fin 10) : Bool :=
  if (List.finRange DIM).any fun col => board r col == v then false
  else if (List.finRange DIM).any fun row => board row c == v then false
  else if (List.finRange 3).any fun row => (List.finRange 3).any fun col =>
      board (boxIndex r row) (boxIndex c col) == v then false
  else true

-- `none` is the pair (9, 9).
def getUnassignedLocation (board : Board) : Option (Fin DIM × Fin DIM) :=
  (List.finRange DIM).findSome? fun row =>
    (List.finRange DIM).findSome? fun col => if board row col = 0 then some (row, col) else none

-- The loop over the values of one cell; `solve` is the recursive call.
def tryValues (solve : Board → Bool × Board) (row col : Fin DIM) (board : Board) :
    List (Fin 10) → Bool × Board
  | [] => (false, board)
  | v :: values =>
      if isSafe board row col v then
        let (solved, board) := solve (board.set row col v)
        if solved then (true, board)
        else tryValues solve row col (board.set row col 0) values
      else tryValues solve row col board values

-- The loop `for (int v = 1; v <= 9; v++)`.
def values : List (Fin 10) := [1, 2, 3, 4, 5, 6, 7, 8, 9]

def solveWithin : Nat → Board → Bool × Board
  | 0, board => (false, board)
  | depth + 1, board =>
      match getUnassignedLocation board with
      | none => (true, board)
      | some (row, col) => tryValues (solveWithin depth) row col board values

-- Each nested call fills one more cell.
def solveSudokuBasic (board : Board) : Bool × Board := solveWithin (DIM * DIM + 1) board

-- The lines that the assertions of `deserialize_board` accept.
structure Line where
  chars : Bytes
  length_eq : chars.length = 81
  isDigit : ∀ ch ∈ chars, 48 ≤ ch.toNat ∧ ch.toNat ≤ 57

theorem Line.cell_lt (line : Line) (row col : Fin DIM) :
    DIM * row.val + col.val < line.chars.length := by
  have hrow := row.isLt
  have hcol := col.isLt
  rw [line.length_eq]
  simp only [DIM] at *
  omega

theorem Line.digit_lt (line : Line) (index : Fin line.chars.length) :
    (line.chars.get index).toNat - 48 < 10 := by
  have hdigit := line.isDigit (line.chars.get index) (List.get_mem line.chars index)
  omega

def deserializeBoard (line : Line) : Board :=
  fun row col => ⟨(line.chars.get ⟨DIM * row.val + col.val, line.cell_lt row col⟩).toNat - 48,
    line.digit_lt _⟩

def serializeBoard (board : Board) : Bytes :=
  (List.finRange DIM).flatMap fun i => (List.finRange DIM).map fun j => 48 + (board i j).val.toUInt8

-- The task that `main` adds for a line.
def solveLine (line : Line) : Bytes :=
  let (solved, board) := solveSudokuBasic (deserializeBoard line)
  if solved then serializeBoard board else []

-- A text shows a board row by row, each of its cells as one digit.
def Shows (text : Bytes) (board : Board) : Prop :=
  text.length = DIM * DIM ∧
    ∀ row col : Fin DIM, text[DIM * row.val + col.val]?.map UInt8.toNat = some (48 + (board row col).val)

theorem shows_deserializeBoard (line : Line) : Shows line.chars (deserializeBoard line) := by
  refine ⟨line.length_eq, fun row col => ?_⟩
  have hcell := line.cell_lt row col
  have hdigit := line.isDigit _ (List.getElem_mem hcell)
  have hvalue : (deserializeBoard line row col).val = (line.chars[DIM * row.val + col.val]).toNat - 48 := rfl
  rw [List.getElem?_eq_getElem hcell, Option.map_some, hvalue]
  apply congrArg some
  omega

-- Where a cell stands among the 81.
theorem cell_divMod {row col : Fin DIM} (hlt : DIM * row.val + col.val < DIM * DIM) :
    Fin.divNat (⟨DIM * row.val + col.val, hlt⟩ : Fin (DIM * DIM)) = row ∧
      Fin.modNat (⟨DIM * row.val + col.val, hlt⟩ : Fin (DIM * DIM)) = col := by
  have hrow := row.isLt
  have hcol := col.isLt
  constructor
  · apply Fin.ext
    simp only [Fin.coe_divNat, DIM] at *
    omega
  · apply Fin.ext
    simp only [Fin.coe_modNat, DIM] at *
    omega

-- The digits of a board as one row.
theorem serializeBoard_eq (board : Board) : serializeBoard board =
    List.ofFn fun k : Fin (DIM * DIM) => 48 + (board k.divNat k.modNat).val.toUInt8 := by
  rw [List.ofFn_mul']
  unfold serializeBoard
  simp only [List.flatMap, ← List.ofFn_eq_map]
  apply congrArg List.flatten
  apply congrArg List.ofFn
  funext row
  apply congrArg List.ofFn
  funext col
  rw [(cell_divMod _).1, (cell_divMod _).2]

theorem shows_serializeBoard (board : Board) : Shows (serializeBoard board) board := by
  have hdigit : ∀ v : Fin 10, (48 + v.val.toUInt8).toNat = 48 + v.val := by decide
  rw [serializeBoard_eq]
  refine ⟨List.length_ofFn, fun row col => ?_⟩
  have hlt : DIM * row.val + col.val < DIM * DIM := by
    have hrow := row.isLt
    have hcol := col.isLt
    simp only [DIM] at *
    omega
  rw [List.getElem?_ofFn, dif_pos hlt, Option.map_some, (cell_divMod hlt).1, (cell_divMod hlt).2, hdigit]

-- The number of cells that are not filled.
def unassigned (board : Board) : Nat :=
  (Finset.univ.filter fun cell : Fin DIM × Fin DIM => board cell.1 cell.2 = 0).card

theorem unassigned_le (board : Board) : unassigned board ≤ DIM * DIM := by
  have hcard := Finset.card_filter_le (Finset.univ : Finset (Fin DIM × Fin DIM))
    fun cell => board cell.1 cell.2 = 0
  rw [Finset.card_univ, Fintype.card_prod, Fintype.card_fin] at hcard
  exact hcard

namespace Board

theorem set_set_zero {board : Board} {row col : Fin DIM} (v : Fin 10) (hcell : board row col = 0) :
    (board.set row col v).set row col 0 = board := by
  funext r c
  unfold set
  by_cases h : r = row ∧ c = col
  · rw [if_pos h, h.1, h.2, hcell]
  · rw [if_neg h, if_neg h]

theorem unassigned_set {board : Board} {row col : Fin DIM} {v : Fin 10} (hcell : board row col = 0)
    (hv : v ≠ 0) : unassigned (board.set row col v) + 1 = unassigned board := by
  have herase : (Finset.univ.filter fun cell : Fin DIM × Fin DIM =>
      board.set row col v cell.1 cell.2 = 0) =
      (Finset.univ.filter fun cell : Fin DIM × Fin DIM => board cell.1 cell.2 = 0).erase (row, col) := by
    ext ⟨r, c⟩
    rw [Finset.mem_erase, Finset.mem_filter, Finset.mem_filter]
    by_cases h : r = row ∧ c = col
    · simp [set, h, hv]
    · simp [set, h]
  have hmem : (row, col) ∈
      Finset.univ.filter fun cell : Fin DIM × Fin DIM => board cell.1 cell.2 = 0 := by
    simp [hcell]
  unfold unassigned
  rw [herase]
  exact Finset.card_erase_add_one hmem

end Board

theorem getUnassignedLocation_some {board : Board} {row col : Fin DIM}
    (h : getUnassignedLocation board = some (row, col)) : board row col = 0 := by
  obtain ⟨r, -, hrow⟩ := List.exists_of_findSome?_eq_some h
  obtain ⟨c, -, hcol⟩ := List.exists_of_findSome?_eq_some hrow
  by_cases hcell : board r c = 0
  · rw [if_pos hcell] at hcol
    cases hcol
    exact hcell
  · rw [if_neg hcell] at hcol
    cases hcol

-- A call that finds no solution leaves the board as it was.
def Restores (solve : Board → Bool × Board) : Prop :=
  ∀ board, (solve board).1 = false → (solve board).2 = board

theorem tryValues_restores {solve : Board → Bool × Board} (hsolve : Restores solve)
    {row col : Fin DIM} {board : Board} (hcell : board row col = 0) (values : List (Fin 10))
    (hfail : (tryValues solve row col board values).1 = false) :
    (tryValues solve row col board values).2 = board := by
  induction values with
  | nil => rfl
  | cons v values ih =>
      unfold tryValues at hfail ⊢
      by_cases hsafe : isSafe board row col v
      · simp only [if_pos hsafe] at hfail ⊢
        by_cases hsolved : (solve (board.set row col v)).1
        · simp only [if_pos hsolved] at hfail
          cases hfail
        · have hback := hsolve (board.set row col v) (Bool.eq_false_iff.mpr hsolved)
          simp only [if_neg hsolved, hback, Board.set_set_zero v hcell] at hfail ⊢
          exact ih hfail
      · rw [if_neg hsafe] at hfail ⊢
        exact ih hfail

theorem solveWithin_restores (depth : Nat) : Restores (solveWithin depth) := by
  induction depth with
  | zero => exact fun _ _ => rfl
  | succ depth ih =>
      intro board hfail
      unfold solveWithin at hfail ⊢
      cases hcell : getUnassignedLocation board with
      | none => rfl
      | some cell =>
          rw [hcell] at hfail
          exact tryValues_restores ih (getUnassignedLocation_some hcell) values hfail

theorem tryValues_congr {solve solve' : Board → Bool × Board} (hsolve : Restores solve)
    {row col : Fin DIM} {board : Board} (hcell : board row col = 0) {values : List (Fin 10)}
    (hsame : ∀ v ∈ values, solve (board.set row col v) = solve' (board.set row col v)) :
    tryValues solve row col board values = tryValues solve' row col board values := by
  induction values with
  | nil => rfl
  | cons v values ih =>
      have hrest := ih fun other hother => hsame other (by simp [hother])
      unfold tryValues
      rw [← hsame v (by simp)]
      by_cases hsolved : (solve (board.set row col v)).1
      · simp only [if_pos hsolved, hrest]
      · have hback := hsolve (board.set row col v) (Bool.eq_false_iff.mpr hsolved)
        simp only [if_neg hsolved, hback, Board.set_set_zero v hcell, hrest]

theorem ne_zero_of_mem_values {v : Fin 10} (h : v ∈ values) : v ≠ 0 := by
  intro hzero
  rw [hzero] at h
  exact absurd h (by decide)

-- A call never goes deeper than the number of cells that are not filled.
theorem solveWithin_succ {depth : Nat} {board : Board} (h : unassigned board < depth) :
    solveWithin depth board = solveWithin (depth + 1) board := by
  induction depth generalizing board with
  | zero => omega
  | succ depth ih =>
      rw [solveWithin, solveWithin]
      cases hcell : getUnassignedLocation board with
      | none => rfl
      | some cell =>
          have hzero := getUnassignedLocation_some hcell
          refine tryValues_congr (solveWithin_restores depth) hzero fun v hv => ?_
          have hset := Board.unassigned_set hzero (ne_zero_of_mem_values hv)
          exact ih (by omega)

-- The recursion of the source, where nothing bounds the depth.
theorem solveSudokuBasic_eq (board : Board) :
    solveSudokuBasic board =
      match getUnassignedLocation board with
      | none => (true, board)
      | some (row, col) => tryValues solveSudokuBasic row col board values := by
  unfold solveSudokuBasic
  rw [solveWithin]
  cases hcell : getUnassignedLocation board with
  | none => rfl
  | some cell =>
      have hzero := getUnassignedLocation_some hcell
      have hle := unassigned_le board
      refine tryValues_congr (solveWithin_restores _) hzero fun v hv => ?_
      have hset := Board.unassigned_set hzero (ne_zero_of_mem_values hv)
      exact solveWithin_succ (by omega)

end CloudLabs.Sudoku
