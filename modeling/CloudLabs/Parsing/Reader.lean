import Mathlib.Control.Basic

namespace CloudLabs.Parsing

-- A reader of a buffer: from a position it comes to a value or to a failure,
-- and to the position where it has stopped.
def Reader (ε β α : Type) : Type := List β → Nat → Except ε α × Nat

namespace Reader

variable {ε β α γ : Type}

instance : Monad (Reader ε β) where
  pure value := fun _ idx => (.ok value, idx)
  bind r next := fun data idx =>
    match r data idx with
    | (.ok value, idx) => next value data idx
    | (.error e, idx) => (.error e, idx)

def fail (e : ε) : Reader ε β α := fun _ idx => (.error e, idx)

-- The element at the position, which is not taken. At the end of the buffer the
-- failure says so.
def peek (wanting : List β → ε) : Reader ε β β := fun data idx =>
  match data[idx]? with
  | some element => (.ok element, idx)
  | none => (.error (wanting data), idx)

def advance : Reader ε β Unit := fun _ idx => (.ok (), idx + 1)

-- The elements before the first one without the property; `none` where the list
-- ends before there is one.
def span (p : β → Bool) : List β → Option (List β)
  | [] => none
  | element :: rest => if p element then (span p rest).map (element :: ·) else some []

-- Takes elements while they have the property, looking at the next one each time.
def takeWhile (p : β → Bool) (wanting : List β → ε) : Reader ε β (List β) := fun data idx =>
  match span p (data.drop idx) with
  | some word => (.ok word, idx + word.length)
  | none => (.error (wanting data), data.length)

-- One value after another.
def times (r : Reader ε β α) : Nat → Reader ε β (List α)
  | 0 => pure []
  | n + 1 => do
      let value ← r
      let values ← times r n
      return value :: values

-- Values up to the end of the buffer: those that were read, where the last of
-- them ends, and the failure that came before the end.
def readFrom (r : Reader ε β α) (data : List β) (fuel idx : Nat) : List α × Nat × Option ε :=
  match fuel with
  | 0 => ([], idx, none)
  | fuel + 1 =>
      if data.length ≤ idx then ([], idx, none)
      else
        match r data idx with
        | (.error e, _) => ([], idx, some e)
        | (.ok value, next) =>
            let (values, last, stop) := readFrom r data fuel next
            (value :: values, last, stop)

-- Every value takes at least one element.
def readAll (r : Reader ε β α) (data : List β) : List α × Nat × Option ε :=
  readFrom r data data.length 0

section Laws

-- A failure that may go away when there is more in the buffer.
variable (more : ε → Bool)

def Waits : Except ε α → Prop
  | .ok _ => False
  | .error e => more e

-- A reader that looks at nothing before its position, decides nothing that
-- further elements could change, and stays inside the buffer.
structure Steady (r : Reader ε β α) : Prop where
  bounds : ∀ data idx, idx ≤ data.length → idx ≤ (r data idx).2 ∧ (r data idx).2 ≤ data.length
  decided : ∀ before data rest idx, idx ≤ data.length → ¬ Waits more (r data idx).1 →
    r (before ++ (data ++ rest)) (before.length + idx) =
      ((r data idx).1, before.length + (r data idx).2)
  waits : ∀ before data idx, idx ≤ data.length → Waits more (r data idx).1 →
    Waits more (r (before ++ data) (before.length + idx)).1

-- A decision, whatever it is, takes something.
def Progresses (r : Reader ε β α) : Prop :=
  ∀ data idx, idx ≤ data.length → ¬ Waits more (r data idx).1 → idx < (r data idx).2

-- The reader comes to the value and takes exactly the word, whatever stands
-- around it.
def Reads (r : Reader ε β α) (word : List β) (value : α) : Prop :=
  ∀ before rest, r (before ++ (word ++ rest)) before.length = (.ok value, before.length + word.length)

end Laws

end Reader

end CloudLabs.Parsing
