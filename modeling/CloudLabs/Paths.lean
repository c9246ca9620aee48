import Mathlib.Data.List.Infix

namespace CloudLabs.Paths

-- A component of a path, as far as resolving it looks at it.
inductive Component (α : Type) where
  | here
  | up
  | name (name : α)
  deriving DecidableEq

-- Where a path leads: by names from the root, or some steps up from where one stands
-- and then by names.
inductive Location (α : Type) where
  | absolute (names : List α)
  | relative (ups : Nat) (names : List α)
  deriving DecidableEq

namespace Location

variable {α : Type}

-- The root is its own parent.
def step : Location α → Component α → Location α
  | location, .here => location
  | absolute names, .up => absolute names.dropLast
  | relative ups [], .up => relative (ups + 1) []
  | relative ups names, .up => relative ups names.dropLast
  | absolute names, .name name => absolute (names ++ [name])
  | relative ups names, .name name => relative ups (names ++ [name])

def follow (location : Location α) (path : List (Component α)) : Location α := path.foldl step location

-- The same location or one below it.
def Within (base : Location α) : Location α → Prop
  | absolute names =>
      match base with
      | absolute first => first <+: names
      | relative _ _ => False
  | relative ups names =>
      match base with
      | absolute _ => False
      | relative ups' first => ups' = ups ∧ first <+: names

def names : Location α → List α
  | absolute names => names
  | relative _ names => names

def ups : Location α → Nat
  | absolute _ => 0
  | relative ups _ => ups

-- A location has that many parents that it can step up to by a name.
def Reaches (location : Location α) (n : Nat) : Prop :=
  match location with
  | absolute _ => True
  | relative _ names => n ≤ names.length

def climb : Location α → Nat → Location α
  | absolute names, n => absolute (names.take (names.length - n))
  | relative ups names, n => relative (ups + (n - names.length)) (names.take (names.length - n))

def descend : Location α → List α → Location α
  | absolute names, rest => absolute (names ++ rest)
  | relative ups names, rest => relative ups (names ++ rest)

instance [DecidableEq α] (base location : Location α) : Decidable (Within base location) :=
  match base, location with
  | absolute first, absolute names => inferInstanceAs (Decidable (first <+: names))
  | absolute _, relative _ _ => inferInstanceAs (Decidable False)
  | relative _ _, absolute _ => inferInstanceAs (Decidable False)
  | relative ups first, relative ups' names => inferInstanceAs (Decidable (ups = ups' ∧ first <+: names))

end Location

-- What is left of a path on its own: the steps up that no name before them undoes,
-- and the names behind them.
def unmatched {α : Type} (path : List (Component α)) : Nat := ((Location.relative 0 []).follow path).ups

def rest {α : Type} (path : List (Component α)) : List α := ((Location.relative 0 []).follow path).names

namespace Location

variable {α : Type} {location base : Location α}

theorem follow_append (path path' : List (Component α)) :
    location.follow (path ++ path') = (location.follow path).follow path' :=
  List.foldl_append

theorem follow_snoc (path : List (Component α)) (component : Component α) :
    location.follow (path ++ [component]) = (location.follow path).step component :=
  List.foldl_append

@[simp] theorem descend_nil : location.descend [] = location := by
  cases location with
  | absolute names => simp [descend]
  | relative ups names => simp [descend]

@[simp] theorem climb_zero : location.climb 0 = location := by
  cases location with
  | absolute names => simp [climb]
  | relative ups names => simp [climb]

theorem step_name (rest : List α) (name : α) :
    (location.descend rest).step (.name name) = location.descend (rest ++ [name]) := by
  cases location with
  | absolute names => simp [descend, step]
  | relative ups names => simp [descend, step]

theorem step_up_descend (location : Location α) {rest : List α} (h : rest ≠ []) :
    (location.descend rest).step .up = location.descend rest.dropLast := by
  cases location with
  | absolute names => simp [descend, step, List.dropLast_append_of_ne_nil h]
  | relative ups names =>
      obtain ⟨first, others, hnames⟩ := List.exists_cons_of_ne_nil (List.append_ne_nil_of_right_ne_nil names h)
      rw [descend, hnames, step, ← hnames, List.dropLast_append_of_ne_nil h]
      · rfl
      · intro hnil
        cases hnil

theorem step_up_climb (n : Nat) : (location.climb n).step .up = location.climb (n + 1) := by
  cases location with
  | absolute names =>
      have htake : (names.take (names.length - n)).dropLast = names.take (names.length - (n + 1)) := by
        rw [List.dropLast_eq_take, List.take_take, List.length_take]
        congr 1
        omega
      rw [climb, step, htake]
      rfl
  | relative ups names =>
      by_cases hn : n < names.length
      · have hne : names.take (names.length - n) ≠ [] := by
          intro hnil
          have hlen := congrArg List.length hnil
          rw [List.length_take, List.length_nil] at hlen
          omega
        have htake : (names.take (names.length - n)).dropLast = names.take (names.length - (n + 1)) := by
          rw [List.dropLast_eq_take, List.take_take, List.length_take]
          congr 1
          omega
        have hups : n - names.length = n + 1 - names.length := by omega
        rw [climb, step, htake, hups]
        · rfl
        · exact hne
      · have htake : names.length - n = 0 := by omega
        have htake' : names.length - (n + 1) = 0 := by omega
        have hups : ups + (n - names.length) + 1 = ups + (n + 1 - names.length) := by omega
        simp [climb, htake, htake', step, hups]

theorem follow_relative (path : List (Component α)) :
    (relative 0 []).follow path = relative (unmatched path) (rest path) := by
  unfold unmatched Paths.rest
  have hrelative : ∀ (location : Location α) (component : Component α),
      location = relative location.ups location.names →
        location.step component = relative (location.step component).ups (location.step component).names := by
    intro location component heq
    rw [heq]
    cases component with
    | here => rfl
    | name name => rfl
    | up =>
        cases location.names with
        | nil => rfl
        | cons first names => rfl
  induction path using List.reverseRecOn with
  | nil => rfl
  | append_singleton path component ih =>
      rw [follow_snoc]
      exact hrelative _ component ih

-- A path leads up as far as its own names do not take it back, and down from there.
theorem follow_eq (location : Location α) (path : List (Component α)) :
    location.follow path = (location.climb (unmatched path)).descend (rest path) := by
  induction path using List.reverseRecOn with
  | nil => simp [unmatched, Paths.rest, follow, ups, names]
  | append_singleton path component ih =>
      have hown := follow_relative (path ++ [component])
      rw [follow_snoc, follow_relative path] at hown
      rw [follow_snoc, ih]
      cases component with
      | here =>
          obtain ⟨hups, hrest⟩ := Location.relative.inj hown
          rw [← hups, ← hrest]
          rfl
      | name name =>
          obtain ⟨hups, hrest⟩ := Location.relative.inj hown
          rw [← hups, ← hrest]
          exact step_name _ name
      | up =>
          by_cases hnil : rest path = []
          · rw [hnil] at hown
            obtain ⟨hups, hrest⟩ := Location.relative.inj hown
            rw [← hups, ← hrest, hnil, descend_nil, descend_nil]
            exact step_up_climb _
          · have hdrop : (relative (unmatched path) (rest path)).step .up =
                relative (unmatched path) (rest path).dropLast := by
              have hdescend := (relative (unmatched path) []).step_up_descend hnil
              simpa only [descend, List.nil_append] using hdescend
            obtain ⟨hups, hrest⟩ := Location.relative.inj (hdrop.symm.trans hown)
            rw [← hups, ← hrest]
            exact step_up_descend _ hnil

-- One comes back into a location from above through the names that one has left.
theorem within_follow_iff (location : Location α) (path : List (Component α)) :
    location.Within (location.follow path) ↔
      location.Reaches (unmatched path) ∧
        location.names.drop (location.names.length - unmatched path) <+: rest path := by
  have hprefix : ∀ (names : List α) (n : Nat) (rest : List α),
      names <+: names.take n ++ rest ↔ names.drop n <+: rest := by
    intro names n rest
    have hiff : names.take n ++ names.drop n <+: names.take n ++ rest ↔ names.drop n <+: rest :=
      List.prefix_append_right_inj _
    rw [List.take_append_drop] at hiff
    exact hiff
  rw [follow_eq]
  cases location with
  | absolute names => simp [climb, descend, Within, Reaches, Location.names, hprefix]
  | relative ups names =>
      have hups : ups = ups + (unmatched path - names.length) ↔ unmatched path ≤ names.length := by omega
      simp only [climb, descend, Within, Reaches, Location.names, hprefix, hups]

end Location

section Text

variable {β : Type} [DecidableEq β] (slash dot : β)

-- What a word between two slashes is.
def component (word : List β) : Component (List β) :=
  if word = [] ∨ word = [dot] then .here else if word = [dot, dot] then .up else .name word

def components (path : List β) : List (Component (List β)) := (path.splitOn slash).map (component dot)

-- Where a written path starts.
def origin (path : List β) : Location (List β) :=
  if path.head? = some slash then .absolute [] else .relative 0 []

def resolve (path : List β) : Location (List β) := (origin slash path).follow (components slash dot path)

theorem components_append (path path' : List β) :
    components slash dot (path ++ slash :: path') =
      components slash dot path ++ components slash dot path' := by
  unfold components
  rw [List.splitOn_append_cons_self, List.map_append]

-- What is written behind a path is followed from where that leads.
theorem resolve_append {path : List β} (h : path ≠ []) (path' : List β) :
    resolve slash dot (path ++ slash :: path') =
      (resolve slash dot path).follow (components slash dot path') := by
  have horigin : origin slash (path ++ slash :: path') = origin slash path := by
    obtain ⟨first, others, rfl⟩ := List.exists_cons_of_ne_nil h
    rfl
  unfold resolve
  rw [components_append, Location.follow_append, horigin]

end Text

end CloudLabs.Paths
