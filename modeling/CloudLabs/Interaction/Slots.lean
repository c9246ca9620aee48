import Mathlib.Data.List.Perm.Basic
import Mathlib.Algebra.BigOperators.Group.List.Basic
import Mathlib.Algebra.Ring.Nat

namespace CloudLabs.Interaction.Slots

variable {α β : Type} {list : List α} {i : Nat} {old : α}

-- One entry of the list changes: the new list is the old one with `new` for `old`.
theorem perm_set (hold : list[i]? = some old) (new : α) : (old :: list.set i new).Perm (new :: list) := by
  obtain ⟨hlt, rfl⟩ := List.getElem?_eq_some_iff.mp hold
  have hnew : (list.set i new).Perm (new :: list.eraseIdx i) := List.set_perm_cons_eraseIdx hlt new
  have hold : (list[i] :: list.eraseIdx i).Perm list := List.getElem_cons_eraseIdx_perm hlt
  have hswap : (list[i] :: new :: list.eraseIdx i).Perm (new :: list[i] :: list.eraseIdx i) := List.Perm.swap _ _ _
  exact (hnew.cons _).trans (hswap.trans (hold.cons _))

theorem sum_map_set (weight : α → Nat) (hold : list[i]? = some old) (new : α) :
    ((list.set i new).map weight).sum + weight old = (list.map weight).sum + weight new := by
  have hsum := ((perm_set hold new).map weight).sum_nat
  simp only [List.map_cons, List.sum_cons] at hsum
  omega

theorem countP_set (counts : α → Bool) (hold : list[i]? = some old) (new : α) :
    (list.set i new).countP counts + (if counts old then 1 else 0) =
      list.countP counts + (if counts new then 1 else 0) := by
  have hcount := (perm_set hold new).countP_eq counts
  simpa only [List.countP_cons] using hcount

-- What the entries hold, when some of them hold something.
theorem filterMap_set (held : α → Option β) (hold : list[i]? = some old) (new : α) :
    ((held old).toList ++ (list.set i new).filterMap held).Perm ((held new).toList ++ list.filterMap held) := by
  have hperm := (perm_set hold new).filterMap held
  have hcons : ∀ entry rest, (entry :: rest).filterMap held = (held entry).toList ++ rest.filterMap held := by
    intro entry rest
    cases hentry : held entry <;> simp [hentry]
  rwa [hcons, hcons] at hperm

end CloudLabs.Interaction.Slots
