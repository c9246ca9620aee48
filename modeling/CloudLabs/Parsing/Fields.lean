import Mathlib.Data.List.DropRight
import Mathlib.Data.List.Infix

namespace CloudLabs.Parsing

section Split

variable {α : Type} [DecidableEq α] (delim : α)

-- The words of a text that a delimiter ends. What follows the last delimiter is a
-- word as well, unless it is empty.
def splitFrom (word : List α) : List α → List (List α)
  | [] => if word = [] then [] else [word]
  | ch :: rest => if ch = delim then word :: splitFrom [] rest else splitFrom (word ++ [ch]) rest

def split (text : List α) : List (List α) := splitFrom delim [] text

variable {delim} {word text : List α}

theorem splitFrom_append (h : delim ∉ text) (rest : List α) :
    splitFrom delim word (text ++ rest) = splitFrom delim (word ++ text) rest := by
  induction text generalizing word with
  | nil => simp
  | cons ch text ih =>
      have hch : ch ≠ delim := fun heq => h (heq ▸ List.mem_cons_self)
      have htext : delim ∉ text := fun hmem => h (List.mem_cons_of_mem ch hmem)
      rw [List.cons_append, splitFrom, if_neg hch, ih htext, List.append_assoc]
      rfl

theorem split_of_not_mem (h : delim ∉ text) : split delim text = if text = [] then [] else [text] := by
  have hsplit : splitFrom delim [] (text ++ []) = splitFrom delim ([] ++ text) [] := splitFrom_append h []
  rw [List.append_nil, List.nil_append] at hsplit
  exact hsplit

theorem split_append (h : delim ∉ word) (rest : List α) :
    split delim (word ++ delim :: rest) = word :: split delim rest := by
  unfold split
  rw [splitFrom_append h, List.nil_append, splitFrom, if_pos rfl]

-- Every text is built by words that a delimiter ends, from one without a delimiter.
theorem word_induction (delim : α) {motive : List α → Prop} (last : ∀ text, delim ∉ text → motive text)
    (step : ∀ word rest, delim ∉ word → motive rest → motive (word ++ delim :: rest)) (text : List α) :
    motive text := by
  induction hlen : text.length using Nat.strong_induction_on generalizing text with
  | _ n ih =>
      by_cases hmem : delim ∈ text
      · obtain ⟨word, rest, rfl, hword⟩ := List.eq_append_cons_of_mem hmem
        apply step word rest hword
        apply ih rest.length _ rest rfl
        rw [← hlen, List.length_append, List.length_cons]
        omega
      · exact last text hmem

theorem split_eq_nil_iff : split delim text = [] ↔ text = [] := by
  induction text using word_induction delim with
  | last text h =>
      rw [split_of_not_mem h]
      by_cases hnil : text = []
      · simp [hnil]
      · simp [hnil]
  | step word rest h ih =>
      rw [split_append h]
      simp

theorem not_mem_of_mem_split (h : word ∈ split delim text) : delim ∉ word := by
  induction text using word_induction delim with
  | last text htext =>
      rw [split_of_not_mem htext] at h
      by_cases hnil : text = []
      · simp [hnil] at h
      · rw [if_neg hnil, List.mem_singleton] at h
        rw [h]
        exact htext
  | step first rest hfirst ih =>
      rw [split_append hfirst] at h
      rcases List.mem_cons.mp h with heq | hmem
      · rw [heq]
        exact hfirst
      · exact ih hmem

-- The delimiter at the end of the text is lost.
theorem intercalate_split (text : List α) : [delim].intercalate (split delim text) =
    if text.getLast? = some delim then text.dropLast else text := by
  induction text using word_induction delim with
  | last text h =>
      have hlast : text.getLast? ≠ some delim := fun heq => h (List.mem_of_getLast? heq)
      rw [if_neg hlast, split_of_not_mem h]
      by_cases hnil : text = []
      · simp [hnil]
      · simp [hnil]
  | step word rest h ih =>
      rw [split_append h]
      by_cases hrest : rest = []
      · subst hrest
        have hsplit : split delim ([] : List α) = [] := split_eq_nil_iff.mpr rfl
        simp [hsplit]
      · obtain ⟨first, others, hsplit⟩ := List.exists_cons_of_ne_nil (mt split_eq_nil_iff.mp hrest)
        have hlast : (word ++ delim :: rest).getLast? = rest.getLast? := by
          rw [List.getLast?_append, List.getLast?_cons, List.getLast?_eq_some_getLast hrest]
          simp
        have hdrop : (word ++ delim :: rest).dropLast = word ++ delim :: rest.dropLast := by
          rw [List.dropLast_append_of_ne_nil (by simp), List.dropLast_cons_of_ne_nil hrest]
        rw [hsplit] at ih ⊢
        rw [hlast, hdrop, List.intercalate_cons_cons, ih]
        by_cases heq : rest.getLast? = some delim
        · simp [heq]
        · simp [heq]

-- The pieces between the delimiters, without an empty one at the end.
theorem split_eq_splitOn (text : List α) : split delim text =
    if (text.splitOn delim).getLast? = some [] then (text.splitOn delim).dropLast else text.splitOn delim := by
  induction text using word_induction delim with
  | last text h =>
      rw [split_of_not_mem h, List.splitOn_eq_singleton h]
      by_cases hnil : text = []
      · simp [hnil]
      · simp [hnil]
  | step word rest h ih =>
      have hne : rest.splitOn delim ≠ [] := List.splitOn_ne_nil delim rest
      have hlast : (word :: rest.splitOn delim).getLast? = (rest.splitOn delim).getLast? := by
        rw [List.getLast?_cons, List.getLast?_eq_some_getLast hne]
        simp
      rw [split_append h, List.splitOn_append_cons_self_of_not_mem h, hlast, List.dropLast_cons_of_ne_nil hne, ih]
      by_cases hempty : (rest.splitOn delim).getLast? = some []
      · rw [if_pos hempty, if_pos hempty]
      · rw [if_neg hempty, if_neg hempty]

theorem split_flatMap {words : List (List α)} (h : ∀ word ∈ words, delim ∉ word) :
    split delim (words.flatMap fun word => word ++ [delim]) = words := by
  induction words with
  | nil => rfl
  | cons word words ih =>
      have hwords : ∀ other ∈ words, delim ∉ other := fun other hmem => h other (List.mem_cons_of_mem word hmem)
      rw [List.flatMap_cons, List.append_assoc, List.singleton_append,
        split_append (h word List.mem_cons_self), ih hwords]

end Split

section Trim

variable {α : Type} (blank : α → Bool)

-- A text without what is blank at its ends.
def trim (text : List α) : List α := (text.dropWhile blank).rdropWhile blank

variable {blank} {text before after : List α} {ch : α}

theorem dropWhile_append_blank (h : ∀ ch ∈ before, blank ch) :
    (before ++ text).dropWhile blank = text.dropWhile blank := by
  rw [List.dropWhile_append, if_pos]
  rw [List.isEmpty_iff, List.dropWhile_eq_nil_iff]
  exact h

theorem rdropWhile_append_blank (h : ∀ ch ∈ after, blank ch) :
    (text ++ after).rdropWhile blank = text.rdropWhile blank := by
  unfold List.rdropWhile
  rw [List.reverse_append, dropWhile_append_blank]
  intro ch hmem
  exact h ch (List.mem_reverse.mp hmem)

theorem dropWhile_append_cons (h : blank ch = false) (before after : List α) :
    (before ++ ch :: after).dropWhile blank = before.dropWhile blank ++ ch :: after := by
  induction before with
  | nil => simp [h]
  | cons first before ih =>
      by_cases hfirst : blank first = true
      · simp [hfirst, ih]
      · simp [hfirst]

theorem rdropWhile_append_cons (h : blank ch = false) (before after : List α) :
    (before ++ ch :: after).rdropWhile blank = before ++ ch :: after.rdropWhile blank := by
  unfold List.rdropWhile
  rw [List.reverse_append, List.reverse_cons, List.append_assoc, List.singleton_append,
    dropWhile_append_cons h]
  simp

-- Only blanks stand around what stays.
theorem exists_trim (blank : α → Bool) (text : List α) : ∃ before after, (∀ ch ∈ before, blank ch) ∧
    (∀ ch ∈ after, blank ch) ∧ text = before ++ (trim blank text ++ after) := by
  refine ⟨text.takeWhile blank, (text.dropWhile blank).rtakeWhile blank, ?_, ?_, ?_⟩
  · intro ch hmem
    exact List.mem_takeWhile_imp hmem
  · intro ch hmem
    exact List.mem_rtakeWhile_imp hmem
  · unfold trim
    rw [List.rdropWhile_append_rtakeWhile, List.takeWhile_append_dropWhile]

theorem trim_append_blank (text : List α) (hbefore : ∀ ch ∈ before, blank ch)
    (hafter : ∀ ch ∈ after, blank ch) :
    trim blank (before ++ (text ++ after)) = trim blank text := by
  unfold trim
  rw [dropWhile_append_blank hbefore, List.dropWhile_append]
  by_cases hempty : (text.dropWhile blank).isEmpty
  · have hnil : text.dropWhile blank = [] := List.isEmpty_iff.mp hempty
    have hblank : after.dropWhile blank = [] := List.dropWhile_eq_nil_iff.mpr hafter
    rw [if_pos hempty, hnil, hblank]
  · rw [if_neg hempty, rdropWhile_append_blank hafter]

@[simp] theorem trim_trim : trim blank (trim blank text) = trim blank text := by
  obtain ⟨before, after, hbefore, hafter, heq⟩ := exists_trim blank text
  have htrim := trim_append_blank (trim blank text) hbefore hafter
  rw [← heq] at htrim
  exact htrim.symm

theorem trim_eq_nil_iff : trim blank text = [] ↔ ∀ ch ∈ text, blank ch := by
  unfold trim
  rw [List.rdropWhile_eq_nil_iff]
  constructor
  · intro h ch hmem
    rw [← List.takeWhile_append_dropWhile (p := blank) (l := text)] at hmem
    rcases List.mem_append.mp hmem with htake | hdrop
    · exact List.mem_takeWhile_imp htake
    · exact h ch hdrop
  · intro h ch hmem
    exact h ch ((List.dropWhile_suffix blank).subset hmem)

-- A text stays as it is if its ends are not blank.
theorem trim_eq_self (hfirst : ∀ first rest, text = first :: rest → blank first = false)
    (hlast : ∀ last, text.getLast? = some last → blank last = false) : trim blank text = text := by
  unfold trim
  have hdrop : text.dropWhile blank = text := by
    cases text with
    | nil => rfl
    | cons first rest => simp [hfirst first rest rfl]
  rw [hdrop, List.rdropWhile_eq_self_iff]
  intro hne hblank
  rw [hlast _ (List.getLast?_eq_some_getLast hne)] at hblank
  cases hblank

-- What is trimmed starts with something that is not blank.
theorem blank_head_trim {first : α} {rest : List α} (h : trim blank text = first :: rest) :
    blank first = false := by
  unfold trim at h
  have hprefix := List.rdropWhile_prefix blank (text.dropWhile blank)
  rw [h] at hprefix
  obtain ⟨others, hothers⟩ := hprefix
  have hhead := List.head?_dropWhile_not blank text
  rw [← hothers] at hhead
  exact hhead

theorem blank_getLast_trim (text : List α) {last : α} (h : (trim blank text).getLast? = some last) : blank last = false := by
  unfold trim at h
  by_cases hnil : (text.dropWhile blank).rdropWhile blank = []
  · rw [hnil] at h
    cases h
  · have hlast := List.rdropWhile_last_not blank _ hnil
    rw [List.getLast?_eq_some_getLast hnil, Option.some.injEq] at h
    rw [h] at hlast
    exact Bool.not_eq_true _ ▸ hlast

theorem trim_dropWhile : trim blank (text.dropWhile blank) = trim blank text := by
  unfold trim
  rw [List.dropWhile_idempotent]

-- Behind blanks, the end of a text is trimmed as in the text.
theorem rdropWhile_eq (h : trim blank text ≠ []) : ∃ before, (∀ ch ∈ before, blank ch) ∧
    text.rdropWhile blank = before ++ trim blank text := by
  obtain ⟨before, after, hbefore, hafter, heq⟩ := exists_trim blank text
  refine ⟨before, hbefore, ?_⟩
  obtain ⟨front, last, hfront⟩ : ∃ front last, trim blank text = front ++ [last] :=
    ⟨_, _, (List.dropLast_append_getLast h).symm⟩
  have hlast : blank last = false := by
    apply blank_getLast_trim text
    rw [hfront, List.getLast?_concat]
  have hwhole := rdropWhile_append_cons hlast (before ++ front) after
  have hnothing : after.rdropWhile blank = [] := List.rdropWhile_eq_nil_iff.mpr hafter
  rw [hnothing] at hwhole
  conv_lhs => rw [heq, hfront]
  rw [hfront]
  simpa using hwhole

-- What stands around a character that is not blank is trimmed on its own side.
theorem trim_append_cons (h : blank ch = false) (before after : List α) :
    trim blank (before ++ ch :: after) = before.dropWhile blank ++ ch :: after.rdropWhile blank := by
  unfold trim
  rw [dropWhile_append_cons h, rdropWhile_append_cons h]

end Trim

end CloudLabs.Parsing
