import CloudLabs.Parsing.Incoming
import Mathlib.Data.List.Forall2

namespace CloudLabs.Parsing

open Reader

variable {ε β α γ : Type}

-- Which words have which values.
def Language (β α : Type) : Type := List β → α → Prop

namespace Language

-- No word is the front of another one.
def PrefixFree (L : Language β α) : Prop :=
  ∀ word word' value value', L word value → L word' value' → word <+: word' → word = word'

-- The words side by side, each with its value, and the rest.
structure Splits (L : Language β α) (data : List β) (words : List (List β)) (values : List α)
    (rest : List β) : Prop where
  data : data = words.flatten ++ rest
  values : List.Forall₂ L words values
  rest : ∀ word value, L word value → ¬ word <+: rest

variable {L : Language β α}

-- A text has one beginning that is made of words and goes on with none.
theorem Splits.unique (hfree : L.PrefixFree) {data rest rest' : List β} {words words' : List (List β)}
    {values values' : List α} (h : L.Splits data words values rest) (h' : L.Splits data words' values' rest') :
    words = words' ∧ rest = rest' := by
  obtain ⟨hdata, hvalues, hrest⟩ := h
  obtain ⟨hdata', hvalues', hrest'⟩ := h'
  rw [hdata] at hdata'
  clear hdata
  induction hvalues generalizing words' values' with
  | nil =>
      cases hvalues' with
      | nil => exact ⟨rfl, hdata'⟩
      | @cons word value words' values' hword _ =>
          have hfront : word <+: rest := ⟨words'.flatten ++ rest', by simpa using hdata'.symm⟩
          exact absurd hfront (hrest word value hword)
  | @cons word value words values hword hvalues ih =>
      cases hvalues' with
      | nil =>
          have hfront : word <+: rest' := ⟨words.flatten ++ rest, by simpa using hdata'⟩
          exact absurd hfront (hrest' word value hword)
      | @cons word' value' words' values' hword' hvalues' =>
          rw [List.flatten_cons, List.flatten_cons, List.append_assoc, List.append_assoc] at hdata'
          have hsame : word = word' := by
            have hfront : word <+: word' ++ (words'.flatten ++ rest') := ⟨_, hdata'⟩
            have hfront' : word' <+: word' ++ (words'.flatten ++ rest') := List.prefix_append _ _
            rcases List.prefix_or_prefix_of_prefix hfront hfront' with hle | hle
            · exact hfree _ _ _ _ hword hword' hle
            · exact (hfree _ _ _ _ hword' hword hle).symm
          subst hsame
          obtain ⟨hwords, hleft⟩ := ih (List.append_cancel_left hdata') hvalues'
          exact ⟨by rw [hwords], hleft⟩

end Language

namespace Reader

theorem span_some {p : β → Bool} {list word : List β} (h : span p list = some word) :
    (∀ element ∈ word, p element) ∧ list = word ++ list.drop word.length := by
  induction list generalizing word with
  | nil => cases h
  | cons element tail ih =>
      unfold span at h
      by_cases hp : p element
      · rw [if_pos hp] at h
        obtain ⟨inner, hinner, rfl⟩ := Option.map_eq_some_iff.mp h
        obtain ⟨hall, hdrop⟩ := ih hinner
        exact ⟨List.forall_mem_cons.mpr ⟨hp, hall⟩, by simpa using hdrop⟩
      · rw [if_neg hp] at h
        cases h
        exact ⟨by simp, rfl⟩

-- The reader accepts exactly the words of the language, and gives their values.
structure Recognises (r : Reader ε β α) (L : Language β α) : Prop where
  reads : ∀ word value, L word value → Reads r word value
  spelled : ∀ data idx value last, r data idx = (.ok value, last) →
    ∃ word, L word value ∧ data.drop idx = word ++ data.drop last ∧ last = idx + word.length

namespace Recognises

variable {r : Reader ε β α} {next : α → Reader ε β γ} {L L' : Language β α} {M : α → Language β γ}

theorem congr (h : Recognises r L) (hL : ∀ word value, L word value ↔ L' word value) : Recognises r L' where
  reads word value hword := h.reads word value ((hL word value).mpr hword)
  spelled data idx value last hread := by
    obtain ⟨word, hword, hdata⟩ := h.spelled data idx value last hread
    exact ⟨word, (hL word value).mp hword, hdata⟩

theorem pure (value : α) : Recognises (pure value : Reader ε β α) fun word found => word = [] ∧ found = value where
  reads word found h := by
    obtain ⟨rfl, rfl⟩ := h
    exact Reads.pure found
  spelled data idx found last h := by
    cases h
    exact ⟨[], ⟨rfl, rfl⟩, rfl, rfl⟩

theorem fail (e : ε) : Recognises (fail e : Reader ε β α) fun _ _ => False where
  reads _ _ h := h.elim
  spelled _ _ _ _ h := by cases h

theorem bind (h : Recognises r L) (hnext : ∀ value, Recognises (next value) (M value)) :
    Recognises (r >>= next) fun word result =>
      ∃ first second value, word = first ++ second ∧ L first value ∧ M value second result where
  reads word result := by
    rintro ⟨first, second, value, rfl, hfirst, hsecond⟩
    exact (h.reads first value hfirst).bind ((hnext value).reads second result hsecond)
  spelled data idx result last hread := by
    obtain ⟨value, mid, hfirst, hsecond⟩ := of_bind_ok hread
    obtain ⟨first, hL, hdata, rfl⟩ := h.spelled data idx value mid hfirst
    obtain ⟨second, hM, hrest, rfl⟩ := (hnext value).spelled data _ result last hsecond
    refine ⟨first ++ second, ⟨first, second, value, rfl, hL, hM⟩, ?_, ?_⟩
    · rw [hdata, hrest, List.append_assoc]
    · rw [List.length_append, Nat.add_assoc]

theorem ite {s : Reader ε β α} {cond : Prop} [Decidable cond] (hr : cond → Recognises r L)
    (hs : ¬ cond → Recognises s L') :
    Recognises (if cond then r else s) fun word value => cond ∧ L word value ∨ ¬ cond ∧ L' word value := by
  by_cases hcond : cond
  · rw [if_pos hcond]
    exact (hr hcond).congr fun word value => by simp [hcond]
  · rw [if_neg hcond]
    exact (hs hcond).congr fun word value => by simp [hcond]

theorem element (wanting : List β → ε) :
    Recognises (do let element ← peek wanting; advance; return element : Reader ε β β)
      fun word element => word = [element] where
  reads word element h := by
    rw [h]
    exact Reads.next wanting element
  spelled data idx element last h := by
    by_cases hend : idx < data.length
    · have hpeek : peek wanting data idx = (.ok data[idx], idx) := by simp [peek, hend]
      rw [bind_ok hpeek] at h
      cases h
      exact ⟨[data[idx]], rfl, List.drop_eq_getElem_cons hend, rfl⟩
    · have hpeek : peek wanting data idx = (.error (wanting data), idx) := by simp [peek, hend]
      rw [bind_error hpeek] at h
      cases h

theorem times (h : Recognises r L) (n : Nat) :
    Recognises (times r n) fun word values =>
      ∃ words, word = words.flatten ∧ List.Forall₂ L words values ∧ values.length = n := by
  induction n with
  | zero =>
      refine (pure []).congr fun word values => ⟨?_, ?_⟩
      · rintro ⟨rfl, rfl⟩
        exact ⟨[], rfl, .nil, rfl⟩
      · rintro ⟨words, rfl, hwords, hlen⟩
        obtain rfl := List.length_eq_zero_iff.mp hlen
        cases hwords
        exact ⟨rfl, rfl⟩
  | succ n ih =>
      refine (h.bind fun value => ih.bind fun values => pure (value :: values)).congr fun word values => ⟨?_, ?_⟩
      · rintro ⟨first, second, value, rfl, hfirst, rest, _, others, rfl, ⟨words, rfl, hwords, hlen⟩, rfl, rfl⟩
        exact ⟨first :: words, by simp, .cons hfirst hwords, by rw [List.length_cons, hlen]⟩
      · rintro ⟨words, rfl, hwords, hlen⟩
        cases hwords with
        | nil => cases hlen
        | @cons first value words values hfirst hwords =>
            exact ⟨first, words.flatten, value, by simp, hfirst, words.flatten, [], values, by simp,
              ⟨words, rfl, hwords, Nat.succ.inj hlen⟩, rfl, rfl⟩

-- The elements with the property are read up to something that begins without it.
theorem takeWhile {p : β → Bool} {wanting : List β → ε} {next : List β → Reader ε β γ}
    {M : List β → Language β γ}
    (hnext : ∀ digits, Recognises (next digits) (M digits))
    (hhead : ∀ digits word result, M digits word result → ∃ head rest, word = head :: rest ∧ p head = false) :
    Recognises (Reader.takeWhile p wanting >>= next) fun word result =>
      ∃ digits rest, word = digits ++ rest ∧ (∀ element ∈ digits, p element) ∧ M digits rest result where
  reads word result := by
    rintro ⟨digits, rest, rfl, hdigits, hM⟩ before after
    obtain ⟨head, tail, rfl, hp⟩ := hhead digits rest result hM
    have htake : Reader.takeWhile p wanting (before ++ (digits ++ head :: tail ++ after)) before.length =
        (.ok digits, before.length + digits.length) := by
      have hspan := span_word hdigits hp (tail ++ after)
      rw [Reader.takeWhile, List.drop_left, List.append_assoc, List.cons_append, hspan]
    have hrest := (hnext digits).reads _ result hM (before ++ digits) after
    simp only [List.append_assoc, List.length_append] at hrest htake ⊢
    rw [bind_ok htake, hrest, Nat.add_assoc]
  spelled data idx result last hread := by
    obtain ⟨digits, mid, htake, hrest⟩ := of_bind_ok hread
    cases hspan : span p (data.drop idx) with
    | none =>
        rw [Reader.takeWhile, hspan] at htake
        cases htake
    | some word =>
        rw [Reader.takeWhile, hspan] at htake
        cases htake
        obtain ⟨rest, hM, hdata, rfl⟩ := (hnext digits).spelled data _ result last hrest
        obtain ⟨hall, hdrop⟩ := span_some hspan
        refine ⟨digits ++ rest, ⟨digits, rest, rfl, hall, hM⟩, ?_, ?_⟩
        · rw [List.drop_drop] at hdrop
          rw [hdrop, hdata, List.append_assoc]
        · rw [List.length_append, Nat.add_assoc]

-- A word is not the front of another one: the reader would stop behind it.
theorem prefixFree (h : Recognises r L) : L.PrefixFree := by
  rintro word _ value value' hword hword' ⟨rest, rfl⟩
  have hread := h.reads word value hword [] rest
  have hread' := h.reads _ value' hword' [] []
  rw [List.append_nil] at hread'
  have hlen := congrArg Prod.snd (hread.symm.trans hread')
  simp only [List.length_nil, Nat.zero_add, List.length_append] at hlen
  rw [List.length_eq_zero_iff.mp (by omega : rest.length = 0), List.append_nil]

theorem value_unique (h : Recognises r L) {word : List β} {value value' : α} (hword : L word value)
    (hword' : L word value') : value = value' := by
  have hread := h.reads word value hword [] []
  have hread' := h.reads word value' hword' [] []
  exact Except.ok.inj (congrArg Prod.fst (hread.symm.trans hread'))

section All

variable {more : ε → Bool} {data : List β}

theorem ne_nil (h : Recognises r L) (hprogress : Progresses more r) {word : List β} {value : α}
    (hword : L word value) : word ≠ [] := by
  rintro rfl
  have hread := h.reads [] value hword [] []
  exact absurd (hprogress.of_ok (Nat.zero_le _) hread) (Nat.lt_irrefl 0)

theorem readsTo (h : Recognises r L) (hprogress : Progresses more r) {idx last : Nat} {values : List α}
    {stop : Option ε} (hrun : ReadsTo r data idx values last stop) :
    ∃ words, L.Splits (data.drop idx) words values (data.drop last) ∧ last = idx + words.flatten.length := by
  induction hrun with
  | @finished idx hend =>
      refine ⟨[], ⟨rfl, .nil, fun word value hword hfront => ?_⟩, rfl⟩
      rw [List.drop_eq_nil_of_le hend] at hfront
      exact h.ne_nil hprogress hword (List.prefix_nil.mp hfront)
  | @stopped idx mid e hlt hread =>
      refine ⟨[], ⟨rfl, .nil, fun word value hword hfront => ?_⟩, rfl⟩
      obtain ⟨rest, hrest⟩ := hfront
      have hvalue := h.reads word value hword (data.take idx) rest
      rw [hrest, List.take_append_drop, List.length_take_of_le (by omega), hread] at hvalue
      cases hvalue
  | @value idx mid last value values stop hlt hread _ ih =>
      obtain ⟨word, hword, hdata, rfl⟩ := h.spelled data idx value mid hread
      obtain ⟨words, ⟨hrest, hvalues, hend⟩, rfl⟩ := ih
      refine ⟨word :: words, ⟨?_, .cons hword hvalues, hend⟩, ?_⟩
      · rw [hdata, List.flatten_cons, List.append_assoc, ← hrest]
      · rw [List.flatten_cons, List.length_append, Nat.add_assoc]

-- What is read of a text is the words at its beginning, and the reading stops where
-- it goes on with none.
theorem readAll_iff (h : Recognises r L) (hsteady : Steady more r) (hprogress : Progresses more r)
    {values : List α} {last : Nat} :
    (readAll r data).1 = values ∧ (readAll r data).2.1 = last ↔
      ∃ words rest, L.Splits data words values rest ∧ last = words.flatten.length := by
  obtain ⟨words, hsplit, hlast⟩ := h.readsTo hprogress (ReadsTo.readAll hsteady hprogress data)
  rw [List.drop_zero, Nat.zero_add] at *
  constructor
  · rintro ⟨rfl, rfl⟩
    exact ⟨words, _, hsplit, hlast⟩
  · rintro ⟨words', rest, hsplit', rfl⟩
    obtain ⟨rfl, -⟩ := hsplit.unique h.prefixFree hsplit'
    refine ⟨?_, hlast⟩
    have hunique : Relator.RightUnique L := fun _ _ _ => h.value_unique
    exact List.right_unique_forall₂' hunique hsplit.values hsplit'.values

end All

end Recognises

end Reader

end CloudLabs.Parsing
