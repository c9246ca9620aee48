import CloudLabs.HttpServer.Server

namespace CloudLabs.HttpServer

-- A line of a header block without its end. A CR in front of the LF is part of the value.
structure HeaderLine where
  name : Bytes
  value : Bytes
  named : trimWhitespace name ≠ []
  plain : 58 ∉ name
  nameLine : 10 ∉ name
  valueLine : 10 ∉ value

def HeaderLine.text (line : HeaderLine) : Bytes := line.name ++ 58 :: line.value

-- The values that the lines give a name, in their order.
def values (lines : List HeaderLine) (name : Bytes) : List Bytes :=
  (lines.filter fun line => trimWhitespace line.name = name).map fun line => trimWhitespace line.value

-- Every name is mapped to what its last line has behind the colon, and nothing else is.
def Faithful (lines : List HeaderLine) : Prop :=
  ∀ name : Bytes,
    (parseHeaders (lines.flatMap fun line => line.text ++ [10]))[name]? = (values lines name).getLast?

-- Headers as they are written: without white space at the ends and without line ends.
structure TrimmedHeaders where
  headers : Headers
  names : ∀ name value : Bytes, headers[name]? = some value →
    trimWhitespace name = name ∧ name ≠ [] ∧ 58 ∉ name ∧ 10 ∉ name
  values : ∀ name value : Bytes, headers[name]? = some value → trimWhitespace value = value ∧ 10 ∉ value

def RoundTrips (order : Order) (h : TrimmedHeaders) : Prop :=
  parseHeaders (Headers.serialize order h.headers) = h.headers

-- What parse_headers makes of a value: nothing of an empty one, and a colon at the end
-- is lost.
def assigned (value : Bytes) : Option Bytes :=
  if value = [] then none
  else some (if value.getLast? = some 58 then trimWhitespace value.dropLast else value)

-- A value that is taken as it is.
def Kept (value : Bytes) : Prop := value ≠ [] ∧ value.getLast? ≠ some 58

-- The last value is taken as it is, or it is empty and what is taken before it is.
def KeepsLast (values : List Bytes) : Prop :=
  ∀ value, values.getLast? = some value →
    Kept value ∨ value = [] ∧ (values.filter fun value => value ≠ []).getLast? = some [58]

section Value

variable {value : Bytes}

theorem assigned_of_colon (h : value.getLast? = some 58) :
    assigned value = some (trimWhitespace value.dropLast) := by
  have hnil : value ≠ [] := by
    rintro rfl
    cases h
  unfold assigned
  rw [if_neg hnil, if_pos h]

theorem assigned_of_kept (h : Kept value) : assigned value = some value := by
  unfold assigned
  rw [if_neg h.1, if_neg h.2]

theorem assigned_eq_self_iff : assigned value = some value ↔ Kept value := by
  constructor
  · intro heq
    have hnil : value ≠ [] := by
      rintro rfl
      cases heq
    refine ⟨hnil, fun hcolon => ?_⟩
    -- What is left without the colon is shorter than the value.
    rw [assigned_of_colon hcolon, Option.some.injEq] at heq
    have hlen : (trimWhitespace value.dropLast).length ≤ value.dropLast.length := by
      unfold trimWhitespace Parsing.trim
      exact Nat.le_trans (List.rdropWhile_prefix _ _).length_le (List.dropWhile_suffix _).length_le
    have hpos := List.length_pos_iff.mpr hnil
    rw [heq, List.length_dropLast] at hlen
    omega
  · exact assigned_of_kept

-- The only trimmed value that becomes empty is a colon.
theorem assigned_eq_nil_iff (htrim : trimWhitespace value = value) : assigned value = some [] ↔ value = [58] := by
  constructor
  · intro heq
    by_cases hcolon : value.getLast? = some 58
    · rw [assigned_of_colon hcolon, Option.some.injEq] at heq
      have hblank := Parsing.trim_eq_nil_iff.mp heq
      obtain ⟨front, rfl⟩ := List.getLast?_eq_some_iff.mp hcolon
      rw [List.dropLast_concat] at hblank
      cases front with
      | nil => rfl
      | cons first rest =>
          have hfirst := Parsing.blank_head_trim htrim
          rw [hblank first List.mem_cons_self] at hfirst
          cases hfirst
    · unfold assigned at heq
      rw [if_neg hcolon] at heq
      split at heq
      · cases heq
      · rename_i hnil
        exact absurd (Option.some.inj heq) hnil
  · rintro rfl
    rfl

end Value

section Line

-- What is split at the colons is glued together again, but for a colon at the end.
theorem parseHeader_append {name back hd : Bytes} (hname : 58 ∉ name)
    (htrim : trimWhitespace hd = name ++ 58 :: back) : parseHeader hd =
      if back = [] then none
      else some (trimWhitespace name, trimWhitespace (if back.getLast? = some 58 then back.dropLast else back)) := by
  unfold parseHeader
  have hsplit : split (trimWhitespace hd) 58 = name :: Parsing.split 58 back := by
    rw [htrim]
    exact Parsing.split_append hname back
  rw [hsplit, ← Parsing.intercalate_split]
  by_cases hback : back = []
  · rw [if_pos hback, Parsing.split_eq_nil_iff.mpr hback]
  · rw [if_neg hback]
    obtain ⟨first, rest, hparts⟩ := List.exists_cons_of_ne_nil (mt Parsing.split_eq_nil_iff.mp hback)
    rw [hparts]
    by_cases hrest : rest = []
    · simp [hrest]
    · simp only [if_neg hrest]
      rfl

theorem parseHeader_text (line : HeaderLine) : parseHeader line.text =
    (assigned (trimWhitespace line.value)).map fun value => (trimWhitespace line.name, value) := by
  have hcolon : isWhitespace 58 = false := by decide
  have hplain : 58 ∉ line.name.dropWhile isWhitespace := fun hmem =>
    line.plain ((List.dropWhile_suffix isWhitespace).subset hmem)
  have htext : trimWhitespace line.text =
      line.name.dropWhile isWhitespace ++ 58 :: line.value.rdropWhile isWhitespace :=
    Parsing.trim_append_cons hcolon line.name line.value
  rw [parseHeader_append hplain htext]
  have hname : trimWhitespace (line.name.dropWhile isWhitespace) = trimWhitespace line.name :=
    Parsing.trim_dropWhile
  rw [hname]
  by_cases hvalue : trimWhitespace line.value = []
  · have hback : line.value.rdropWhile isWhitespace = [] :=
      List.rdropWhile_eq_nil_iff.mpr (Parsing.trim_eq_nil_iff.mp hvalue)
    rw [if_pos hback, hvalue]
    rfl
  · obtain ⟨before, hbefore, hback⟩ := Parsing.rdropWhile_eq hvalue
    change _ = before ++ trimWhitespace line.value at hback
    have hne : before ++ trimWhitespace line.value ≠ [] := List.append_ne_nil_of_right_ne_nil _ hvalue
    have hlast : (before ++ trimWhitespace line.value).getLast? = (trimWhitespace line.value).getLast? := by
      rw [List.getLast?_append, List.getLast?_eq_some_getLast hvalue]
      rfl
    have hfront : ∀ text, trimWhitespace (before ++ text) = trimWhitespace text := by
      intro text
      have hblank := Parsing.trim_append_blank text hbefore (List.forall_mem_nil _)
      rw [List.append_nil] at hblank
      exact hblank
    have htwice : trimWhitespace (trimWhitespace line.value) = trimWhitespace line.value := Parsing.trim_trim
    rw [hback, if_neg hne, hlast]
    by_cases hends : (trimWhitespace line.value).getLast? = some 58
    · rw [if_pos hends, assigned_of_colon hends, List.dropLast_append_of_ne_nil hvalue, hfront]
      rfl
    · rw [if_neg hends, assigned_of_kept ⟨hvalue, hends⟩, hfront, htwice]
      rfl

theorem parseHeaders_lines (lines : List HeaderLine) :
    parseHeaders (lines.flatMap fun line => line.text ++ [10]) =
      (lines.map HeaderLine.text).foldl putHeader ∅ := by
  have hsplit : split (lines.flatMap fun line => line.text ++ [10]) 10 = lines.map HeaderLine.text := by
    have hwords : (lines.flatMap fun line => line.text ++ [10]) =
        (lines.map HeaderLine.text).flatMap fun word => word ++ [10] := by
      rw [List.flatMap_map]
    rw [hwords]
    apply Parsing.split_flatMap
    intro word hword
    obtain ⟨line, -, rfl⟩ := List.mem_map.mp hword
    intro hmem
    rcases List.mem_append.mp hmem with hname | hvalue
    · exact line.nameLine hname
    · rcases List.mem_cons.mp hvalue with hcolon | hvalue
      · cases hcolon
      · exact line.valueLine hvalue
  unfold parseHeaders
  rw [hsplit]

-- By induction on the lines from the end: what a name is mapped to is what its last
-- value with anything in it becomes.
theorem getElem?_parseHeaders (lines : List HeaderLine) (name : Bytes) :
    (parseHeaders (lines.flatMap fun line => line.text ++ [10]))[name]? =
      ((values lines name).filterMap assigned).getLast? := by
  rw [parseHeaders_lines]
  induction lines using List.reverseRecOn with
  | nil => rfl
  | append_singleton lines line ih =>
      rw [List.map_append, List.foldl_append, List.map_singleton, List.foldl_cons, List.foldl_nil]
      have hput : ∀ headers : Headers, (putHeader headers line.text)[name]? =
          if trimWhitespace line.name = name then (assigned (trimWhitespace line.value)).or headers[name]?
          else headers[name]? := by
        intro headers
        unfold putHeader
        rw [parseHeader_text]
        cases assigned (trimWhitespace line.value) with
        | none => simp
        | some value => simp [Std.ExtTreeMap.getElem?_insert]
      have hvalues : values (lines ++ [line]) name =
          if trimWhitespace line.name = name then values lines name ++ [trimWhitespace line.value]
          else values lines name := by
        unfold values
        by_cases hname : trimWhitespace line.name = name
        · simp [hname]
        · simp [hname]
      rw [hput, ih, hvalues]
      by_cases hname : trimWhitespace line.name = name
      · rw [if_pos hname, if_pos hname, List.filterMap_append]
        cases hassigned : assigned (trimWhitespace line.value) with
        | none => simp [hassigned]
        | some value => simp [hassigned]
      · rw [if_neg hname, if_neg hname]

end Line

section Faithful

theorem filterMap_assigned (values : List Bytes) :
    values.filterMap assigned = (values.filter fun value => value ≠ []).filterMap assigned := by
  rw [List.filterMap_filter]
  congr 1
  funext value
  by_cases hnil : value = []
  · simp [hnil, assigned]
  · simp [hnil]

-- A name whose last value is empty keeps what it had before, which is empty if it was a colon.
theorem getLast?_eq_some_nil_iff {values : List Bytes} (h : ∀ value ∈ values, trimWhitespace value = value) :
    (values.filterMap assigned).getLast? = some [] ↔
      (values.filter fun value => value ≠ []).getLast? = some [58] := by
  rw [filterMap_assigned]
  rcases List.eq_nil_or_concat' (values.filter fun value => value ≠ []) with hnone | ⟨front, last, hfront⟩
  · rw [hnone]
    simp
  · have hlast : last ∈ values.filter fun value => value ≠ [] := by
      rw [hfront]
      simp
    obtain ⟨hmem, hne⟩ := List.mem_filter.mp hlast
    have hsome : ∃ value, assigned last = some value := by
      unfold assigned
      rw [if_neg (by simpa using hne)]
      exact ⟨_, rfl⟩
    obtain ⟨value, hvalue⟩ := hsome
    have hiff := assigned_eq_nil_iff (h last hmem)
    rw [hvalue, Option.some.injEq] at hiff
    rw [hfront, List.filterMap_append]
    simp [hvalue, hiff]

theorem getLast?_filterMap_iff {values : List Bytes} (h : ∀ value ∈ values, trimWhitespace value = value) :
    (values.filterMap assigned).getLast? = values.getLast? ↔ KeepsLast values := by
  unfold KeepsLast
  rcases List.eq_nil_or_concat' values with rfl | ⟨front, last, rfl⟩
  · simp
  · have hfront : ∀ value ∈ front, trimWhitespace value = value := fun value hmem => h value (by simp [hmem])
    simp only [List.getLast?_concat, Option.some.injEq, forall_eq', List.filterMap_append, List.filter_append]
    by_cases hnil : last = []
    · subst hnil
      have hnothing : ([[]] : List Bytes).filterMap assigned = [] := rfl
      have hempty : (([[]] : List Bytes).filter fun value => value ≠ []) = [] := rfl
      have hnot : ¬ Kept [] := fun hkept => hkept.1 rfl
      rw [hnothing, hempty, List.append_nil, List.append_nil, or_iff_right hnot, and_iff_right rfl]
      exact getLast?_eq_some_nil_iff hfront
    · rw [or_iff_left (fun hand => hnil hand.1), ← assigned_eq_self_iff]
      have hsome : ∃ value, assigned last = some value := by
        unfold assigned
        rw [if_neg hnil]
        exact ⟨_, rfl⟩
      obtain ⟨value, hvalue⟩ := hsome
      simp [hvalue]

theorem faithful_iff (lines : List HeaderLine) :
    Faithful lines ↔ ∀ name, KeepsLast (values lines name) := by
  unfold Faithful
  apply forall_congr'
  intro name
  rw [getElem?_parseHeaders]
  apply getLast?_filterMap_iff
  intro value hvalue
  obtain ⟨line, -, rfl⟩ := List.mem_map.mp hvalue
  exact Parsing.trim_trim

end Faithful

section RoundTrip

variable (order : Order) (h : TrimmedHeaders)

theorem getElem?_of_mem {headers : Headers} {KV : Bytes × Bytes} (hmem : KV ∈ order.list headers) :
    headers[KV.1]? = some KV.2 :=
  Std.ExtTreeMap.mem_toList_iff_getElem?_eq_some.mp ((order.perm headers).mem_iff.mp hmem)

-- The lines in which headers are written.
theorem exists_lines : ∃ lines : List HeaderLine,
    Headers.serialize order h.headers = lines.flatMap (fun line => line.text ++ [10]) ∧
      ∀ name, values lines name =
        ((order.list h.headers).filter fun KV => KV.1 = name).map Prod.snd := by
  have hall : ∀ KVs : List (Bytes × Bytes), (∀ KV ∈ KVs, h.headers[KV.1]? = some KV.2) →
      ∃ lines : List HeaderLine,
        (KVs.flatMap fun KV => KV.1 ++ bytes ": " ++ KV.2 ++ lineEnd) =
            lines.flatMap (fun line => line.text ++ [10]) ∧
          ∀ name, values lines name = (KVs.filter fun KV => KV.1 = name).map Prod.snd := by
    intro KVs hKVs
    induction KVs with
    | nil => exact ⟨[], rfl, fun _ => rfl⟩
    | cons KV KVs ih =>
        obtain ⟨lines, htext, hvalues⟩ := ih fun other hmem => hKVs other (List.mem_cons_of_mem KV hmem)
        obtain ⟨hname, hne, hplain, hnameLine⟩ := h.names KV.1 KV.2 (hKVs KV List.mem_cons_self)
        obtain ⟨hvalue, hvalueLine⟩ := h.values KV.1 KV.2 (hKVs KV List.mem_cons_self)
        let line : HeaderLine := ⟨KV.1, 32 :: (KV.2 ++ [13]), by rw [hname]; exact hne, hplain, hnameLine, by
          simp [hvalueLine]⟩
        have hown : trimWhitespace line.value = KV.2 := by
          have hblank := Parsing.trim_append_blank KV.2
            (List.forall_mem_singleton.mpr (rfl : isWhitespace 32 = true))
            (List.forall_mem_singleton.mpr (rfl : isWhitespace 13 = true))
          exact hblank.trans hvalue
        refine ⟨line :: lines, ?_, fun name => ?_⟩
        · rw [List.flatMap_cons, List.flatMap_cons, htext]
          have hcolon : bytes ": " = [58, 32] := by decide
          have hend : lineEnd = [13, 10] := by decide
          simp [line, HeaderLine.text, hcolon, hend]
        · have hrest := hvalues name
          unfold values at hrest ⊢
          by_cases hkey : KV.1 = name
          · have hline : trimWhitespace line.name = name := hname.trans hkey
            simp [hline, hkey, hown, hrest]
          · have hline : trimWhitespace line.name ≠ name := fun heq => hkey (hname.symm.trans heq)
            simp [hline, hkey, hrest]
  exact hall _ fun KV hmem => getElem?_of_mem order hmem

theorem serialized_roundTrips_iff : RoundTrips order h ↔
    ∀ name value : Bytes, h.headers[name]? = some value → Kept value := by
  obtain ⟨lines, htext, hvalues⟩ := exists_lines order h
  have hlookup : ∀ name : Bytes, (parseHeaders (Headers.serialize order h.headers))[name]? =
      ((values lines name).filterMap assigned).getLast? := by
    intro name
    rw [htext, getElem?_parseHeaders]
  have hmem : ∀ name value, value ∈ values lines name ↔ h.headers[name]? = some value := by
    intro name value
    rw [hvalues]
    constructor
    · intro hvalue
      obtain ⟨KV, hKV, rfl⟩ := List.mem_map.mp hvalue
      obtain ⟨hlist, hname⟩ := List.mem_filter.mp hKV
      rw [← of_decide_eq_true hname]
      exact getElem?_of_mem order hlist
    · intro hget
      have hlist : (name, value) ∈ order.list h.headers :=
        (order.perm h.headers).mem_iff.mpr (Std.ExtTreeMap.mem_toList_iff_getElem?_eq_some.mpr hget)
      exact List.mem_map.mpr ⟨(name, value), List.mem_filter.mpr ⟨hlist, decide_eq_true rfl⟩, rfl⟩
  constructor
  · intro hround name value hget
    have hlast := hlookup name
    rw [hround, hget] at hlast
    obtain ⟨own, hown, hassigned⟩ := List.mem_filterMap.mp (List.mem_of_getLast? hlast.symm)
    have heq := (hmem name own).mp hown
    rw [hget, Option.some.injEq] at heq
    rw [← heq] at hassigned
    exact assigned_eq_self_iff.mp hassigned
  · intro hkept
    apply Std.ExtTreeMap.ext_getElem?
    intro name
    have hsame : (values lines name).filterMap assigned = values lines name := by
      conv_rhs => rw [← List.filterMap_some (l := values lines name)]
      apply List.filterMap_congr
      intro value hvalue
      exact assigned_of_kept (hkept name value ((hmem name value).mp hvalue))
    rw [hlookup, hsame]
    cases hget : h.headers[name]? with
    | none =>
        rw [List.getLast?_eq_none_iff, List.eq_nil_iff_forall_not_mem]
        intro value hvalue
        have heq := (hmem name value).mp hvalue
        rw [hget] at heq
        cases heq
    | some value =>
        have hne : values lines name ≠ [] := List.ne_nil_of_mem ((hmem name value).mpr hget)
        have heq := (hmem name _).mp (List.getLast_mem hne)
        rw [List.getLast?_eq_some_getLast hne, ← heq, hget]

end RoundTrip

-- Headers are parsed as they are written if no value is empty or ends with a colon.
theorem parseHeaders_iff (lines : List HeaderLine) (order : Order) (h : TrimmedHeaders) :
    (Faithful lines ↔ ∀ name, KeepsLast (values lines name)) ∧
    (RoundTrips order h ↔ ∀ name value : Bytes, h.headers[name]? = some value → Kept value) :=
  ⟨faithful_iff lines, serialized_roundTrips_iff order h⟩

-- The line "Host:", and a header whose value is "a:".
def emptyHost : HeaderLine := ⟨bytes "Host", [], by decide, by decide, by decide, by decide⟩

def colonHost : TrimmedHeaders where
  headers := (∅ : Headers).insert (bytes "Host") (bytes "a:")
  names := fun name value hget => by
    rw [Std.ExtTreeMap.getElem?_insert] at hget
    split at hget
    · rename_i heq
      rw [← Std.LawfulEqCmp.eq_of_compare heq]
      decide
    · simp at hget
  values := fun name value hget => by
    rw [Std.ExtTreeMap.getElem?_insert] at hget
    split at hget
    · rw [← Option.some.inj hget]
      decide
    · simp at hget

theorem emptyHost_not_faithful : ¬ Faithful [emptyHost] ∧ ¬ RoundTrips .sorted colonHost := by
  constructor
  · intro h
    have hname := (faithful_iff [emptyHost]).mp h (bytes "Host") [] (by decide)
    revert hname
    unfold Kept
    decide
  · intro h
    have hkept := (serialized_roundTrips_iff .sorted colonHost).mp h (bytes "Host") (bytes "a:") (by decide)
    exact hkept.2 (by decide)

end CloudLabs.HttpServer
