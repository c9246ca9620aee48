import CloudLabs.HttpServer.Server
import CloudLabs.Paths

namespace CloudLabs.HttpServer

open Paths

-- '/' and '.'.
def components (path : Bytes) : List (Component Bytes) := Paths.components 47 46 path

def resolve (path : Bytes) : Location Bytes := Paths.resolve 47 46 path

-- The path leads to the directory or below it.
def Inside (base path : Bytes) : Prop := (resolve base).Within (resolve path)

instance (base path : Bytes) : Decidable (Inside base path) :=
  inferInstanceAs (Decidable (Location.Within _ _))

def StaysInside (contentBase uri : Bytes) : Prop :=
  ∃ f, parseUri contentBase uri = .ok f ∧ (f = [] ∨ Inside contentBase f)

def OpensInside (contentBase uri : Bytes) : Prop :=
  ∃ f, parseUri contentBase uri = .ok f ∧ ∀ name, opened f = some name → Inside (cString contentBase) name

-- The URIs that parse_uri answers with the empty string.
def Refused (uri : Bytes) : Prop := normalizeUri uri ≠ [] ∧ (normalizeUri uri).head? ≠ some 47

-- What stands behind the content base.
def uriPath (uri : Bytes) : Bytes :=
  if (normalizeUri uri).getLast? = some 47 then normalizeUri uri ++ bytes "index.html" else normalizeUri uri

-- The path leaves no more of the base than its last names come back to.
def ComesBack (base path : Bytes) : Prop :=
  (resolve base).Reaches (unmatched (components path)) ∧
    (resolve base).names.drop ((resolve base).names.length - unmatched (components path)) <+:
      rest (components path)

section Behind

variable {base path : Bytes}

theorem components_cons_slash (path : Bytes) : components (47 :: path) = .here :: components path :=
  components_append 47 46 [] path

theorem resolve_append_slash (hbase : base ≠ []) (path : Bytes) :
    resolve (base ++ 47 :: path) = (resolve base).follow (components (47 :: path)) := by
  rw [components_cons_slash]
  exact resolve_append 47 46 hbase path

-- A path is inside if it is the base, or has a slash between the base and the rest.
theorem inside_append_iff (hbase : base ≠ []) (hpath : path = [] ∨ path.head? = some 47) :
    Inside base (base ++ path) ↔ ComesBack base path := by
  have hresolve : resolve (base ++ path) = (resolve base).follow (components path) := by
    rcases hpath with rfl | hhead
    · rw [List.append_nil]
      rfl
    · obtain ⟨rest, rfl⟩ := List.head?_eq_some_iff.mp hhead
      exact resolve_append_slash hbase rest
  unfold Inside ComesBack
  rw [hresolve]
  exact Location.within_follow_iff _ _

-- A base that ends with a slash is the directory in front of it.
theorem inside_append_index (hslash : base.getLast? = some 47) (name : Bytes)
    (hname : components name = [.name name]) : Inside base (base ++ name) := by
  obtain ⟨front, rfl⟩ := List.getLast?_eq_some_iff.mp hslash
  have horigin : origin 47 ((front ++ [47]) ++ name) = origin 47 (front ++ [47]) := by
    cases front with
    | nil => rfl
    | cons first front => rfl
  have hbase : components (front ++ [47]) = components front ++ [.here] := components_append 47 46 front []
  have hwhole : components ((front ++ [47]) ++ name) = components front ++ [.name name] := by
    rw [List.append_assoc, ← hname]
    exact components_append 47 46 front name
  have hresolve : resolve ((front ++ [47]) ++ name) = (resolve (front ++ [47])).step (.name name) := by
    unfold resolve Paths.resolve
    rw [horigin]
    change Location.follow _ (components _) = (Location.follow _ (components _)).step _
    rw [hwhole, hbase, Location.follow_snoc, Location.follow_snoc]
    rfl
  unfold Inside
  rw [hresolve]
  cases resolve (front ++ [47]) with
  | absolute names => exact List.prefix_append names [name]
  | relative ups names => exact ⟨rfl, List.prefix_append names [name]⟩

end Behind

section Uri

variable {contentBase uri : Bytes}

theorem normalizeUri_of_not_refused (h : ¬ Refused uri) :
    normalizeUri uri = [] ∨ (normalizeUri uri).head? = some 47 := by
  by_cases hnil : normalizeUri uri = []
  · exact .inl hnil
  · exact .inr (by_contra fun hhead => h ⟨hnil, hhead⟩)

theorem parseUri_of_refused (h : Refused uri) (contentBase : Bytes) : parseUri contentBase uri = .ok [] :=
  if_pos h

theorem uriPath_of_nil (h : normalizeUri uri = []) : uriPath uri = [] := by simp [uriPath, h]

theorem uriPath_ne_nil (h : normalizeUri uri ≠ []) : uriPath uri ≠ [] := by
  unfold uriPath
  by_cases hslash : (normalizeUri uri).getLast? = some 47
  · simp [hslash, h]
  · simp [hslash, h]

theorem head?_uriPath (h : ¬ Refused uri) : uriPath uri = [] ∨ (uriPath uri).head? = some 47 := by
  unfold uriPath
  rcases normalizeUri_of_not_refused h with hnil | hhead
  · simp [hnil]
  · obtain ⟨rest, hrest⟩ := List.head?_eq_some_iff.mp hhead
    right
    by_cases hlast : (normalizeUri uri).getLast? = some 47
    · rw [if_pos hlast, hrest]
      rfl
    · rw [if_neg hlast, hrest]
      rfl

theorem parseUri_of_ne_nil (contentBase : Bytes) (h : ¬ Refused uri) (hne : normalizeUri uri ≠ []) :
    parseUri contentBase uri = .ok (contentBase ++ uriPath uri) := by
  have hlast : (contentBase ++ normalizeUri uri).getLast? = (normalizeUri uri).getLast? := by
    rw [List.getLast?_append, List.getLast?_eq_some_getLast hne]
    rfl
  refine (if_neg h).trans ?_
  simp only [hlast, List.getLast?_eq_some_getLast hne, uriPath]
  by_cases hslash : (normalizeUri uri).getLast hne = 47
  · simp [hslash]
  · simp [hslash]

theorem parseUri_of_nil (hnil : normalizeUri uri = []) (hbase : contentBase ≠ []) :
    parseUri contentBase uri = .ok (if contentBase.getLast? = some 47 then contentBase ++ bytes "index.html"
      else contentBase) := by
  have hnot : ¬ Refused uri := fun h => h.1 hnil
  refine (if_neg hnot).trans ?_
  simp only [hnil, List.append_nil, List.getLast?_eq_some_getLast hbase, Option.some.injEq]

-- There is nothing that back() could look at.
theorem parseUri_of_empty (hnil : normalizeUri uri = []) (hbase : contentBase = []) (f : Bytes) :
    parseUri contentBase uri ≠ .ok f := by
  unfold parseUri
  simp [hnil, hbase]

theorem comesBack_nil (base : Bytes) : ComesBack base [] := by
  unfold ComesBack
  refine ⟨?_, ?_⟩
  · cases resolve base with
    | absolute names => trivial
    | relative ups names => exact Nat.zero_le _
  · rw [show unmatched (components []) = 0 from rfl, Nat.sub_zero, List.drop_length]
    exact List.nil_prefix

theorem inside_self (base : Bytes) : Inside base base := by
  unfold Inside
  cases resolve base with
  | absolute names => exact List.prefix_rfl
  | relative ups names => exact ⟨rfl, List.prefix_rfl⟩

-- Nothing that starts at the root is below the directory without a name.
theorem not_inside_nil (path : Bytes) : ¬ Inside [] (47 :: path) := by
  have habsolute : ∀ location : List (Component Bytes),
      ∃ names, (Location.absolute ([] : List Bytes)).follow location = .absolute names := by
    intro location
    rw [Location.follow_eq]
    exact ⟨_, rfl⟩
  obtain ⟨names, hnames⟩ := habsolute (components (47 :: path))
  have hresolve : resolve (47 :: path) = .absolute names := hnames
  unfold Inside
  rw [hresolve]
  exact id

theorem components_index : components (bytes "index.html") = [.name (bytes "index.html")] := by decide

theorem parseUri_staysInside_iff (contentBase uri : Bytes) : StaysInside contentBase uri ↔
    Refused uri ∨ contentBase ≠ [] ∧ ComesBack contentBase (uriPath uri) := by
  by_cases hrefused : Refused uri
  · exact iff_of_true ⟨[], parseUri_of_refused hrefused contentBase, .inl rfl⟩ (.inl hrefused)
  rw [or_iff_right hrefused]
  have hhead := head?_uriPath hrefused
  by_cases hnil : normalizeUri uri = []
  · have hpath := uriPath_of_nil hnil
    by_cases hbase : contentBase = []
    · apply iff_of_false
      · rintro ⟨f, hf, -⟩
        exact parseUri_of_empty hnil hbase f hf
      · exact fun h => h.1 hbase
    · apply iff_of_true
      · refine ⟨_, parseUri_of_nil hnil hbase, .inr ?_⟩
        by_cases hslash : contentBase.getLast? = some 47
        · rw [if_pos hslash]
          exact inside_append_index hslash _ components_index
        · rw [if_neg hslash]
          exact inside_self contentBase
      · rw [hpath]
        exact ⟨hbase, comesBack_nil contentBase⟩
  · have hparse := parseUri_of_ne_nil contentBase hrefused hnil
    have hpath := uriPath_ne_nil hnil
    obtain ⟨rest, hrest⟩ := List.head?_eq_some_iff.mp (hhead.resolve_left hpath)
    have hne : contentBase ++ uriPath uri ≠ [] := List.append_ne_nil_of_right_ne_nil _ hpath
    have hstays : StaysInside contentBase uri ↔ Inside contentBase (contentBase ++ uriPath uri) := by
      constructor
      · rintro ⟨f, hf, hinside⟩
        rw [hparse] at hf
        cases hf
        exact hinside.resolve_left hne
      · exact fun hinside => ⟨_, hparse, .inr hinside⟩
    rw [hstays]
    by_cases hbase : contentBase = []
    · subst hbase
      rw [hrest]
      exact iff_of_false (not_inside_nil rest) fun h => h.1 rfl
    · rw [inside_append_iff hbase hhead, and_iff_right hbase]

theorem cString_append_of_mem {text : Bytes} (h : 0 ∈ text) (rest : Bytes) :
    cString (text ++ rest) = cString text := by
  obtain ⟨front, back, rfl, hfront⟩ := List.eq_append_cons_of_mem h
  have hall : ∀ ch ∈ front, decide (ch ≠ 0) = true := by
    intro ch hmem
    exact decide_eq_true fun heq => hfront (heq ▸ hmem)
  unfold cString
  rw [List.append_assoc, List.takeWhile_append_of_pos hall, List.takeWhile_append_of_pos hall]
  simp

theorem cString_append_of_not_mem {text : Bytes} (h : 0 ∉ text) (rest : Bytes) :
    cString (text ++ rest) = text ++ cString rest := by
  unfold cString
  apply List.takeWhile_append_of_pos
  intro ch hmem
  exact decide_eq_true fun heq => h (heq ▸ hmem)

theorem cString_of_not_mem {text : Bytes} (h : 0 ∉ text) : cString text = text := by
  have hstring := cString_append_of_not_mem h []
  rw [List.append_nil, show cString [] = [] from rfl, List.append_nil] at hstring
  exact hstring

-- A file behind a base without a NUL is opened under the base and what is before the
-- first NUL behind it.
theorem opened_append {base : Bytes} (hbase : base ≠ []) (h : 0 ∉ base) (path : Bytes) :
    opened (base ++ path) = some (base ++ cString path) := by
  unfold opened
  rw [cString_append_of_not_mem h, if_neg (List.append_ne_nil_of_left_ne_nil hbase _)]

theorem eq_of_opened_of_mem {base : Bytes} (h : 0 ∈ base) {path name : Bytes}
    (hname : opened (base ++ path) = some name) : name = cString base := by
  unfold opened at hname
  rw [cString_append_of_mem h] at hname
  split at hname
  · cases hname
  · exact (Option.some.inj hname).symm

theorem head?_cString {path : Bytes} (h : path = [] ∨ path.head? = some 47) :
    cString path = [] ∨ (cString path).head? = some 47 := by
  rcases h with rfl | hhead
  · exact .inl rfl
  · obtain ⟨rest, rfl⟩ := List.head?_eq_some_iff.mp hhead
    exact .inr rfl

theorem opensInside_iff_of_ne_nil {f : Bytes} (hparse : parseUri contentBase uri = .ok f) :
    OpensInside contentBase uri ↔ ∀ name, opened f = some name → Inside (cString contentBase) name := by
  unfold OpensInside
  simp only [hparse, Except.ok.injEq, exists_eq_left']

theorem opensInside_iff (contentBase uri : Bytes) : OpensInside contentBase uri ↔
    Refused uri ∨ contentBase ≠ [] ∧ (0 ∈ contentBase ∨ ComesBack contentBase (cString (uriPath uri))) := by
  by_cases hrefused : Refused uri
  · apply iff_of_true
    · refine ⟨[], parseUri_of_refused hrefused contentBase, fun name hname => ?_⟩
      cases hname
    · exact .inl hrefused
  rw [or_iff_right hrefused]
  have hhead := head?_uriPath hrefused
  by_cases hnil : normalizeUri uri = []
  · have hpath := uriPath_of_nil hnil
    by_cases hbase : contentBase = []
    · apply iff_of_false
      · rintro ⟨f, hf, -⟩
        exact parseUri_of_empty hnil hbase f hf
      · exact fun h => h.1 hbase
    · apply iff_of_true
      · rw [opensInside_iff_of_ne_nil (parseUri_of_nil hnil hbase)]
        intro name hname
        by_cases hnul : 0 ∈ contentBase
        · have heq : name = cString contentBase := by
            split at hname
            · exact eq_of_opened_of_mem hnul hname
            · rw [← List.append_nil contentBase] at hname
              exact eq_of_opened_of_mem hnul hname
          rw [heq]
          exact inside_self _
        · rw [cString_of_not_mem hnul]
          by_cases hslash : contentBase.getLast? = some 47
          · rw [if_pos hslash, opened_append hbase hnul] at hname
            rw [← Option.some.inj hname]
            exact inside_append_index hslash _ components_index
          · rw [if_neg hslash, ← List.append_nil contentBase, opened_append hbase hnul,
              show cString [] = [] from rfl, List.append_nil] at hname
            rw [← Option.some.inj hname]
            exact inside_self contentBase
      · rw [hpath]
        exact ⟨hbase, .inr (comesBack_nil contentBase)⟩
  · rw [opensInside_iff_of_ne_nil (parseUri_of_ne_nil contentBase hrefused hnil)]
    by_cases hbase : contentBase = []
    · have hpath := uriPath_ne_nil hnil
      obtain ⟨rest, hrest⟩ := List.head?_eq_some_iff.mp (hhead.resolve_left hpath)
      rw [hbase, hrest]
      exact iff_of_false (fun h => not_inside_nil (cString rest) (h _ rfl)) fun h => h.1 rfl
    · rw [and_iff_right hbase]
      by_cases hnul : 0 ∈ contentBase
      · apply iff_of_true
        · intro name hname
          rw [eq_of_opened_of_mem hnul hname]
          exact inside_self _
        · exact .inl hnul
      · rw [or_iff_right hnul, opened_append hbase hnul, cString_of_not_mem hnul]
        simp only [Option.some.injEq, forall_eq']
        exact inside_append_iff hbase (head?_cString hhead)

-- Exactly then the path is inside of the content root, and the file that is opened.
theorem inside_iff (contentBase uri : Bytes) :
    (StaysInside contentBase uri ↔
      Refused uri ∨ contentBase ≠ [] ∧ ComesBack contentBase (uriPath uri)) ∧
    (OpensInside contentBase uri ↔
      Refused uri ∨ contentBase ≠ [] ∧ (0 ∈ contentBase ∨ ComesBack contentBase (cString (uriPath uri)))) :=
  ⟨parseUri_staysInside_iff contentBase uri, opensInside_iff contentBase uri⟩

-- GET /../secret
theorem climbing_not_inside : ¬ StaysInside (bytes "/srv/www") (bytes "/../secret") ∧
    ¬ OpensInside (bytes "/srv/www") (bytes "/../secret") := by
  have hparse : parseUri (bytes "/srv/www") (bytes "/../secret") = .ok (bytes "/srv/www/../secret") := by decide
  have houtside : ¬ Inside (bytes "/srv/www") (bytes "/srv/www/../secret") := by decide
  constructor
  · rintro ⟨f, hf, hinside⟩
    rw [hparse] at hf
    cases hf
    rcases hinside with hnil | hinside
    · revert hnil
      decide
    · exact houtside hinside
  · rintro ⟨f, hf, hinside⟩
    rw [hparse] at hf
    cases hf
    exact houtside (hinside (bytes "/srv/www/../secret") (by decide))

end Uri

end CloudLabs.HttpServer
