import CloudLabs.MessagePack.RoundTrip

namespace CloudLabs.MessagePack

open Parsing

-- What a state can wait for: a size has at most four bytes, a number at most eight, and a
-- value as many as an object can hold.
def State.Sound : State → Prop
  | SIZE _ width | ARRAY width | MAP width => width ≤ 4
  | INT width => width ≤ 8
  | FIXEXT size => size ≤ 16
  | VALUE type trail => ∀ data : Bytes, data.length = trail → (Object.raw type data).fits 0 = true
  | HEADER | FLOAT | DOUBLE | UINT _ => True

-- A container part way through: its items fit, and it will not be too large.
structure StackElem.Sound (e : StackElem) (depth : Nat) : Prop where
  items : ∀ item ∈ e.items, item.fits depth = true
  rest_pos : 0 < e.rest
  size : match e.type with
    | .ARRAY_ITEM => e.items.length + e.rest < 2 ^ 32
    | .MAP_KEY => e.items.length % 2 = 0 ∧ e.items.length / 2 + e.rest < 2 ^ 32
    | .MAP_VALUE => e.items.length % 2 = 1 ∧ e.items.length / 2 + e.rest < 2 ^ 32

-- The containers that are open, the innermost first.
def StackSound : List StackElem → Prop
  | [] => True
  | e :: stack => stack.length < DEPTH_LIMIT ∧ e.Sound (DEPTH_LIMIT - stack.length - 1) ∧ StackSound stack

def Context.Sound (context : Context) : Prop := context.cs.Sound ∧ StackSound context.stack

def Event.Sound : Event → Prop
  | visit obj => obj.fits 0 = true
  | start type size => type ≠ .MAP_VALUE ∧ size < 2 ^ 32
  | wait cs _ => cs.Sound

theorem load_lt (data : Bytes) : load data < 256 ^ data.length := by
  induction data using List.reverseRecOn with
  | nil => decide
  | append_singleton data byte ih =>
      have hbyte := byte.toNat_lt
      rw [load_append, List.length_append, List.length_singleton, Nat.pow_succ]
      omega

section Values

variable {n : Bytes} {width : Nat} {type : Raw} {event : Event}

theorem load_lt_of_le (hlen : n.length = width) (hwidth : width ≤ 4) : load n < 2 ^ 32 := by
  have hload := load_lt n
  have hpow : 256 ^ n.length ≤ 256 ^ 4 := Nat.pow_le_pow_right (by omega) (by omega)
  exact Nat.lt_of_lt_of_le hload hpow

theorem fits_visitNegativeInteger {v : Int} (h : -2 ^ 63 ≤ v) : (visitNegativeInteger v).fits 0 = true := by
  unfold visitNegativeInteger
  by_cases hv : 0 ≤ v
  · rw [if_pos hv]
    rfl
  · rw [if_neg hv]
    simp only [Object.fits, Bool.and_eq_true, decide_eq_true_eq]
    omega

theorem le_loadInt (hlen : n.length ≤ 8) : -2 ^ 63 ≤ loadInt n := by
  have hpow : 256 ^ n.length ≤ 256 ^ 8 := Nat.pow_le_pow_right (by omega) hlen
  have hcast : ((256 ^ n.length : Nat) : Int) = 256 ^ n.length := Int.natCast_pow 256 n.length
  unfold loadInt
  split
  · omega
  · omega

theorem fits_ext {data : Bytes} (hpos : 0 < data.length) (hlen : data.length ≤ 2 ^ 32) (depth : Nat) :
    (Object.raw .EXT data).fits depth = true := by
  simp only [Object.fits, Bool.and_eq_true, decide_eq_true_eq]
  exact ⟨hpos, hlen⟩

theorem fits_raw {data : Bytes} (htype : type ≠ .EXT) (hlen : data.length < 2 ^ 32) (depth : Nat) :
    (Object.raw type data).fits depth = true := by
  cases type with
  | STR => exact decide_eq_true hlen
  | BIN => exact decide_eq_true hlen
  | EXT => exact absurd rfl htype

theorem sound_value {trail : Nat} (h : ∀ data : Bytes, data.length = trail → (Object.raw type data).fits 0 = true) :
    (value type trail).Sound := by
  unfold value
  by_cases htrail : trail = 0
  · rw [dif_pos htrail]
    exact h [] htrail.symm
  · rw [dif_neg htrail]
    exact h

theorem sound_nextCs (selector : Nat) : (nextCs selector).Sound := by
  unfold nextCs
  split <;> simp [State.Sound]

theorem sound_header {selector : Nat} (hselector : selector < 256) (h : header selector = .ok event) : event.Sound := by
  have hshort : selector &&& 0x1f < 2 ^ 32 := Nat.lt_of_le_of_lt Nat.and_le_right (by decide)
  have hsize : selector &&& 0x0f < 2 ^ 32 := Nat.lt_of_le_of_lt Nat.and_le_right (by decide)
  unfold header at h
  split at h
  · cases h
    rfl
  split at h
  · cases h
    apply fits_visitNegativeInteger
    omega
  split at h
  · cases h
    exact sound_nextCs selector
  split at h
  · cases h
    exact sound_value fun data hdata => fits_raw (by decide) (hdata ▸ hshort) 0
  split at h
  · cases h
    exact ⟨by decide, hsize⟩
  split at h
  · cases h
    exact ⟨by decide, hsize⟩
  split at h
  · cases h
    rfl
  split at h
  · cases h
    rfl
  split at h
  · cases h
    rfl
  · cases h

theorem sound_execute {cs : State} (hcs : cs.Sound) (hwaits : 0 < cs.trail) (hlen : n.length = cs.trail)
    (h : execute cs n = .ok event) : event.Sound := by
  cases cs with
  | HEADER =>
      have hload := load_lt n
      rw [hlen] at hload
      exact sound_header hload h
  | SIZE type width =>
      have hload : load n < 2 ^ 32 := load_lt_of_le hlen hcs
      cases type with
      | STR =>
          cases h
          exact sound_value fun data hdata => fits_raw (by decide) (hdata ▸ hload) 0
      | BIN =>
          cases h
          exact sound_value fun data hdata => fits_raw (by decide) (hdata ▸ hload) 0
      | EXT =>
          cases h
          exact sound_value fun data hdata => fits_ext (by omega) (by omega) 0
  | FLOAT =>
      cases h
      rfl
  | DOUBLE =>
      cases h
      rfl
  | UINT width =>
      cases h
      rfl
  | INT width =>
      cases h
      exact fits_visitNegativeInteger (le_loadInt (hlen.trans_le hcs))
  | FIXEXT size =>
      have hsize : size ≤ 16 := hcs
      have hlen : n.length = size + 1 := hlen
      cases h
      exact fits_ext (by omega) (by omega) 0
  | ARRAY width =>
      cases h
      exact ⟨by decide, load_lt_of_le hlen hcs⟩
  | MAP width =>
      cases h
      exact ⟨by decide, load_lt_of_le hlen hcs⟩
  | VALUE type trail =>
      cases h
      exact hcs n hlen

end Values

-- What is made of a step: an object that fits, or a context that is sound.
def AdvanceSound : Advance Context Object → Prop
  | .done obj => obj.fits DEPTH_LIMIT = true
  | .more next => next.Sound

section Containers

variable {stack : List StackElem} {obj : Object} {e : StackElem} {depth : Nat}

theorem fits_array {items : List Object} (hitems : ∀ item ∈ items, item.fits (depth - 1) = true) (hdepth : 0 < depth)
    (hlen : items.length < 2 ^ 32) : (Object.array items).fits depth = true := by
  simp only [Object.fits, Bool.and_eq_true, decide_eq_true_eq, Object.fitsAll_iff]
  exact ⟨⟨hdepth, hlen⟩, hitems⟩

theorem fits_map {items : List Object} (hitems : ∀ item ∈ items, item.fits (depth - 1) = true) (hdepth : 0 < depth)
    (heven : items.length % 2 = 0) (hlen : items.length / 2 < 2 ^ 32) : (Object.map items).fits depth = true := by
  simp only [Object.fits, Bool.and_eq_true, decide_eq_true_eq, Object.fitsAll_iff]
  exact ⟨⟨⟨hdepth, heven⟩, hlen⟩, hitems⟩

-- The object is an item of the innermost container, which may be an item of the next one.
theorem sound_consume (hstack : StackSound stack) (hobj : obj.fits (DEPTH_LIMIT - stack.length) = true) :
    AdvanceSound (consume obj stack) := by
  induction stack generalizing obj with
  | nil => exact hobj
  | cons e stack ih =>
      obtain ⟨hdepth, ⟨hitems, hrest, hsize⟩, houter⟩ := hstack
      have hpos : 0 < DEPTH_LIMIT - stack.length := Nat.sub_pos_of_lt hdepth
      have hall : ∀ item ∈ e.items ++ [obj], item.fits (DEPTH_LIMIT - stack.length - 1) = true := by
        intro item hitem
        rcases List.mem_append.mp hitem with hitem | hitem
        · exact hitems item hitem
        · rw [List.mem_singleton.mp hitem]
          exact hobj
      have hlen : (e.items ++ [obj]).length = e.items.length + 1 := List.length_append
      unfold consume
      cases htype : e.type with
      | ARRAY_ITEM =>
          simp only [htype] at hsize ⊢
          by_cases hone : e.rest = 1
          · rw [if_pos hone]
            exact ih houter (fits_array hall hpos (by omega))
          · rw [if_neg hone]
            have hleft : 0 < e.rest - 1 := by omega
            have hitemsSize : (e.items ++ [obj]).length + (e.rest - 1) < 2 ^ 32 := by omega
            exact ⟨trivial, hdepth, ⟨hall, hleft, hitemsSize⟩, houter⟩
      | MAP_KEY =>
          simp only [htype] at hsize ⊢
          have hodd : (e.items ++ [obj]).length % 2 = 1 := by omega
          have hitemsSize : (e.items ++ [obj]).length / 2 + e.rest < 2 ^ 32 := by omega
          exact ⟨trivial, hdepth, ⟨hall, hrest, hodd, hitemsSize⟩, houter⟩
      | MAP_VALUE =>
          simp only [htype] at hsize ⊢
          by_cases hone : e.rest = 1
          · rw [if_pos hone]
            exact ih houter (fits_map hall hpos (by omega) (by omega))
          · rw [if_neg hone]
            have hleft : 0 < e.rest - 1 := by omega
            have heven : (e.items ++ [obj]).length % 2 = 0 := by omega
            have hitemsSize : (e.items ++ [obj]).length / 2 + (e.rest - 1) < 2 ^ 32 := by omega
            exact ⟨trivial, hdepth, ⟨hall, hleft, heven, hitemsSize⟩, houter⟩

theorem sound_startAggregate {type : ContainerType} {size : Nat} {advance : Advance Context Object}
    (hstack : StackSound stack) (htype : type ≠ .MAP_VALUE) (hsize : size < 2 ^ 32)
    (h : startAggregate type size stack = .ok advance) : AdvanceSound advance := by
  unfold startAggregate at h
  split at h
  · cases h
  · have hdepth : stack.length < DEPTH_LIMIT := by omega
    have hpos : 0 < DEPTH_LIMIT - stack.length := Nat.sub_pos_of_lt hdepth
    have hnone : ∀ item ∈ ([] : List Object), item.fits (DEPTH_LIMIT - stack.length - 1) = true := by simp
    by_cases hzero : size = 0
    · rw [if_pos hzero] at h
      cases h
      apply sound_consume hstack
      cases type with
      | ARRAY_ITEM => exact fits_array hnone hpos (by decide)
      | MAP_KEY => exact fits_map hnone hpos rfl (by decide)
      | MAP_VALUE => exact absurd rfl htype
    · rw [if_neg hzero] at h
      cases h
      refine ⟨trivial, hdepth, ⟨hnone, Nat.pos_of_ne_zero hzero, ?_⟩, hstack⟩
      cases type with
      | ARRAY_ITEM => simpa using hsize
      | MAP_KEY => simpa using hsize
      | MAP_VALUE => exact absurd rfl htype

end Containers

theorem sound_step {context : Context} {n : Bytes} {advance : Advance Context Object} (hcontext : context.Sound)
    (hlen : n.length = context.cs.trail) (h : context.step n = .ok advance) :
    AdvanceSound advance := by
  obtain ⟨hcs, hstack⟩ := hcontext
  unfold Context.step at h
  cases hexecute : execute context.cs n with
  | error e =>
      rw [hexecute] at h
      cases h
  | ok event =>
      rw [hexecute] at h
      have hevent := sound_execute hcs context.waits hlen hexecute
      cases event with
      | visit obj =>
          cases h
          exact sound_consume hstack (obj.fits_mono (Nat.zero_le _) hevent)
      | start type size => exact sound_startAggregate hstack hevent.1 hevent.2 h
      | wait cs waits =>
          cases h
          exact ⟨hevent, hstack⟩

theorem unpacker_keeps : unpacker.Keeps Context.Sound fun obj => obj.fits DEPTH_LIMIT = true := by
  constructor
  · exact ⟨trivial, trivial⟩
  · intro context n next hcontext hlen hstep
    exact sound_step hcontext hlen hstep
  · intro context n obj hcontext hlen hstep
    exact sound_step hcontext hlen hstep

-- Whatever the bytes are, the objects that are read from them can be packed, and are read from
-- what is packed.
theorem unpacks_again (chunks : List Bytes) :
    unpacker.receive unpacker.start [] [(unpacker.receive unpacker.start [] chunks).1.flatMap Object.pack] =
      ((unpacker.receive unpacker.start [] chunks).1, .ok (unpacker.start, [])) := by
  have hreads : ∀ obj ∈ (unpacker.receive unpacker.start [] chunks).1, unpacker.Reads obj.pack (id obj) := by
    intro obj hobj
    exact reads_pack (unpacker_keeps.receive chunks obj hobj)
  have hdrain := Machine.drain_words hreads []
  rw [List.append_nil, Machine.drain_of_waiting (unpacker.run_nil unpacker.start), List.append_nil, List.map_id] at hdrain
  rw [Machine.receive_start, List.flatten_singleton]
  exact hdrain

end CloudLabs.MessagePack
