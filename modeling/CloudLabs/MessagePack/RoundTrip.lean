import CloudLabs.MessagePack.Unpacker

namespace CloudLabs.MessagePack

open Parsing

-- The bytes are read as the object, wherever at most so many containers can be opened yet.
def Visits (depth : Nat) (data : Bytes) (obj : Object) : Prop :=
  ∀ stack : List StackElem, stack.length + depth ≤ DEPTH_LIMIT → ∀ rest,
    unpacker.run (.header stack) (data ++ rest) = unpacker.resume (consume obj stack) rest

-- Behind the head of a container: an empty one is an object at once.
def opened (type : ContainerType) (size : Nat) (stack : List StackElem) : Advance Context Object :=
  if size = 0 then consume (type.close []) stack else .more (.header (⟨type, size, []⟩ :: stack))

section Cases

variable {cs next : State} {n : Bytes} {stack : List StackElem} {obj : Object} {depth size : Nat}
  {type : ContainerType}

theorem run_visit (waits : 0 < cs.trail) (hlen : n.length = cs.trail) (h : execute cs n = .ok (.visit obj))
    (rest : Bytes) :
    unpacker.run ⟨cs, waits, stack⟩ (n ++ rest) = unpacker.resume (consume obj stack) rest := by
  apply unpacker.run_of_step hlen
  simp only [unpacker, Context.step, h]
  rfl

theorem run_wait (waits : 0 < cs.trail) (hnext : 0 < next.trail) (hlen : n.length = cs.trail)
    (h : execute cs n = .ok (.wait next hnext)) (rest : Bytes) :
    unpacker.run ⟨cs, waits, stack⟩ (n ++ rest) = unpacker.run ⟨next, hnext, stack⟩ rest := by
  have hstep : unpacker.step ⟨cs, waits, stack⟩ n = .ok (.more ⟨next, hnext, stack⟩) := by
    simp only [unpacker, Context.step, h]
    rfl
  exact unpacker.run_of_step hlen hstep rest

theorem run_start (waits : 0 < cs.trail) (hlen : n.length = cs.trail) (h : execute cs n = .ok (.start type size))
    (hdepth : stack.length + 1 ≤ DEPTH_LIMIT) (rest : Bytes) :
    unpacker.run ⟨cs, waits, stack⟩ (n ++ rest) = unpacker.resume (opened type size stack) rest := by
  apply unpacker.run_of_step hlen
  simp only [unpacker, Context.step, h, startAggregate, opened, bind, Except.bind, if_neg (Nat.not_lt.mpr hdepth)]
  by_cases hsize : size = 0
  · rw [if_pos hsize, if_pos hsize]
    rfl
  · rw [if_neg hsize, if_neg hsize]
    rfl

end Cases

theorem load_singleton (byte : UInt8) : load [byte] = byte.toNat := by
  unfold load
  simp

-- A byte that is an object by itself.
theorem Visits.byte {byte : UInt8} {obj : Object} (h : header byte.toNat = .ok (.visit obj)) (depth : Nat) :
    Visits depth [byte] obj := by
  intro stack hstack rest
  apply run_visit
  · rfl
  · rw [execute, load_singleton, h]

-- A byte that says what follows.
theorem run_tag {tag : UInt8} (hlow : 0xc4 ≤ tag.toNat) (hhigh : tag.toNat < 0xe0) (stack : List StackElem)
    (rest : Bytes) : unpacker.run (.header stack) (tag :: rest) =
      unpacker.run ⟨nextCs tag.toNat, trail_nextCs tag.toNat, stack⟩ rest := by
  have hheader : header tag.toNat = .ok (.wait (nextCs tag.toNat) (trail_nextCs tag.toNat)) := by
    unfold header
    rw [if_neg (by omega), if_neg (by omega), if_pos hlow]
    rfl
  have hload : execute .HEADER [tag] = .ok (.wait (nextCs tag.toNat) (trail_nextCs tag.toNat)) := by
    rw [execute, load_singleton, hheader]
  have hwaits : 0 < State.HEADER.trail := Nat.zero_lt_one
  exact run_wait hwaits _ rfl hload rest

theorem Visits.tag {tag : UInt8} {data : Bytes} {obj : Object} (hlow : 0xc4 ≤ tag.toNat)
    (hhigh : tag.toNat < 0xe0) (hlen : data.length = (nextCs tag.toNat).trail)
    (h : execute (nextCs tag.toNat) data = .ok (.visit obj)) (depth : Nat) : Visits depth (tag :: data) obj := by
  intro stack hstack rest
  rw [List.cons_append, run_tag hlow hhigh]
  exact run_visit _ hlen h rest

section Numbers

variable {tag : UInt8} {width size d : Nat} {v : Int} (depth : Nat)

theorem visits_uint (hlow : 0xc4 ≤ tag.toNat) (hhigh : tag.toNat < 0xe0) (htag : nextCs tag.toNat = .UINT width)
    (hd : d < 256 ^ width) : Visits depth (tag :: store width d) (.positiveInteger (UInt64.ofNat d)) := by
  apply Visits.tag hlow hhigh
  · rw [htag, length_store]
    rfl
  · rw [htag, execute, load_store hd]
    rfl

theorem visits_int (hlow : 0xc4 ≤ tag.toNat) (hhigh : tag.toNat < 0xe0) (htag : nextCs tag.toNat = .INT width)
    (hv : -256 ^ width ≤ 2 * v) (hneg : v < 0) :
    Visits depth (tag :: storeInt width v) (.negativeInteger v) := by
  have hpow : (0 : Int) < 256 ^ width := Int.pow_pos (by omega)
  apply Visits.tag hlow hhigh
  · rw [htag, storeInt, length_store]
    rfl
  · rw [htag, execute, loadInt_storeInt hv (by omega), visitNegativeInteger, if_neg (by omega)]
    rfl

theorem visits_fixnum (hd : d < 2 ^ 7) : Visits depth (store 1 d) (.positiveInteger (UInt64.ofNat d)) := by
  have hbyte : d.toUInt8.toNat = d := by
    rw [Nat.toUInt8_eq, UInt8.toNat_ofNat']
    omega
  apply Visits.byte
  rw [hbyte, header, if_pos (by omega)]
  rfl

theorem visits_packImpUint (hsize : size ≤ 8) (hd : d < 256 ^ size) :
    Visits depth (packImpUint size d) (.positiveInteger (UInt64.ofNat d)) := by
  have hwidth : ∀ width, size ≤ width → d < 256 ^ width := by
    intro width hle
    exact Nat.lt_of_lt_of_le hd (Nat.pow_le_pow_right (by omega) hle)
  unfold packImpUint
  by_cases h7 : d < 2 ^ 7
  · rw [if_pos h7]
    exact visits_fixnum depth h7
  rw [if_neg h7]
  by_cases h8 : d < 2 ^ 8 ∨ size ≤ 1
  · rw [if_pos h8]
    exact visits_uint depth (by decide) (by decide) rfl (h8.elim id (hwidth 1))
  rw [if_neg h8]
  by_cases h16 : d < 2 ^ 16 ∨ size ≤ 2
  · rw [if_pos h16]
    exact visits_uint depth (by decide) (by decide) rfl (h16.elim id (hwidth 2))
  rw [if_neg h16]
  by_cases h32 : d < 2 ^ 32 ∨ size ≤ 4
  · rw [if_pos h32]
    exact visits_uint depth (by decide) (by decide) rfl (h32.elim id (hwidth 4))
  · rw [if_neg h32]
    exact visits_uint depth (by decide) (by decide) rfl (hwidth 8 hsize)

-- A small negative number is the byte that it is stored in.
theorem visits_negative_fixnum (hlow : -2 ^ 5 ≤ v) (hneg : v < 0) :
    Visits depth (storeInt 1 v) (.negativeInteger v) := by
  have hmod : (v % 256 ^ 1).toNat = (v + 256).toNat := by omega
  have hbyte : (v + 256).toNat.toUInt8.toNat = (v + 256).toNat := by
    rw [Nat.toUInt8_eq, UInt8.toNat_ofNat']
    omega
  have hstore : storeInt 1 v = [(v + 256).toNat.toUInt8] := by
    rw [storeInt, hmod]
    rfl
  rw [hstore]
  apply Visits.byte
  rw [hbyte, header, if_neg (by omega), if_pos (by omega), visitNegativeInteger]
  have hback : ((v + 256).toNat : Int) - 0x100 = v := by omega
  rw [hback, if_neg (by omega)]
  rfl

theorem visits_packImpInt_neg (hsize : size = 4 ∧ -2 ^ 31 ≤ v ∨ size = 8 ∧ -2 ^ 63 ≤ v) (hneg : v < 0) :
    Visits depth (packImpInt size v) (.negativeInteger v) := by
  unfold packImpInt
  by_cases h5 : v < -2 ^ 5
  · rw [if_pos h5]
    by_cases h15 : v < -2 ^ 15
    · rw [if_pos h15]
      by_cases h31 : v < -2 ^ 31 ∧ 4 < size
      · rw [if_pos h31]
        exact visits_int depth (by decide) (by decide) rfl (by omega) hneg
      · rw [if_neg h31]
        exact visits_int depth (by decide) (by decide) rfl (by omega) hneg
    · rw [if_neg h15]
      by_cases h7 : v < -2 ^ 7
      · rw [if_pos h7]
        exact visits_int depth (by decide) (by decide) rfl (by omega) hneg
      · rw [if_neg h7]
        exact visits_int depth (by decide) (by decide) rfl (by omega) hneg
  · rw [if_neg h5, if_pos (by omega)]
    exact visits_negative_fixnum depth (by omega) hneg

-- A number of a signed type that is not negative is packed like one of an unsigned type.
theorem packImpInt_of_nonneg (h : 0 ≤ v) : packImpInt size v = packImpUint size v.toNat := by
  unfold packImpInt
  rw [if_neg (by omega)]
  by_cases h7 : v < 2 ^ 7
  · have hmod : (v % 256 ^ 1).toNat = v.toNat := by omega
    rw [if_pos h7, packImpUint, if_pos (by omega), storeInt, hmod]
  · rw [if_neg h7]

end Numbers

-- A byte that has a state of its own.
def isTag (tag : UInt8) (cs : State) : Bool := 0xc4 ≤ tag.toNat && tag.toNat < 0xe0 && nextCs tag.toNat == cs

theorem isTag_iff {tag : UInt8} {cs : State} :
    isTag tag cs = true ↔ (0xc4 ≤ tag.toNat ∧ tag.toNat < 0xe0) ∧ nextCs tag.toNat = cs := by
  simp [isTag]

-- A size is packed as a tag and as many bytes as the state of the tag waits for.
theorem packSize_cases {tags : List (UInt8 × Nat)} {last : UInt8} {cs : Nat → State} {l : Nat} (hl : l < 2 ^ 32)
    (hlast : tags.getLast? = some (last, 4)) (htags : (tags.all fun tag => isTag tag.1 (cs tag.2)) = true) :
    ∃ tag width, packSize l tags = tag :: store width l ∧ l < 256 ^ width ∧ isTag tag (cs width) = true := by
  induction tags with
  | nil => cases hlast
  | cons first tags ih =>
      obtain ⟨tag, width⟩ := first
      obtain ⟨hfirst, hothers⟩ := Bool.and_eq_true_iff.mp htags
      cases tags with
      | nil =>
          cases hlast
          exact ⟨last, 4, rfl, by omega, hfirst⟩
      | cons second others =>
          by_cases hlt : l < 256 ^ width
          · exact ⟨tag, width, if_pos hlt, hlt, hfirst⟩
          · rw [List.getLast?_cons_cons] at hlast
            obtain ⟨found, size, hpack, hsize, htag⟩ := ih hlast hothers
            exact ⟨found, size, (if_neg hlt).trans hpack, hsize, htag⟩

section Raws

variable {cs : State} {n data : Bytes} {type : Raw} {tag : UInt8} {l width : Nat} (depth : Nat)

-- Where the size of a value is known its bytes are waited for, unless there are none.
theorem run_value (waits : 0 < cs.trail) (hlen : n.length = cs.trail)
    (h : execute cs n = .ok (value type data.length)) (stack : List StackElem) (rest : Bytes) :
    unpacker.run ⟨cs, waits, stack⟩ (n ++ (data ++ rest)) =
      unpacker.resume (consume (.raw type data) stack) rest := by
  by_cases hdata : data.length = 0
  · have hnil : data = [] := List.eq_nil_of_length_eq_zero hdata
    subst hnil
    exact run_visit waits hlen h rest
  · have hvalue : 0 < (State.VALUE type data.length).trail := Nat.pos_of_ne_zero hdata
    have hwait : execute cs n = .ok (.wait (.VALUE type data.length) hvalue) := by
      rw [h, value, dif_neg hdata]
    rw [run_wait waits hvalue hlen hwait]
    exact run_visit hvalue rfl rfl rest

theorem visits_packSize {tags : List (UInt8 × Nat)} {last : UInt8} (hl : l < 2 ^ 32)
    (hdata : data.length = if type = .EXT then l + 1 else l) (hlast : tags.getLast? = some (last, 4))
    (htags : (tags.all fun tag => isTag tag.1 (.SIZE type tag.2)) = true) :
    Visits depth (packSize l tags ++ data) (.raw type data) := by
  intro stack hstack rest
  obtain ⟨tag, width, hpack, hlt, htag⟩ := packSize_cases hl hlast htags
  obtain ⟨⟨hlow, hhigh⟩, hcs⟩ := isTag_iff.mp htag
  have hlen : (store width l).length = (nextCs tag.toNat).trail := by
    rw [hcs, length_store]
    rfl
  have hexecute : execute (nextCs tag.toNat) (store width l) = .ok (value type data.length) := by
    rw [hcs, hdata]
    cases type with
    | STR => rw [execute, load_store hlt]; rfl; decide
    | BIN => rw [execute, load_store hlt]; rfl; decide
    | EXT => rw [execute, load_store hlt]; rfl
  rw [hpack, List.cons_append, List.cons_append, run_tag hlow hhigh, List.append_assoc]
  exact run_value _ hlen hexecute stack rest

theorem visits_packStr (hdata : data.length < 2 ^ 32) :
    Visits depth (packStr data.length ++ data) (.raw .STR data) := by
  unfold packStr
  by_cases hsmall : data.length < 32
  · have hor : ∀ l < 32, (0xa0 ||| l).toUInt8.toNat = 0xa0 + l ∧ (0xa0 + l) &&& 0x1f = l := by decide
    obtain ⟨hbyte, hand⟩ := hor data.length hsmall
    intro stack hstack rest
    have hwaits : 0 < State.HEADER.trail := Nat.zero_lt_one
    rw [if_pos hsmall, List.append_assoc]
    apply run_value hwaits rfl
    rw [execute, load_singleton, hbyte, header, if_neg (by omega), if_neg (by omega), if_neg (by omega),
      if_pos (by omega), hand]
    rfl
  · rw [if_neg hsmall]
    exact visits_packSize depth hdata rfl rfl rfl

theorem visits_packBin (hdata : data.length < 2 ^ 32) :
    Visits depth (packBin data.length ++ data) (.raw .BIN data) :=
  visits_packSize depth hdata rfl rfl rfl

-- The sizes of an ext that have a tag of their own need no size behind it.
theorem visits_fixext {size : Nat} (hlow : 0xc4 ≤ tag.toNat) (hhigh : tag.toNat < 0xe0)
    (htag : nextCs tag.toNat = .FIXEXT size) (hdata : data.length = size + 1) :
    Visits depth ([tag] ++ data) (.raw .EXT data) := by
  have hlen : data.length = (nextCs tag.toNat).trail := by
    rw [htag, hdata]
    rfl
  apply Visits.tag hlow hhigh hlen
  rw [htag, execute]
  rfl

theorem visits_packExt (hpos : 0 < data.length) (hdata : data.length ≤ 2 ^ 32) :
    Visits depth (packExt (data.length - 1) ++ data) (.raw .EXT data) := by
  obtain ⟨l, hl⟩ : ∃ l, data.length = l + 1 := ⟨data.length - 1, by omega⟩
  rw [hl, Nat.add_sub_cancel]
  unfold packExt
  split
  · exact visits_fixext depth (by decide) (by decide) rfl hl
  · exact visits_fixext depth (by decide) (by decide) rfl hl
  · exact visits_fixext depth (by decide) (by decide) rfl hl
  · exact visits_fixext depth (by decide) (by decide) rfl hl
  · exact visits_fixext depth (by decide) (by decide) rfl hl
  · exact visits_packSize depth (by omega) hl rfl rfl

end Raws

section Containers

variable {stack : List StackElem} {type : ContainerType} {n depth : Nat}

theorem run_packSize {tags : List (UInt8 × Nat)} {last : UInt8} {c : Nat → State} (hn : n < 2 ^ 32)
    (hdepth : stack.length + 1 ≤ DEPTH_LIMIT) (hlast : tags.getLast? = some (last, 4))
    (htags : (tags.all fun tag => isTag tag.1 (c tag.2)) = true) (htrail : ∀ width, (c width).trail = width)
    (hcs : ∀ width data, execute (c width) data = .ok (.start type (load data))) (rest : Bytes) :
    unpacker.run (.header stack) (packSize n tags ++ rest) = unpacker.resume (opened type n stack) rest := by
  obtain ⟨tag, width, hpack, hlt, htag⟩ := packSize_cases hn hlast htags
  obtain ⟨⟨hlow, hhigh⟩, htag⟩ := isTag_iff.mp htag
  have hlen : (store width n).length = (nextCs tag.toNat).trail := by
    rw [htag, length_store, htrail]
  have hexecute : execute (nextCs tag.toNat) (store width n) = .ok (.start type n) := by
    rw [htag, hcs, load_store hlt]
  rw [hpack, List.cons_append, run_tag hlow hhigh]
  exact run_start _ hlen hexecute hdepth rest

theorem run_packArray (hn : n < 2 ^ 32) (hdepth : stack.length + 1 ≤ DEPTH_LIMIT) (rest : Bytes) :
    unpacker.run (.header stack) (packArray n ++ rest) = unpacker.resume (opened .ARRAY_ITEM n stack) rest := by
  unfold packArray
  by_cases hsmall : n < 16
  · have hor : ∀ l < 16, (0x90 ||| l).toUInt8.toNat = 0x90 + l ∧ (0x90 + l) &&& 0x0f = l := by decide
    obtain ⟨hbyte, hand⟩ := hor n hsmall
    have hwaits : 0 < State.HEADER.trail := Nat.zero_lt_one
    rw [if_pos hsmall]
    apply run_start hwaits rfl _ hdepth
    rw [execute, load_singleton, hbyte, header, if_neg (by omega), if_neg (by omega), if_neg (by omega),
      if_neg (by omega), if_pos (by omega), hand]
    rfl
  · rw [if_neg hsmall]
    exact run_packSize (c := .ARRAY) hn hdepth rfl rfl (fun width => rfl) (fun width data => rfl) rest

theorem run_packMap (hn : n < 2 ^ 32) (hdepth : stack.length + 1 ≤ DEPTH_LIMIT) (rest : Bytes) :
    unpacker.run (.header stack) (packMap n ++ rest) = unpacker.resume (opened .MAP_KEY n stack) rest := by
  unfold packMap
  by_cases hsmall : n < 16
  · have hor : ∀ l < 16, (0x80 ||| l).toUInt8.toNat = 0x80 + l ∧ (0x80 + l) &&& 0x0f = l := by decide
    obtain ⟨hbyte, hand⟩ := hor n hsmall
    have hwaits : 0 < State.HEADER.trail := Nat.zero_lt_one
    rw [if_pos hsmall]
    apply run_start hwaits rfl _ hdepth
    rw [execute, load_singleton, hbyte, header, if_neg (by omega), if_neg (by omega), if_neg (by omega),
      if_neg (by omega), if_neg (by omega), if_pos (by omega), hand]
    rfl
  · rw [if_neg hsmall]
    exact run_packSize (c := .MAP) hn hdepth rfl rfl (fun width => rfl) (fun width data => rfl) rest

-- The objects that a container still lacks.
def StackElem.lacks (e : StackElem) : Nat :=
  match e.type with
  | .ARRAY_ITEM => e.rest
  | .MAP_KEY => 2 * e.rest
  | .MAP_VALUE => 2 * e.rest - 1

theorem consume_last {e : StackElem} (h : e.lacks = 1) (obj : Object) (stack : List StackElem) :
    consume obj (e :: stack) = consume (e.type.close (e.items ++ [obj])) stack := by
  obtain ⟨type, rest, items⟩ := e
  unfold StackElem.lacks at h
  cases type with
  | ARRAY_ITEM => exact if_pos h
  | MAP_KEY =>
      simp only at h
      omega
  | MAP_VALUE =>
      have hrest : rest = 1 := by
        simp only at h
        omega
      exact if_pos hrest

theorem consume_more {e : StackElem} (h : 1 < e.lacks) (obj : Object) (stack : List StackElem) :
    ∃ next : StackElem, consume obj (e :: stack) = .more (.header (next :: stack)) ∧ next.lacks + 1 = e.lacks ∧
      next.items = e.items ++ [obj] ∧ ∀ items, next.type.close items = e.type.close items := by
  obtain ⟨type, rest, items⟩ := e
  unfold StackElem.lacks at h
  cases type with
  | ARRAY_ITEM =>
      simp only at h
      have hrest : rest ≠ 1 := by omega
      refine ⟨⟨.ARRAY_ITEM, rest - 1, items ++ [obj]⟩, if_neg hrest, ?_, rfl, fun _ => rfl⟩
      unfold StackElem.lacks
      simp only
      omega
  | MAP_KEY =>
      simp only at h
      refine ⟨⟨.MAP_VALUE, rest, items ++ [obj]⟩, rfl, ?_, rfl, fun _ => rfl⟩
      unfold StackElem.lacks
      simp only
      omega
  | MAP_VALUE =>
      simp only at h
      have hrest : rest ≠ 1 := by omega
      refine ⟨⟨.MAP_KEY, rest - 1, items ++ [obj]⟩, if_neg hrest, ?_, rfl, fun _ => rfl⟩
      unfold StackElem.lacks
      simp only
      omega

-- The items of a container come one after another, and the last one closes it.
theorem run_items {items : List Object} (hne : items ≠ [])
    (hitems : ∀ item ∈ items, Visits depth item.pack item) {e : StackElem} (he : e.lacks = items.length)
    (hdepth : stack.length + 1 + depth ≤ DEPTH_LIMIT) (rest : Bytes) :
    unpacker.run (.header (e :: stack)) (Object.packAll items ++ rest) =
      unpacker.resume (consume (e.type.close (e.items ++ items)) stack) rest := by
  induction items generalizing e with
  | nil => exact absurd rfl hne
  | cons item items ih =>
      have hitem := hitems item List.mem_cons_self (e :: stack) hdepth (Object.packAll items ++ rest)
      rw [Object.packAll, List.append_assoc, hitem]
      rw [List.length_cons] at he
      by_cases hlast : items = []
      · subst hlast
        rw [consume_last he]
        rfl
      · have hpos : 0 < items.length := List.length_pos_iff.mpr hlast
        obtain ⟨next, hconsume, hlacks, hnext, hclose⟩ := consume_more (by omega : 1 < e.lacks) item stack
        have hrest := ih hlast (fun other hother => hitems other (List.mem_cons_of_mem item hother))
          (by omega : next.lacks = items.length)
        rw [hconsume]
        rw [hnext, hclose, List.append_assoc] at hrest
        exact hrest

theorem run_container {items : List Object} (hitems : ∀ item ∈ items, Visits depth item.pack item)
    (hn : (⟨type, n, []⟩ : StackElem).lacks = items.length) (hzero : n = 0 ↔ items = [])
    (hdepth : stack.length + 1 + depth ≤ DEPTH_LIMIT) (rest : Bytes) :
    unpacker.resume (opened type n stack) (Object.packAll items ++ rest) =
      unpacker.resume (consume (type.close items) stack) rest := by
  unfold opened
  by_cases hempty : n = 0
  · rw [if_pos hempty, hzero.mp hempty]
    rfl
  · rw [if_neg hempty]
    have hne : items ≠ [] := fun hnil => hempty (hzero.mpr hnil)
    exact run_items hne hitems hn hdepth rest

end Containers

-- What the packer writes for an object the parser reads as the object, whatever it stands in.
theorem visits_pack (obj : Object) : ∀ depth, obj.fits depth = true → Visits depth obj.pack obj := by
  induction obj using Object.induct with
  | nil =>
      intro depth h
      exact Visits.byte rfl depth
  | boolean value =>
      intro depth h
      cases value with
      | true => exact Visits.byte rfl depth
      | false => exact Visits.byte rfl depth
  | positiveInteger value =>
      intro depth h
      have hvisits := visits_packImpUint depth (Nat.le_refl 8) value.toNat_lt
      rwa [UInt64.ofNat_toNat] at hvisits
  | negativeInteger value =>
      intro depth h
      simp only [Object.fits, Bool.and_eq_true, decide_eq_true_eq] at h
      exact visits_packImpInt_neg depth (Or.inr ⟨rfl, h.1⟩) h.2
  | float32 bits =>
      intro depth h
      apply Visits.tag (by decide) (by decide) (length_store 4 _)
      have hload : load (store 4 bits.toNat) = bits.toNat := load_store bits.toNat_lt
      simp [nextCs, execute, hload, pure, Except.pure]
  | float64 bits =>
      intro depth h
      apply Visits.tag (by decide) (by decide) (length_store 8 _)
      have hload : load (store 8 bits.toNat) = bits.toNat := load_store bits.toNat_lt
      simp [nextCs, execute, hload, pure, Except.pure]
  | raw type data =>
      intro depth h
      cases type with
      | STR => exact visits_packStr depth (by simpa [Object.fits] using h)
      | BIN => exact visits_packBin depth (by simpa [Object.fits] using h)
      | EXT =>
          simp only [Object.fits, Bool.and_eq_true, decide_eq_true_eq] at h
          exact visits_packExt depth h.1 h.2
  | array items ih =>
      intro depth h
      simp only [Object.fits, Bool.and_eq_true, decide_eq_true_eq, Object.fitsAll_iff] at h
      obtain ⟨⟨hpos, hlen⟩, hall⟩ := h
      intro stack hstack rest
      have hitems : ∀ item ∈ items, Visits (depth - 1) item.pack item := by
        intro item hitem
        exact ih item hitem _ (hall item hitem)
      rw [Object.pack, List.append_assoc, run_packArray hlen (by omega)]
      exact run_container hitems rfl List.length_eq_zero_iff (by omega) rest
  | map items ih =>
      intro depth h
      simp only [Object.fits, Bool.and_eq_true, decide_eq_true_eq, Object.fitsAll_iff] at h
      obtain ⟨⟨⟨hpos, heven⟩, hlen⟩, hall⟩ := h
      intro stack hstack rest
      have hitems : ∀ item ∈ items, Visits (depth - 1) item.pack item := by
        intro item hitem
        exact ih item hitem _ (hall item hitem)
      have hlacks : (⟨.MAP_KEY, items.length / 2, []⟩ : StackElem).lacks = items.length := by
        unfold StackElem.lacks
        simp only
        omega
      have hzero : items.length / 2 = 0 ↔ items = [] := by
        rw [← List.length_eq_zero_iff]
        omega
      rw [Object.pack, List.append_assoc, run_packMap hlen (by omega)]
      exact run_container hitems hlacks hzero (by omega) rest

theorem reads_pack {obj : Object} (h : obj.fits DEPTH_LIMIT = true) : unpacker.Reads obj.pack obj := by
  intro rest
  have hvisits := visits_pack obj DEPTH_LIMIT h [] (by simp) rest
  exact hvisits

-- However a stream of objects is cut, the unpacker has at each moment delivered the objects
-- whose bytes have come whole, in their order.
theorem unpacks_stream {objs : List Object} (h : ∀ obj ∈ objs, obj.fits DEPTH_LIMIT = true) {chunks : List Bytes}
    (hchunks : chunks.flatten <+: objs.flatMap Object.pack) :
    ∃ whole last, Machine.Whole Object.pack objs whole chunks.flatten ∧
      unpacker.receive unpacker.start [] chunks = (whole, .ok last) := by
  have hreads : ∀ obj ∈ objs, unpacker.Reads obj.pack (id obj) := by
    intro obj hobj
    exact reads_pack (h obj hobj)
  obtain ⟨whole, last, hwhole, hreceive⟩ := Machine.receive_words hreads hchunks
  rw [List.map_id] at hreceive
  exact ⟨whole, last, hwhole, hreceive⟩

theorem unpacks_stream_cut : ∃ whole last,
    Machine.Whole Object.pack [.array [.nil, .boolean true], .positiveInteger 300] whole [0x92, 0xc0, 0xc3, 0xcd] ∧
      unpacker.receive unpacker.start [] [[0x92], [0xc0, 0xc3, 0xcd]] = (whole, .ok last) := by
  have hfits : ∀ obj ∈ [Object.array [.nil, .boolean true], .positiveInteger 300], obj.fits DEPTH_LIMIT = true := by
    intro obj hobj
    rcases List.mem_pair.mp hobj with rfl | rfl
    · decide
    · decide
  have hchunks : [[0x92], [0xc0, 0xc3, 0xcd]].flatten <+:
      [Object.array [.nil, .boolean true], .positiveInteger 300].flatMap Object.pack := by
    decide
  exact unpacks_stream hfits hchunks

end CloudLabs.MessagePack
