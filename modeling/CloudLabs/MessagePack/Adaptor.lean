import CloudLabs.MessagePack.RoundTrip

namespace CloudLabs.MessagePack

-- The adaptors of a type: what the packer writes for a value, the object that the value is made
-- into, and how it is read from an object.
structure Adaptor (α : Type) where
  pack : α → Except Error Bytes
  object : α → Except Error Object
  convert : Object → Except Error α

-- A member of a tuple or of a class, or an element of a vector.
structure Member where
  pack : Except Error Bytes
  object : Except Error Object

def Adaptor.member {α : Type} (a : Adaptor α) (v : α) : Member := ⟨a.pack v, a.object v⟩

-- checked_get_container_size
def checkedSize (size : Nat) : Except Error Nat :=
  if 0xffffffff < size then throw .containerSizeOverflow else pure size

-- std::tuple and MSGPACK_DEFINE_ARRAY: the members behind their number.
def packMembers (members : List Member) : Except Error Bytes := do
  let data ← members.mapM Member.pack
  return packArray members.length ++ data.flatten

def objectMembers (members : List Member) : Except Error Object := do
  let items ← members.mapM Member.object
  return .array items

def arrayItems : Object → Except Error (List Object)
  | .array items => pure items
  | _ => throw .typeError

-- A member that the array has no item for keeps its value.
def convertMember {α : Type} (convert : Object → Except Error α) (items : List Object) (index : Nat) (v : α) :
    Except Error α :=
  match items[index]? with
  | some item => convert item
  | none => pure v

-- convert_integer of an unsigned type.
def convertUnsigned (max : UInt64) : Object → Except Error UInt64
  | .positiveInteger u64 => if max < u64 then throw .typeError else pure u64
  | _ => throw .typeError

-- convert_integer of int8_t
def convertInt8 : Object → Except Error Int
  | .positiveInteger u64 => if 127 < u64 then throw .typeError else pure u64.toNat
  | .negativeInteger i64 => if i64 < -128 then throw .typeError else pure i64
  | _ => throw .typeError

def uint8 : Adaptor UInt8 where
  pack v := pure (packUint8 v)
  object v := pure (.positiveInteger v.toUInt64)
  convert obj := do return (← convertUnsigned 0xff obj).toUInt8

def uint32 : Adaptor UInt32 where
  pack v := pure (packUint32 v)
  object v := pure (.positiveInteger v.toUInt64)
  convert obj := do return (← convertUnsigned 0xffffffff obj).toUInt32

def bool : Adaptor Bool where
  pack v := pure [if v then 0xc3 else 0xc2]
  object v := pure (.boolean v)
  convert
    | .boolean v => pure v
    | _ => throw .typeError

-- The bytes of a string or of a vector of char are read from both types.
def convertRaw : Object → Except Error Bytes
  | .raw .STR data => pure data
  | .raw .BIN data => pure data
  | _ => throw .typeError

def string : Adaptor Bytes where
  pack v := do return packStr (← checkedSize v.length) ++ v
  object v := do
    let _ ← checkedSize v.length
    return .raw .STR v
  convert := convertRaw

def vectorChar : Adaptor Bytes where
  pack v := do return packBin (← checkedSize v.length) ++ v
  object v := do
    let _ ← checkedSize v.length
    return .raw .BIN v
  convert := convertRaw

def vector {α : Type} (a : Adaptor α) : Adaptor (List α) where
  pack v := do
    let _ ← checkedSize v.length
    packMembers (v.map a.member)
  object v := do
    let _ ← checkedSize v.length
    objectMembers (v.map a.member)
  convert obj := do (← arrayItems obj).mapM a.convert

-- pack_int, and the object of an int.
def int (d : Int) : Member := ⟨pure (packInt d), pure (visitNegativeInteger d)⟩

-- MSGPACK_DEFINE_ARRAY
def defineArray {α : Type} (members : α → List Member) (convert : List Object → Except Error α) : Adaptor α where
  pack v := packMembers (members v)
  object v := objectMembers (members v)
  convert obj := do convert (← arrayItems obj)

-- An object with so many containers inside each other stands for the value: it is what the
-- packer writes, and the value is read from it.
structure Adaptor.Lawful {α : Type} (a : Adaptor α) (depth : Nat) : Prop where
  pack_eq : ∀ v, a.pack v = (a.object v).map Object.pack
  fits : ∀ v obj, a.object v = .ok obj → obj.fits depth = true
  convert : ∀ v obj, a.object v = .ok obj → a.convert obj = .ok v

section Scalars

variable {size d : Nat}

-- The shortest form of a number does not depend on its type.
theorem packImpUint_eq (hsize : size ≤ 8) (hd : d < 256 ^ size) : packImpUint size d = packImpUint 8 d := by
  have hwidth : ∀ width, size ≤ width → d < 256 ^ width := by
    intro width hle
    exact Nat.lt_of_lt_of_le hd (Nat.pow_le_pow_right (by omega) hle)
  have h1 := hwidth 1
  have h2 := hwidth 2
  have h4 := hwidth 4
  have h8 : (d < 2 ^ 8 ∨ size ≤ 1) ↔ (d < 2 ^ 8 ∨ 8 ≤ 1) := by omega
  have h16 : (d < 2 ^ 16 ∨ size ≤ 2) ↔ (d < 2 ^ 16 ∨ 8 ≤ 2) := by omega
  have h32 : (d < 2 ^ 32 ∨ size ≤ 4) ↔ (d < 2 ^ 32 ∨ 8 ≤ 4) := by omega
  simp only [packImpUint, h8, h16, h32]

theorem uint8_lawful : uint8.Lawful 0 := by
  constructor
  · intro v
    have hlt := v.toNat_lt
    have hpack : packUint8 v = packUint64 v.toUInt64 := by
      unfold packUint8 packUint64
      rw [UInt8.toNat_toUInt64]
      exact packImpUint_eq (by omega) (by omega)
    exact congrArg Except.ok hpack
  · intro v obj h
    cases h
    rfl
  · intro v obj h
    cases h
    have hle : ¬(0xff : UInt64) < v.toUInt64 := by
      have hlt := v.toNat_lt
      rw [UInt64.lt_iff_toNat_lt, UInt8.toNat_toUInt64]
      exact Nat.not_lt.mpr (Nat.le_of_lt_succ hlt)
    simp [uint8, convertUnsigned, hle, pure, Except.pure, bind, Except.bind]

theorem uint32_lawful : uint32.Lawful 0 := by
  constructor
  · intro v
    have hlt := v.toNat_lt
    have hpack : packUint32 v = packUint64 v.toUInt64 := by
      unfold packUint32 packUint64
      rw [UInt32.toNat_toUInt64]
      exact packImpUint_eq (by omega) (by omega)
    exact congrArg Except.ok hpack
  · intro v obj h
    cases h
    rfl
  · intro v obj h
    cases h
    have hle : ¬(0xffffffff : UInt64) < v.toUInt64 := by
      have hlt := v.toNat_lt
      rw [UInt64.lt_iff_toNat_lt, UInt32.toNat_toUInt64]
      exact Nat.not_lt.mpr (Nat.le_of_lt_succ hlt)
    simp [uint32, convertUnsigned, hle, pure, Except.pure, bind, Except.bind]

theorem bool_lawful : bool.Lawful 0 := by
  constructor
  · intro v
    rfl
  · intro v obj h
    cases h
    rfl
  · intro v obj h
    cases h
    rfl

end Scalars

theorem checkedSize_of_le {size : Nat} (h : size < 2 ^ 32) : checkedSize size = .ok size := by
  unfold checkedSize
  rw [if_neg (by omega)]
  rfl

theorem checkedSize_of_gt {size : Nat} (h : ¬size < 2 ^ 32) : checkedSize size = .error .containerSizeOverflow := by
  unfold checkedSize
  rw [if_pos (by omega)]
  rfl

-- The two ways of writing bytes, of which convert reads either.
theorem lawful_of_raw {a : Adaptor Bytes} {type : Raw} (htype : type ≠ .EXT)
    (hpack : ∀ v, a.pack v = (checkedSize v.length).map fun _ => (Object.raw type v).pack)
    (hobject : ∀ v, a.object v = (checkedSize v.length).map fun _ => .raw type v)
    (hconvert : a.convert = convertRaw) : a.Lawful 0 := by
  have hsize : ∀ v obj, a.object v = .ok obj → v.length < 2 ^ 32 ∧ obj = .raw type v := by
    intro v obj h
    rw [hobject] at h
    by_cases hlen : v.length < 2 ^ 32
    · rw [checkedSize_of_le hlen] at h
      cases h
      exact ⟨hlen, rfl⟩
    · rw [checkedSize_of_gt hlen] at h
      cases h
  constructor
  · intro v
    rw [hpack, hobject]
    cases checkedSize v.length with
    | error e => rfl
    | ok size => rfl
  · intro v obj h
    obtain ⟨hlen, rfl⟩ := hsize v obj h
    cases type with
    | STR => exact decide_eq_true hlen
    | BIN => exact decide_eq_true hlen
    | EXT => exact absurd rfl htype
  · intro v obj h
    obtain ⟨hlen, rfl⟩ := hsize v obj h
    rw [hconvert]
    cases type with
    | STR => rfl
    | BIN => rfl
    | EXT => exact absurd rfl htype

theorem string_lawful : string.Lawful 0 := by
  have htype : Raw.STR ≠ .EXT := by decide
  apply lawful_of_raw htype
  · intro v
    simp only [string, checkedSize]
    split <;> rfl
  · intro v
    simp only [string, checkedSize]
    split <;> rfl
  · rfl

theorem vectorChar_lawful : vectorChar.Lawful 0 := by
  have htype : Raw.BIN ≠ .EXT := by decide
  apply lawful_of_raw htype
  · intro v
    simp only [vectorChar, checkedSize]
    split <;> rfl
  · intro v
    simp only [vectorChar, checkedSize]
    split <;> rfl
  · rfl

section Members

variable {ε α β : Type} {f : α → Except ε β} {members : List Member} {depth : Nat}

theorem mapM_ok_iff {xs : List α} {ys : List β} :
    xs.mapM f = .ok ys ↔ List.Forall₂ (fun x y => f x = .ok y) xs ys := by
  induction xs generalizing ys with
  | nil =>
      rw [List.forall₂_nil_left_iff]
      constructor
      · intro h
        cases h
        rfl
      · rintro rfl
        rfl
  | cons x xs ih =>
      rw [List.mapM_cons]
      constructor
      · intro h
        cases hx : f x with
        | error e =>
            rw [hx] at h
            cases h
        | ok y =>
            cases hxs : xs.mapM f with
            | error e =>
                rw [hx, hxs] at h
                cases h
            | ok rest =>
                rw [hx, hxs] at h
                cases h
                exact .cons hx (ih.mp hxs)
      · intro h
        cases h with
        | cons hx hxs =>
            rw [hx, ih.mpr hxs]
            rfl

def Member.Lawful (m : Member) (depth : Nat) : Prop :=
  m.pack = m.object.map Object.pack ∧ ∀ obj, m.object = .ok obj → obj.fits depth = true

theorem Adaptor.Lawful.member {a : Adaptor α} (h : a.Lawful depth) (v : α) : (a.member v).Lawful depth :=
  ⟨h.pack_eq v, h.fits v⟩

theorem mapM_pack (h : ∀ m ∈ members, m.Lawful depth) :
    members.mapM Member.pack = (members.mapM Member.object).map (List.map Object.pack) := by
  induction members with
  | nil => rfl
  | cons m members ih =>
      have hm := (h m List.mem_cons_self).1
      have hmembers := ih fun other hother => h other (List.mem_cons_of_mem m hother)
      rw [List.mapM_cons, List.mapM_cons, hm, hmembers]
      cases m.object with
      | error e => rfl
      | ok obj =>
          cases members.mapM Member.object with
          | error e => rfl
          | ok items => rfl

theorem objectMembers_ok {obj : Object} (h : objectMembers members = .ok obj) :
    ∃ items, obj = .array items ∧ List.Forall₂ (fun m item => m.object = .ok item) members items := by
  unfold objectMembers at h
  cases hitems : members.mapM Member.object with
  | error e =>
      rw [hitems] at h
      cases h
  | ok items =>
      rw [hitems] at h
      cases h
      exact ⟨items, rfl, mapM_ok_iff.mp hitems⟩

-- A member is read from its place as what it was made of.
theorem Adaptor.Lawful.convertMember_eq {a : Adaptor α} (h : a.Lawful depth) {items : List Object}
    (hitems : List.Forall₂ (fun m item => m.object = .ok item) members items) (index : Nat) {v : α}
    (hget : members[index]? = some (a.member v)) (fallback : α) :
    convertMember a.convert items index fallback = .ok v := by
  obtain ⟨hindex, hmember⟩ := List.getElem?_eq_some_iff.mp hget
  have hbound : index < items.length := hitems.length_eq ▸ hindex
  have hobject : members[index].object = .ok items[index] := hitems.get hindex hbound
  rw [hmember] at hobject
  unfold convertMember
  rw [List.getElem?_eq_getElem hbound]
  exact h.convert v items[index] hobject

theorem packMembers_eq (h : ∀ m ∈ members, m.Lawful depth) :
    packMembers members = (objectMembers members).map Object.pack := by
  unfold packMembers objectMembers
  rw [mapM_pack h]
  cases hitems : members.mapM Member.object with
  | error e => rfl
  | ok items =>
      have hlen := (mapM_ok_iff.mp hitems).length_eq
      have hpack : (items.map Object.pack).flatten = Object.packAll items := by
        rw [Object.packAll_eq]
        rfl
      change Except.ok (packArray members.length ++ (items.map Object.pack).flatten) = _
      rw [hpack, hlen]
      rfl

theorem objectMembers_fits (h : ∀ m ∈ members, m.Lawful depth) (hlen : members.length < 2 ^ 32) {obj : Object}
    (hobj : objectMembers members = .ok obj) : obj.fits (depth + 1) = true := by
  obtain ⟨items, rfl, hitems⟩ := objectMembers_ok hobj
  have hfits : ∀ item ∈ items, item.fits depth = true := by
    intro item hitem
    obtain ⟨m, hm, hmobj⟩ : ∃ m ∈ members, m.object = .ok item := by
      obtain ⟨index, hindex, rfl⟩ := List.getElem_of_mem hitem
      have hbound : index < members.length := hitems.length_eq ▸ hindex
      exact ⟨members[index], List.getElem_mem hbound, hitems.get hbound hindex⟩
    exact (h m hm).2 item hmobj
  have hitemslen := hitems.length_eq
  simp only [Object.fits, Nat.add_sub_cancel, Bool.and_eq_true, decide_eq_true_eq, Object.fitsAll_iff]
  exact ⟨⟨Nat.zero_lt_succ depth, by omega⟩, hfits⟩

theorem defineArray_lawful {fields : α → List Member} {convert : List Object → Except Error α}
    (hfields : ∀ v, (fields v).Forall fun m => m.Lawful depth) (hlen : ∀ v, (fields v).length < 2 ^ 32)
    (hconvert : ∀ v items, List.Forall₂ (fun m item => m.object = .ok item) (fields v) items →
      convert items = .ok v) : (defineArray fields convert).Lawful (depth + 1) := by
  constructor
  · intro v
    exact packMembers_eq (List.forall_iff_forall_mem.mp (hfields v))
  · intro v obj hobj
    exact objectMembers_fits (List.forall_iff_forall_mem.mp (hfields v)) (hlen v) hobj
  · intro v obj hobj
    obtain ⟨items, rfl, hitems⟩ := objectMembers_ok hobj
    exact hconvert v items hitems

theorem vector_lawful {a : Adaptor α} (h : a.Lawful depth) : (vector a).Lawful (depth + 1) := by
  have hmembers : ∀ v : List α, ∀ m ∈ v.map a.member, m.Lawful depth := by
    intro v m hm
    obtain ⟨x, -, rfl⟩ := List.mem_map.mp hm
    exact h.member x
  have hobject : ∀ v obj, (vector a).object v = .ok obj →
      v.length < 2 ^ 32 ∧ objectMembers (v.map a.member) = .ok obj := by
    intro v obj hobj
    simp only [vector] at hobj
    by_cases hlen : v.length < 2 ^ 32
    · rw [checkedSize_of_le hlen] at hobj
      exact ⟨hlen, hobj⟩
    · rw [checkedSize_of_gt hlen] at hobj
      cases hobj
  constructor
  · intro v
    simp only [vector]
    by_cases hlen : v.length < 2 ^ 32
    · rw [checkedSize_of_le hlen]
      exact packMembers_eq (hmembers v)
    · rw [checkedSize_of_gt hlen]
      rfl
  · intro v obj hobj
    obtain ⟨hlen, hobj⟩ := hobject v obj hobj
    exact objectMembers_fits (hmembers v) (by rwa [List.length_map]) hobj
  · intro v obj hobj
    obtain ⟨items, rfl, hitems⟩ := objectMembers_ok (hobject v obj hobj).2
    rw [List.forall₂_map_left_iff] at hitems
    apply mapM_ok_iff.mpr
    apply List.Forall₂.flip
    apply hitems.imp
    intro x item hitem
    exact h.convert x item hitem

end Members

theorem Adaptor.Lawful.mono {α : Type} {a : Adaptor α} {depth more : Nat} (h : a.Lawful depth) (hle : depth ≤ more) :
    a.Lawful more :=
  ⟨h.pack_eq, fun v obj hobj => obj.fits_mono hle (h.fits v obj hobj), h.convert⟩

end CloudLabs.MessagePack
