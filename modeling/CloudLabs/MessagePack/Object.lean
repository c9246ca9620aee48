import Mathlib.Data.List.Basic
import Mathlib.Data.UInt

namespace CloudLabs.MessagePack

abbrev Bytes := List UInt8

-- The types of objects whose bytes follow their size. The data of an ext begins with its type.
inductive Raw where
  | STR
  | BIN
  | EXT
  deriving DecidableEq, Repr

-- clmdep_msgpack::object. A float is kept by its bits; a map holds its keys and values in turn,
-- as they stand in memory.
inductive Object where
  | nil
  | boolean (value : Bool)
  | positiveInteger (value : UInt64)
  | negativeInteger (value : Int)
  | float32 (bits : UInt32)
  | float64 (bits : UInt64)
  | raw (type : Raw) (data : Bytes)
  | array (items : List Object)
  | map (items : List Object)

-- _msgpack_store16, _msgpack_store32 and _msgpack_store64: the high byte first.
def store : Nat → Nat → Bytes
  | 0, _ => []
  | width + 1, number => store width (number / 256) ++ [number.toUInt8]

-- A negative number is stored as a static_cast leaves it.
def storeInt (width : Nat) (number : Int) : Bytes := store width (number % 256 ^ width).toNat

-- The load functions of unpack.hpp.
def load (data : Bytes) : Nat := data.foldl (fun number byte => 256 * number + byte.toNat) 0

def loadInt (data : Bytes) : Int :=
  if 2 * load data < 256 ^ data.length then load data else load data - 256 ^ data.length

theorem length_store (width number : Nat) : (store width number).length = width := by
  induction width generalizing number with
  | zero => rfl
  | succ width ih => rw [store, List.length_append, ih, List.length_singleton]

theorem load_append (data : Bytes) (byte : UInt8) : load (data ++ [byte]) = 256 * load data + byte.toNat := by
  unfold load
  rw [List.foldl_append]
  rfl

theorem load_store {width number : Nat} (h : number < 256 ^ width) : load (store width number) = number := by
  induction width generalizing number with
  | zero =>
      rw [Nat.pow_zero] at h
      have hzero : number = 0 := by omega
      rw [hzero]
      rfl
  | succ width ih =>
      have hdiv : number / 256 < 256 ^ width := by
        rw [Nat.pow_succ] at h
        omega
      rw [store, load_append, ih hdiv, Nat.toUInt8_eq, UInt8.toNat_ofNat']
      omega

theorem loadInt_storeInt {width : Nat} {number : Int} (hlow : -256 ^ width ≤ 2 * number)
    (hhigh : 2 * number < 256 ^ width) : loadInt (storeInt width number) = number := by
  have hpow : (0 : Int) < 256 ^ width := Int.pow_pos (by omega)
  have hcast : ((256 ^ width : Nat) : Int) = 256 ^ width := Int.natCast_pow 256 width
  have hnonneg : 0 ≤ number % 256 ^ width := Int.emod_nonneg number (by omega)
  have hlt : number % 256 ^ width < 256 ^ width := Int.emod_lt_of_pos number hpow
  have hload : load (storeInt width number) = (number % 256 ^ width).toNat := by
    apply load_store
    omega
  have hlen : (storeInt width number).length = width := length_store width _
  unfold loadInt
  rw [hload, hlen]
  by_cases hneg : number < 0
  · have hmod : number % 256 ^ width = number + 256 ^ width := by
      rw [← Int.add_emod_right, Int.emod_eq_of_lt (by omega) (by omega)]
    rw [if_neg (by omega)]
    omega
  · have hmod : number % 256 ^ width = number := Int.emod_eq_of_lt (by omega) (by omega)
    rw [if_pos (by omega)]
    omega

-- pack_imp_uint8, pack_imp_uint32 and pack_imp_uint64, for the bytes of the type of d: the
-- shortest form that holds d.
def packImpUint (size : Nat) (d : Nat) : Bytes :=
  if d < 2 ^ 7 then store 1 d
  else if d < 2 ^ 8 ∨ size ≤ 1 then 0xcc :: store 1 d
  else if d < 2 ^ 16 ∨ size ≤ 2 then 0xcd :: store 2 d
  else if d < 2 ^ 32 ∨ size ≤ 4 then 0xce :: store 4 d
  else 0xcf :: store 8 d

def packUint8 (d : UInt8) : Bytes := packImpUint 1 d.toNat
def packUint32 (d : UInt32) : Bytes := packImpUint 4 d.toNat
def packUint64 (d : UInt64) : Bytes := packImpUint 8 d.toNat

-- pack_imp_int32 and pack_imp_int64.
def packImpInt (size : Nat) (d : Int) : Bytes :=
  if d < -2 ^ 5 then
    if d < -2 ^ 15 then
      if d < -2 ^ 31 ∧ 4 < size then 0xd3 :: storeInt 8 d else 0xd2 :: storeInt 4 d
    else if d < -2 ^ 7 then 0xd1 :: storeInt 2 d
    else 0xd0 :: storeInt 1 d
  else if d < 2 ^ 7 then storeInt 1 d
  else packImpUint size d.toNat

-- pack_int
def packInt (d : Int) : Bytes := packImpInt 4 d
def packInt64 (d : Int) : Bytes := packImpInt 8 d

-- The tag of the first width that holds the size, and the size.
def packSize (l : Nat) : List (UInt8 × Nat) → Bytes
  | [] => []
  | [(tag, width)] => tag :: store width l
  | (tag, width) :: tags => if l < 256 ^ width then tag :: store width l else packSize l tags

def packStr (l : Nat) : Bytes :=
  if l < 32 then [(0xa0 ||| l).toUInt8] else packSize l [(0xd9, 1), (0xda, 2), (0xdb, 4)]

def packBin (l : Nat) : Bytes := packSize l [(0xc4, 1), (0xc5, 2), (0xc6, 4)]

-- pack_ext without the type, which is the first byte of the data here: a few sizes have a tag.
def packExt (l : Nat) : Bytes :=
  match l with
  | 1 => [0xd4]
  | 2 => [0xd5]
  | 4 => [0xd6]
  | 8 => [0xd7]
  | 16 => [0xd8]
  | l => packSize l [(0xc7, 1), (0xc8, 2), (0xc9, 4)]

def packArray (n : Nat) : Bytes :=
  if n < 16 then [(0x90 ||| n).toUInt8] else packSize n [(0xdc, 2), (0xdd, 4)]

def packMap (n : Nat) : Bytes :=
  if n < 16 then [(0x80 ||| n).toUInt8] else packSize n [(0xde, 2), (0xdf, 4)]

-- The size of a raw object: the type of an ext does not count.
def Raw.packSize (type : Raw) (data : Bytes) : Bytes :=
  match type with
  | STR => packStr data.length
  | BIN => packBin data.length
  | EXT => packExt (data.length - 1)

namespace Object

mutual

-- pack of an object
def pack : Object → Bytes
  | nil => [0xc0]
  | boolean value => [if value then 0xc3 else 0xc2]
  | positiveInteger value => packUint64 value
  | negativeInteger value => packInt64 value
  | float32 bits => 0xca :: store 4 bits.toNat
  | float64 bits => 0xcb :: store 8 bits.toNat
  | raw type data => type.packSize data ++ data
  | array items => packArray items.length ++ packAll items
  | map items => packMap (items.length / 2) ++ packAll items

def packAll : List Object → Bytes
  | [] => []
  | item :: items => pack item ++ packAll items

end

-- The sizes that an object can have, with at most so many containers inside each other.
mutual

def fits (depth : Nat) : Object → Bool
  | negativeInteger value => -2 ^ 63 ≤ value && value < 0
  | raw .EXT data => 0 < data.length && data.length ≤ 2 ^ 32
  | raw _ data => data.length < 2 ^ 32
  | array items => 0 < depth && items.length < 2 ^ 32 && fitsAll (depth - 1) items
  | map items =>
      0 < depth && items.length % 2 = 0 && items.length / 2 < 2 ^ 32 && fitsAll (depth - 1) items
  | _ => true

def fitsAll (depth : Nat) : List Object → Bool
  | [] => true
  | item :: items => fits depth item && fitsAll depth items

end

theorem packAll_eq (items : List Object) : packAll items = items.flatMap pack := by
  induction items with
  | nil => rfl
  | cons item items ih => rw [packAll, List.flatMap_cons, ih]

theorem fitsAll_iff {depth : Nat} {items : List Object} :
    fitsAll depth items = true ↔ ∀ item ∈ items, fits depth item = true := by
  induction items with
  | nil => simp [fitsAll]
  | cons item items ih => simp [fitsAll, ih]

theorem induct {P : Object → Prop} (nil : P .nil) (boolean : ∀ value, P (.boolean value))
    (positiveInteger : ∀ value, P (.positiveInteger value))
    (negativeInteger : ∀ value, P (.negativeInteger value)) (float32 : ∀ bits, P (.float32 bits))
    (float64 : ∀ bits, P (.float64 bits)) (raw : ∀ type data, P (.raw type data))
    (array : ∀ items, (∀ item ∈ items, P item) → P (.array items))
    (map : ∀ items, (∀ item ∈ items, P item) → P (.map items)) (obj : Object) : P obj := by
  have hnone : ∀ item ∈ ([] : List Object), P item := by simp
  have hcons : ∀ (first : Object) (rest : List Object), P first → (∀ item ∈ rest, P item) →
      ∀ item ∈ first :: rest, P item := by
    intro first rest hfirst hrest item hmem
    rcases List.mem_cons.mp hmem with rfl | hmem
    · exact hfirst
    · exact hrest item hmem
  exact @Object.rec P (fun items => ∀ item ∈ items, P item) nil boolean positiveInteger negativeInteger
    float32 float64 raw array map hnone hcons obj

-- An object that fits where few containers can be opened fits where more can.
theorem fits_mono (obj : Object) :
    ∀ {depth more : Nat}, depth ≤ more → obj.fits depth = true → obj.fits more = true := by
  induction obj using Object.induct with
  | array items ih =>
      intro depth more hle h
      simp only [fits, Bool.and_eq_true, decide_eq_true_eq, fitsAll_iff] at h ⊢
      obtain ⟨⟨hpos, hlen⟩, hall⟩ := h
      exact ⟨⟨by omega, hlen⟩, fun item hitem => ih item hitem (by omega) (hall item hitem)⟩
  | map items ih =>
      intro depth more hle h
      simp only [fits, Bool.and_eq_true, decide_eq_true_eq, fitsAll_iff] at h ⊢
      obtain ⟨⟨⟨hpos, heven⟩, hlen⟩, hall⟩ := h
      exact ⟨⟨⟨by omega, heven⟩, hlen⟩, fun item hitem => ih item hitem (by omega) (hall item hitem)⟩
  | nil => exact fun _ h => h
  | boolean value => exact fun _ h => h
  | positiveInteger value => exact fun _ h => h
  | negativeInteger value => exact fun _ h => h
  | float32 bits => exact fun _ h => h
  | float64 bits => exact fun _ h => h
  | raw type data =>
      intro depth more hle h
      cases type with
      | STR => exact h
      | BIN => exact h
      | EXT => exact h

end Object

end CloudLabs.MessagePack
