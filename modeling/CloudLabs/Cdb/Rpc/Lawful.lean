import CloudLabs.Cdb.Rpc

namespace CloudLabs.Cdb

open MessagePack

namespace Rpc

theorem command_lawful (own : CommandType) : (command own).Lawful 1 := by
  have hlen : 1 < 2 ^ 32 := by decide
  apply defineArray_lawful
  · intro type
    exact uint8_lawful.member type
  · intro type
    exact hlen
  · intro type items hitems
    exact uint8_lawful.convertMember_eq hitems 0 rfl own

theorem getCommand_lawful : getCommand.Lawful 2 := by
  have hlen : 2 < 2 ^ 32 := by decide
  have hstring := string_lawful.mono (Nat.zero_le 1)
  apply defineArray_lawful
  · intro v
    exact ⟨(command_lawful CMD_GET).member v.type, hstring.member v.cmd.key⟩
  · intro v
    exact hlen
  · intro v items hitems
    have htype := (command_lawful CMD_GET).convertMember_eq hitems 0 rfl CMD_GET
    have hkey := string_lawful.convertMember_eq hitems 1 rfl []
    simp only [htype, hkey]
    rfl

theorem setCommand_lawful : setCommand.Lawful 2 := by
  have hlen : 4 < 2 ^ 32 := by decide
  have huint32 := uint32_lawful.mono (Nat.zero_le 1)
  have hstring := string_lawful.mono (Nat.zero_le 1)
  apply defineArray_lawful
  · intro v
    exact ⟨(command_lawful CMD_SET).member v.type, huint32.member v.cmd.id, hstring.member v.cmd.key,
      hstring.member v.cmd.value⟩
  · intro v
    exact hlen
  · intro v items hitems
    have htype := (command_lawful CMD_SET).convertMember_eq hitems 0 rfl CMD_SET
    have hid := uint32_lawful.convertMember_eq hitems 1 rfl 0
    have hkey := string_lawful.convertMember_eq hitems 2 rfl []
    have hvalue := string_lawful.convertMember_eq hitems 3 rfl []
    simp only [htype, hid, hkey, hvalue]
    rfl

theorem delCommand_lawful : delCommand.Lawful 2 := by
  have hlen : 3 < 2 ^ 32 := by decide
  have huint32 := uint32_lawful.mono (Nat.zero_le 1)
  have hkeys := vector_lawful string_lawful
  apply defineArray_lawful
  · intro v
    exact ⟨(command_lawful CMD_DEL).member v.type, huint32.member v.cmd.id, hkeys.member v.cmd.keys⟩
  · intro v
    exact hlen
  · intro v items hitems
    have htype := (command_lawful CMD_DEL).convertMember_eq hitems 0 rfl CMD_DEL
    have hid := uint32_lawful.convertMember_eq hitems 1 rfl 0
    have hkeys := hkeys.convertMember_eq hitems 2 rfl []
    simp only [htype, hid, hkeys]
    rfl

-- A set is made of its elements, in whatever order they are inserted.
theorem ofList_toList (s : KeySet) : Std.ExtTreeSet.ofList s.toList = s := by
  apply Std.ExtTreeSet.ext_mem
  intro key
  rw [Std.ExtTreeSet.mem_ofList, List.contains_iff_mem, Std.ExtTreeSet.mem_toList]

theorem keySet_lawful : keySet.Lawful 1 := by
  have hkeys := vector_lawful string_lawful
  constructor
  · intro v
    exact hkeys.pack_eq v.toList
  · intro v obj hobj
    exact hkeys.fits v.toList obj hobj
  · intro v obj hobj
    have hconvert := hkeys.convert v.toList obj hobj
    simp only [keySet, hconvert, bind, Except.bind, pure, Except.pure, ofList_toList]

theorem int_lawful {idx : Nat} (h : idx < 2 ^ 31) :
    (int idx).pack = (int idx).object.map Object.pack ∧
      (int idx).object = .ok (.positiveInteger (UInt64.ofNat idx)) := by
  have hnonneg : (0 : Int) ≤ idx := Int.natCast_nonneg idx
  have hobject : (int idx).object = .ok (.positiveInteger (UInt64.ofNat idx)) := by
    simp only [int, visitNegativeInteger, if_pos hnonneg, Int.toNat_natCast]
    rfl
  have hround : (UInt64.ofNat idx).toNat = idx := by
    rw [UInt64.toNat_ofNat']
    omega
  have hpack : packInt idx = packUint64 (UInt64.ofNat idx) := by
    rw [packInt, packImpInt_of_nonneg hnonneg, Int.toNat_natCast, packUint64, hround]
    exact packImpUint_eq (by omega) (by omega)
  refine ⟨?_, hobject⟩
  rw [hobject]
  exact congrArg Except.ok hpack

-- The members of a tuple are a member of the tuple around it.
theorem tuple_lawful {members : List Member} {depth : Nat} (h : members.Forall fun m => m.Lawful depth)
    (hlen : members.length < 2 ^ 32) :
    (⟨packMembers members, objectMembers members⟩ : Member).Lawful (depth + 1) := by
  have hall := List.forall_iff_forall_mem.mp h
  exact ⟨packMembers_eq hall, fun obj hobj => objectMembers_fits hall hlen hobj⟩

end Rpc

open Rpc

namespace Request

theorem args_lawful (request : Request) : request.args.Forall fun m => m.Lawful 2 := by
  have huint32 := uint32_lawful.mono (Nat.zero_le 2)
  cases request with
  | GET cmd => exact getCommand_lawful.member _
  | PREPARE_SET cmd => exact setCommand_lawful.member _
  | PREPARE_DEL cmd => exact delCommand_lawful.member _
  | COMMIT id => exact huint32.member id
  | ABORT id => exact huint32.member id
  | SET_NEXT_ID val => exact huint32.member val
  | NEXT_ID => trivial
  | HEARTBEAT => trivial
  | GET_SNAPSHOT => trivial
  | RECOVER data delKeys =>
      exact ⟨(vectorChar_lawful.mono (Nat.zero_le 2)).member data, (keySet_lawful.mono (by omega)).member delKeys⟩

theorem length_args_le (request : Request) : request.args.length ≤ 2 := by
  cases request <;> simp [args]

theorem members_lawful (request : Request) {idx : Nat} (h : idx < 2 ^ 31) :
    (request.members idx).Forall fun m => m.Lawful 3 := by
  have hargs := tuple_lawful request.args_lawful (Nat.lt_of_le_of_lt request.length_args_le (by decide))
  have hidx := int_lawful h
  have hidxFits : ∀ obj, (int idx).object = .ok obj → obj.fits 3 = true := by
    intro obj hobj
    rw [hidx.2] at hobj
    cases hobj
    rfl
  exact ⟨(uint8_lawful.mono (Nat.zero_le 3)).member 0, ⟨hidx.1, hidxFits⟩,
    (string_lawful.mono (Nat.zero_le 3)).member request.name, hargs⟩

end Request

end CloudLabs.Cdb
