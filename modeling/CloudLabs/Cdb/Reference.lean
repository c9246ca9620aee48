import CloudLabs.Cdb.Participant.Theorems

namespace CloudLabs.Cdb

-- What a reply says.
inductive Answer where
  | ok
  | error
  | count (number : Nat)
  | lines (strings : List Bytes)
  deriving DecidableEq

-- A reply as the RESP protocol writes it.
def Answer.encode : Answer → Bytes
  | ok => bytes "+OK\r\n"
  | error => bytes "-ERROR\r\n"
  | count number => bytes ":" ++ Parsing.decimal number ++ bytes "\r\n"
  | lines strings => bytes "*" ++ Parsing.decimal strings.length ++ bytes "\r\n" ++
      strings.flatMap fun string => bytes "$" ++ Parsing.decimal string.length ++ bytes "\r\n" ++ string ++ bytes "\r\n"

-- The words between the blanks of a value. A blank at its end is followed by none.
def words (value : Bytes) : List Bytes :=
  let pieces := value.splitOn 32
  if pieces.getLast? = some [] then pieces.dropLast else pieces

-- What the cluster as a whole stands for: one map from keys to values, served by
-- one request after the other. The updates are counted.
structure Reference where
  map : Bytes → Option Bytes
  updates : Nat

namespace Reference

-- How many of the keys exist.
def count (r : Reference) (keys : List Bytes) : Nat :=
  (keys.toFinset.filter fun key => (r.map key).isSome).card

-- What the map answers to a request.
def answer (r : Reference) : Command → Answer
  | .get cmd => .lines (words ((r.map cmd.key).getD (bytes "nil")))
  | .set _ => .ok
  | .del cmd => if r.count cmd.keys = 0 then .error else .count (r.count cmd.keys)

def next (r : Reference) : Command → Reference
  | .get _ => r
  | .set cmd => ⟨Function.update r.map cmd.key (some cmd.value), r.updates + 1⟩
  | .del cmd => ⟨fun key => if key ∈ cmd.keys then none else r.map key, r.updates + 1⟩

def serve (r : Reference) (cmd : Command) : Bytes × Reference := ((r.answer cmd).encode, r.next cmd)

-- An update that is refused.
def refuse (r : Reference) : Bytes × Reference := (Answer.error.encode, { r with updates := r.updates + 1 })

-- The requests, the last one first; `veto` says which updates are refused.
def run (veto : Nat → Bool) (r : Reference) : List Command → List Bytes × Reference
  | [] => ([], r)
  | cmd :: earlier =>
      let (replies, last) := run veto r earlier
      let (reply, next) :=
        if cmd.isUpdate && veto (last.updates + 1) then last.refuse else last.serve cmd
      (reply :: replies, next)

end Reference

-- The map that a store holds.
def Store.view (store : Store) (key : Bytes) : Option Bytes := store[key]?

namespace Reference

variable {r : Reference} {store store' : Store} {ret : Bytes}

-- The number of an update makes no difference.
@[simp] theorem serve_setId (r : Reference) (id : UInt32) (cmd : Command) :
    r.serve (cmd.setId id) = r.serve cmd := by
  cases cmd <;> rfl

-- A GET is answered with the words of the value.
theorem encodeResult_eq_encode (value : Bytes) : Participant.encodeResult value = (Answer.lines (words value)).encode := by
  have hwords : Participant.getlines value = words value := Parsing.split_eq_splitOn value
  rw [Participant.encodeResult, hwords]
  rfl

theorem get_view (p : Participant) (cmd : GetCommand) (h : p.store.view = r.map) :
    p.get cmd = (r.serve (.get cmd)).1 := by
  have hkey : p.store[cmd.key]? = r.map cmd.key := congrFun h cmd.key
  simp only [Participant.get, serve, answer, hkey, encodeResult_eq_encode]
  cases r.map cmd.key <;> rfl

-- What a participant does for an update is what the map does.
theorem dispatch_view {cmd : Command} (h : store.view = r.map)
    (hdispatch : Participant.dispatch store cmd = .ok (ret, store')) :
    r.serve cmd = (ret, ⟨store'.view, r.updates + 1⟩) := by
  cases cmd with
  | get cmd => cases hdispatch
  | set cmd =>
      cases hdispatch
      have hmap : Function.update r.map cmd.key (some cmd.value) = Store.view (store.insert cmd.key cmd.value) := by
        funext key
        simp only [← h, Store.view, Std.ExtTreeMap.getElem?_insert, Function.update_apply]
        by_cases hkey : key = cmd.key
        · simp [hkey]
        · simp [hkey, Ne.symm hkey]
      simp only [serve, answer, next, hmap]
      rfl
  | del cmd =>
      have hcount : r.count cmd.keys = (Participant.deleteKeys store cmd.keys).1 := by
        rw [Participant.deleteKeys_count, count, ← h]
        simp [Store.view]
      have hmap : (fun key => if key ∈ cmd.keys then none else r.map key) =
          Store.view (Participant.deleteKeys store cmd.keys).2 := by
        funext key
        rw [Store.view, Participant.deleteKeys_getElem?, ← h, Store.view]
      simp only [Participant.dispatch, Participant.handleDel, pure_eq_ok, Except.ok.injEq] at hdispatch
      simp only [serve, answer, next, hmap, hcount]
      split at hdispatch
      · rename_i hzero
        cases hdispatch
        rw [if_pos hzero]
        rfl
      · rename_i hsome
        cases hdispatch
        rw [if_neg hsome]
        rfl

theorem dispatch_ok (store : Store) {cmd : Command} (hkind : cmd.isUpdate) :
    ∃ ret store', Participant.dispatch store cmd = .ok (ret, store') := by
  cases cmd with
  | get cmd => cases hkind
  | set cmd => exact ⟨_, _, rfl⟩
  | del cmd => exact ⟨_, _, rfl⟩

end Reference

end CloudLabs.Cdb
