import CloudLabs.Cdb.Sessions.Theorems

namespace CloudLabs.Cdb

open Interaction Participant

namespace Answer

-- The first byte of a reply.
def tag : Answer → UInt8
  | ok => 43
  | error => 45
  | count _ => 58
  | lines _ => 42

theorem head_encode (answer : Answer) (rest : Bytes) : (answer.encode ++ rest).head? = some answer.tag := by
  cases answer <;> rfl

theorem encode_ne_nil (answer : Answer) : answer.encode ≠ [] := by
  intro hnil
  have hhead := answer.head_encode []
  rw [hnil] at hhead
  cases hhead

theorem encode_lines (strings : List Bytes) : (lines strings).encode = encodeArray strings := rfl

-- Where a reply ends can be told from its bytes.
theorem encode_injective {answer answer' : Answer} {rest rest' : Bytes}
    (h : answer.encode ++ rest = answer'.encode ++ rest') : answer = answer' ∧ rest = rest' := by
  have htag : answer.tag = answer'.tag := by
    have hhead := congrArg List.head? h
    rw [head_encode, head_encode] at hhead
    exact Option.some.inj hhead
  cases answer with
  | ok =>
      cases answer' with
      | ok => exact ⟨rfl, List.append_cancel_left h⟩
      | _ => exact absurd htag (by simp [tag])
  | error =>
      cases answer' with
      | error => exact ⟨rfl, List.append_cancel_left h⟩
      | _ => exact absurd htag (by simp [tag])
  | count number =>
      cases answer' with
      | count number' =>
          simp only [encode, List.append_assoc] at h
          obtain ⟨rfl, hrest⟩ := number_injective (List.append_cancel_left h)
          exact ⟨rfl, hrest⟩
      | _ => exact absurd htag (by simp [tag])
  | lines strings =>
      cases answer' with
      | lines strings' =>
          rw [encode_lines, encode_lines] at h
          obtain ⟨rfl, hrest⟩ := encodeArray_append_injective h
          exact ⟨rfl, hrest⟩
      | _ => exact absurd htag (by simp [tag])

-- Replies side by side are read in one way only.
theorem flatMap_encode_injective {answers answers' : List Answer}
    (h : answers.flatMap encode = answers'.flatMap encode) : answers = answers' := by
  induction answers generalizing answers' with
  | nil =>
      cases answers' with
      | nil => rfl
      | cons answer' answers' =>
          have hnil := (List.append_eq_nil_iff.mp h.symm).1
          exact absurd hnil answer'.encode_ne_nil
  | cons answer answers ih =>
      cases answers' with
      | nil =>
          have hnil := (List.append_eq_nil_iff.mp h).1
          exact absurd hnil answer.encode_ne_nil
      | cons answer' answers' =>
          rw [List.flatMap_cons, List.flatMap_cons] at h
          obtain ⟨rfl, hrest⟩ := encode_injective h
          rw [ih hrest]

end Answer

namespace Reference

-- The answers to a list of requests, the last one first.
def answers (veto : Nat → Bool) (r : Reference) : List Command → List Answer
  | [] => []
  | cmd :: earlier =>
      let last := (run veto r earlier).2
      (if cmd.isUpdate && veto (last.updates + 1) then .error else last.answer cmd) :: answers veto r earlier

theorem map_encode_answers (veto : Nat → Bool) (r : Reference) (cmds : List Command) :
    (answers veto r cmds).map Answer.encode = (run veto r cmds).1 := by
  induction cmds with
  | nil => rfl
  | cons cmd earlier ih =>
      rw [answers, run, List.map_cons, ih]
      by_cases hveto : (cmd.isUpdate && veto ((run veto r earlier).2.updates + 1)) = true
      · simp only [if_pos hveto]
        rfl
      · simp only [if_neg hveto]
        rfl

end Reference

namespace Sessions

open Reads (service)

-- The bytes that a connection has been sent.
def stream (w : World) (connection : Nat) : Bytes :=
  ((w.replies.reverse.filter fun reply => reply.1.unpair.1 = connection).map Prod.snd).flatten

-- What the map answers to the requests of one connection while it serves those of all.
def answersTo (X : Sessions) (w : World) (connection : Nat) : List Answer :=
  (((w.replies.map Prod.fst).zip (Reference.answers (fun k => decide (k ∈ w.vetoed)) ⟨X.store.view, 0⟩
    (w.replies.map fun reply => X.asked reply.1))).reverse.filter
      fun entry => entry.1.unpair.1 = connection).map Prod.snd

variable {X : Sessions} {w : World}

theorem stream_eq (hagrees : X.Agrees w) (connection : Nat) :
    (X.answersTo w connection).flatMap Answer.encode = stream w connection := by
  obtain ⟨r, ⟨hrun, -⟩, -⟩ := hagrees
  have hserved := hrun (fun k => decide (k ∈ w.vetoed)) fun k _ => decide_eq_true_iff
  have hanswers := Reference.map_encode_answers (fun k => decide (k ∈ w.vetoed)) ⟨X.store.view, 0⟩
    (w.replies.map fun reply => X.asked reply.1)
  rw [hserved] at hanswers
  -- every reply is its answer, encoded
  have hreplies : w.replies = ((w.replies.map Prod.fst).zip (Reference.answers (fun k => decide (k ∈ w.vetoed))
      ⟨X.store.view, 0⟩ (w.replies.map fun reply => X.asked reply.1))).map fun entry => (entry.1, entry.2.encode) := by
    have hzip : w.replies = (w.replies.map Prod.fst).zip (w.replies.map Prod.snd) := List.zip_of_prod rfl rfl
    have hmessages : w.replies.map Prod.snd = _ := hanswers.symm
    calc w.replies = _ := hzip
      _ = _ := by rw [hmessages, List.zip_map_right]; rfl
  unfold answersTo stream
  conv_rhs => rw [hreplies]
  rw [← List.map_reverse, List.filter_map, List.map_map, List.flatMap_def, List.map_map]
  rfl

end Sessions

end CloudLabs.Cdb
