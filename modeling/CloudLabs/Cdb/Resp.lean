import CloudLabs.Cdb.CommandParser.Theorems
import CloudLabs.Parsing.Numbers

namespace CloudLabs.Cdb

open Parsing CommandParser Participant

-- An array of bulk strings.
def encodeArray (strings : List Bytes) : Bytes :=
  bytes "*" ++ toString strings.length ++ separator ++ strings.flatMap encodeBulkString

theorem encodeResult_eq (value : Bytes) : encodeResult value = encodeArray (getlines value) := rfl

section Number

theorem isNumeric_toString (number : Nat) : ∀ ch ∈ toString number, isNumeric ch :=
  isDigit_of_mem_decimal number

theorem stol_toString {number : Nat} (h : number < 2 ^ 63) : stol (toString number) = some number := by
  have hne : toString number ≠ [] := by simp [toString, decimal]
  have hvalue : Parsing.value (toString number) = number := value_decimal number
  rw [stol, if_neg hne]
  simp only [hvalue, if_pos h]

theorem toString_injective {number number' : Nat} (h : toString number = toString number') :
    number = number' :=
  decimal_injective h

end Number

section Read

theorem readChar_reads (ch : UInt8) : Reader.Reads readChar [ch] ch := Reader.Reads.next wanting ch

theorem expectChar_reads (ch : UInt8) (msg : String) : Reader.Reads (expectChar ch msg) [ch] () := by
  refine (readChar_reads ch).bind ?_
  rw [if_neg (by simp)]
  exact .pure ()

theorem expectSeparator_reads : Reader.Reads expectSeparator separator () := by
  have hseparator : separator = [13] ++ ([10] ++ []) := rfl
  have hnewline : Reader.Reads (do
      let c ← readChar
      if c ≠ 10 then Reader.fail (.syntaxError "expect separator") else pure () : Parser Unit)
      ([10] ++ []) () := by
    refine (readChar_reads 10).bind ?_
    rw [if_neg (by simp)]
    exact .pure ()
  rw [hseparator]
  refine (readChar_reads 13).bind ?_
  rw [if_neg (by simp)]
  exact hnewline

-- A number is read up to the separator behind it.
theorem readNumElem_reads {α : Type} {next : Nat → Parser α} {number : Nat} {word : Bytes} {value : α}
    (hnumber : number < 2 ^ 63)
    (hnext : Reader.Reads (do expectSeparator; next number) (separator ++ word) value) :
    Reader.Reads (do let numElem ← readNumElem; expectSeparator; next numElem)
      (toString number ++ (separator ++ word)) value := by
  intro before rest
  have hspan : Reader.span isNumeric (toString number ++ 13 :: (10 :: (word ++ rest))) =
      some (toString number) :=
    Reader.span_word (isNumeric_toString number) rfl _
  have hdigits : readNumElem (before ++ (toString number ++ (separator ++ word) ++ rest)) before.length =
      (.ok number, (before ++ toString number).length) := by
    have hdrop : (before ++ (toString number ++ (separator ++ word) ++ rest)).drop before.length =
        toString number ++ 13 :: (10 :: (word ++ rest)) := by
      rw [List.drop_left, List.append_assoc, List.append_assoc]
      rfl
    have htake : Reader.takeWhile isNumeric wanting
        (before ++ (toString number ++ (separator ++ word) ++ rest)) before.length =
        (.ok (toString number), before.length + (toString number).length) := by
      rw [Reader.takeWhile, hdrop, hspan]
    unfold readNumElem
    rw [Reader.bind_ok htake, stol_toString hnumber, List.length_append]
    rfl
  have hrest := hnext (before ++ toString number) rest
  rw [Reader.bind_ok hdigits, List.length_append]
  simp only [List.append_assoc, List.length_append] at hrest ⊢
  rw [hrest]
  simp only [Nat.add_assoc]

theorem readBulkString_reads {str : Bytes} (h : str.length < 2 ^ 63) :
    Reader.Reads readBulkString (bytes "$" ++ (toString str.length ++ (separator ++ str))) str := by
  have hstring : Reader.Reads (Reader.times readChar str.length) (str.flatMap fun ch => [ch]) str :=
    Reader.Reads.times fun ch _ => readChar_reads ch
  rw [List.flatMap_singleton'] at hstring
  exact (expectChar_reads 36 _).bind (readNumElem_reads h (expectSeparator_reads.bind hstring))

-- An element of an array, with the separator that follows it.
theorem element_reads {α : Type} {next : Bytes → Parser α} {str word : Bytes} {value : α}
    (h : str.length < 2 ^ 63) (hnext : Reader.Reads (next str) word value) :
    Reader.Reads (do let str ← readBulkString; expectSeparator; next str)
      (encodeBulkString str ++ word) value := by
  have hseparator : Reader.Reads (do expectSeparator; next str) (separator ++ word) value :=
    expectSeparator_reads.bind hnext
  have hword : encodeBulkString str ++ word =
      (bytes "$" ++ (toString str.length ++ (separator ++ str))) ++ (separator ++ word) := by
    simp [encodeBulkString]
  rw [hword]
  exact (readBulkString_reads h).bind hseparator

end Read

section Injective

-- What stands before the separator is the number, and what stands behind it the
-- rest.
theorem number_injective {number number' : Nat} {rest rest' : Bytes}
    (h : toString number ++ (separator ++ rest) = toString number' ++ (separator ++ rest')) :
    number = number' ∧ rest = rest' := by
  have hspan := Reader.span_word (isNumeric_toString number) (show isNumeric 13 = false from rfl) (10 :: rest)
  have hspan' := Reader.span_word (isNumeric_toString number') (show isNumeric 13 = false from rfl) (10 :: rest')
  have hsame : toString number ++ 13 :: (10 :: rest) = toString number' ++ 13 :: (10 :: rest') := h
  rw [hsame, hspan'] at hspan
  have hnumber := toString_injective (Option.some.inj hspan)
  subst hnumber
  have hrest := List.append_cancel_left (List.append_cancel_left h)
  exact ⟨rfl, hrest.symm ▸ rfl⟩

theorem bulkString_injective {str str' rest rest' : Bytes}
    (h : encodeBulkString str ++ rest = encodeBulkString str' ++ rest') : str = str' ∧ rest = rest' := by
  simp only [encodeBulkString, List.append_assoc] at h
  obtain ⟨hlen, hbody⟩ := number_injective (List.append_cancel_left h)
  obtain ⟨hstr, htail⟩ := List.append_inj hbody hlen
  exact ⟨hstr, List.append_cancel_left htail⟩

theorem bulkStrings_injective {strs strs' : List Bytes} {rest rest' : Bytes} (hlen : strs.length = strs'.length)
    (h : strs.flatMap encodeBulkString ++ rest = strs'.flatMap encodeBulkString ++ rest') :
    strs = strs' ∧ rest = rest' := by
  induction strs generalizing strs' with
  | nil =>
      obtain rfl : strs' = [] := List.length_eq_zero_iff.mp hlen.symm
      exact ⟨rfl, h⟩
  | cons str strs ih =>
      cases strs' with
      | nil => cases hlen
      | cons str' strs' =>
          rw [List.flatMap_cons, List.flatMap_cons, List.append_assoc, List.append_assoc] at h
          obtain ⟨hstr, hbehind⟩ := bulkString_injective h
          obtain ⟨hstrs, hrest⟩ := ih (Nat.succ.inj hlen) hbehind
          exact ⟨by rw [hstr, hstrs], hrest⟩

-- Where an array ends can be told from its bytes.
theorem encodeArray_append_injective {strs strs' : List Bytes} {rest rest' : Bytes}
    (h : encodeArray strs ++ rest = encodeArray strs' ++ rest') : strs = strs' ∧ rest = rest' := by
  simp only [encodeArray, List.append_assoc] at h
  obtain ⟨hlen, hbody⟩ := number_injective (List.append_cancel_left h)
  exact bulkStrings_injective hlen hbody

theorem encodeArray_injective {strs strs' : List Bytes} (h : encodeArray strs = encodeArray strs') :
    strs = strs' :=
  (encodeArray_append_injective (congrArg (· ++ []) h)).1

end Injective

end CloudLabs.Cdb
