import Mathlib.Data.List.Basic
import Mathlib.Data.UInt

namespace CloudLabs.Parsing

-- '0' to '9'.
def isDigit (ch : UInt8) : Bool := 48 ≤ ch && ch ≤ 57

-- What isspace takes in the C locale.
def isSpace (ch : UInt8) : Bool := ch = 32 || (9 ≤ ch && ch ≤ 13)

def value (digits : List UInt8) : Nat :=
  digits.foldl (fun number digit => number * 10 + (digit.toNat - 48)) 0

def decimal (number : Nat) : List UInt8 := (Nat.toDigits 10 number).map fun digit => digit.toNat.toUInt8

structure Numeral where
  negative : Bool
  magnitude : Nat
  deriving DecidableEq

def Numeral.value (numeral : Numeral) : Int :=
  if numeral.negative then -numeral.magnitude else numeral.magnitude

-- Digits at the start of a text; what follows them is not looked at.
def readDigits (negative : Bool) (text : List UInt8) : Option Numeral :=
  let digits := text.takeWhile isDigit
  if digits = [] then none else some ⟨negative, value digits⟩

-- What strtol and its kin read in base ten: white space, a sign if there is one, digits.
def readNumeral (text : List UInt8) : Option Numeral :=
  match text.dropWhile isSpace with
  | 43 :: rest => readDigits false rest
  | 45 :: rest => readDigits true rest
  | rest => readDigits false rest

section Decimal

theorem digit_toNat {digit : Char} (h : digit.isDigit) : digit.toNat.toUInt8.toNat = digit.toNat := by
  have hdigit : digit.toNat ≤ 57 := by
    simp only [Char.isDigit, Bool.and_eq_true, decide_eq_true_eq] at h
    exact h.2
  rw [Nat.toUInt8, UInt8.toNat_ofNat']
  omega

theorem isDigit_of_mem_decimal (number : Nat) : ∀ ch ∈ decimal number, isDigit ch := by
  intro ch hch
  obtain ⟨digit, hmem, rfl⟩ := List.mem_map.mp hch
  have hdigit := Nat.isDigit_of_mem_toDigits (by decide) (by decide) hmem
  have hvalue := digit_toNat hdigit
  simp only [Char.isDigit, Bool.and_eq_true, decide_eq_true_eq] at hdigit
  have hlow : 48 ≤ digit.toNat := hdigit.1
  have hhigh : digit.toNat ≤ 57 := hdigit.2
  simp only [isDigit, Bool.and_eq_true, decide_eq_true_eq, UInt8.le_iff_toNat_le, hvalue]
  exact ⟨hlow, hhigh⟩

theorem foldl_digits {digits : List Char} (h : ∀ digit ∈ digits, digit.isDigit) (number : Nat) :
    (digits.map fun digit => digit.toNat.toUInt8).foldl
      (fun number digit => number * 10 + (digit.toNat - 48)) number =
      Nat.ofDigitChars 10 digits number := by
  induction digits generalizing number with
  | nil => simp
  | cons digit digits ih =>
      have hrest := ih fun other hother => h other (by simp [hother])
      rw [List.map_cons, List.foldl_cons, hrest, Nat.ofDigitChars_cons, digit_toNat (h digit (by simp)),
        Nat.mul_comm]
      rfl

theorem value_decimal (number : Nat) : value (decimal number) = number := by
  have hdigits : ∀ digit ∈ Nat.toDigits 10 number, digit.isDigit := fun digit hdigit =>
    Nat.isDigit_of_mem_toDigits (by decide) (by decide) hdigit
  rw [value, decimal, foldl_digits hdigits, Nat.ofDigitChars_ten_toDigits]

theorem decimal_injective {number number' : Nat} (h : decimal number = decimal number') :
    number = number' := by
  rw [← value_decimal number, h, value_decimal]

end Decimal

end CloudLabs.Parsing
