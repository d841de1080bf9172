import Mathlib.Data.List.TakeWhile
import Mathlib.Tactic.IntervalCases
import OsAgent.Library.JsonParse

/-!
# Integers as JSON data

The text of a natural number is a numeral, so the number can be written and read again wherever the
language reads the numeral as it is written, which it does of safe integers.
-/

namespace OsAgent.Library

/-- The number of which a text of digits is the numeral. -/
def numeralValue (literal : String) : ℕ := Nat.ofDigitChars 10 literal.toList 0

/-- The characters of a number are its decimal digits. -/
theorem toList_toString (n : ℕ) : (toString n).toList = Nat.toDigits 10 n := by simp

/-- The numeral of a number has its value. -/
@[simp]
theorem numeralValue_toString (n : ℕ) : numeralValue (toString n) = n := by
  unfold numeralValue
  rw [toList_toString, Nat.ofDigitChars_ten_toDigits]

/-- A numeral consists of digits. -/
theorem isDigit_of_mem {n : ℕ} {c : Char} (h : c ∈ (toString n).toList) : c.isDigit = true := by
  rw [toList_toString] at h
  exact Nat.isDigit_of_mem_toDigits (by decide) (by decide) h

/-- A number that is not zero does not begin with a zero. -/
theorem head?_toDigits {n : ℕ} (h : 0 < n) : (Nat.toDigits 10 n).head? ≠ some '0' := by
  induction n using Nat.strongRecOn with
  | ind n ih =>
    by_cases hsmall : n < 10
    · rw [Nat.toDigits_of_lt_base hsmall]
      interval_cases n <;> decide
    · have hquotient : 0 < n / 10 := by omega
      have hrest := ih (n / 10) (by omega) hquotient
      rw [Nat.toDigits_of_base_le (by decide) (by omega)]
      cases hlist : Nat.toDigits 10 (n / 10) with
      | nil => exact absurd hlist Nat.toDigits_ne_nil
      | cons c cs =>
        rw [hlist] at hrest
        exact hrest

/-- The text of a natural number is a numeral. -/
theorem isNumeral_toString (n : ℕ) : isNumeral (toString n).toList = true := by
  have hdigits : ∀ c ∈ Nat.toDigits 10 n, c.isDigit = true := by
    intro c hc
    exact Nat.isDigit_of_mem_toDigits (by decide) (by decide) hc
  have htake : (Nat.toDigits 10 n).takeWhile Char.isDigit = Nat.toDigits 10 n :=
    List.takeWhile_eq_self_iff.mpr hdigits
  have hdrop : (Nat.toDigits 10 n).dropWhile Char.isDigit = [] := List.dropWhile_eq_nil_iff.mpr hdigits
  have hunsigned : isUnsigned (Nat.toDigits 10 n) = true := by
    unfold isUnsigned
    dsimp only
    rw [htake, hdrop]
    have hnonempty : (Nat.toDigits 10 n).isEmpty = false := by
      rw [List.isEmpty_eq_false_iff]
      exact Nat.toDigits_ne_nil
    rw [hnonempty]
    rcases Nat.eq_zero_or_pos n with rfl | hpos
    · decide
    · simp [head?_toDigits hpos, isFraction, isExponent]
  rw [toList_toString]
  -- A sign cannot be the first character, since all are digits.
  cases hlist : Nat.toDigits 10 n with
  | nil => exact absurd hlist Nat.toDigits_ne_nil
  | cons c cs =>
    have hc : c ≠ '-' := by
      rintro rfl
      have hdash := hdigits '-' (by rw [hlist]; exact List.mem_cons_self)
      cases hdash
    rw [hlist] at hunsigned
    unfold isNumeral
    split
    · rename_i heq
      exact absurd (List.cons.inj heq).1 hc
    · exact hunsigned

/-- A natural number can be written and read again where its numeral is read as it is written. -/
theorem readable_ofNat {numbers : List Char → Option String} {n : ℕ}
    (h : numbers (toString n).toList = some (toString n)) : (JsonValue.ofNat n).Readable numbers := by
  apply JsonValue.Readable.number
  · intro c hc
    unfold isNumeralChar
    rw [isDigit_of_mem hc]
    rfl
  · exact isNumeral_toString n
  · exact h

end OsAgent.Library
