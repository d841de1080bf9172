import Mathlib.Data.Nat.Notation
import Mathlib.Algebra.Group.Nat.Defs

/-!
# Values of the source language

The parts of the source language's standard library that its input checks rest on: which characters
`trim` strips, which numbers `Number.isSafeInteger` accepts, and the length of a text in bytes.
Numbers are natural numbers here. A check that accepts only positive safe integers rejects every
other number as it rejects zero.
-/

namespace OsAgent.Library

/-- The characters that `String.prototype.trim` strips: white space and line terminators. -/
def isTrimmed (c : Char) : Bool :=
  let n := c.toNat
  (0x9 ≤ n && n ≤ 0xD) || n = 0x20 || n = 0xA0 || n = 0x1680 || (0x2000 ≤ n && n ≤ 0x200A) ||
    n = 0x2028 || n = 0x2029 || n = 0x202F || n = 0x205F || n = 0x3000 || n = 0xFEFF

/-- Whether `trim` leaves nothing of a text. -/
def isBlank (s : String) : Bool := s.toList.all isTrimmed

/-- `Number.MAX_SAFE_INTEGER`. -/
def maxSafeInteger : ℕ := 2 ^ 53 - 1

/-- `Number.isSafeInteger(value) && value > 0`. -/
def isPositiveInteger (n : ℕ) : Bool := 0 < n && n ≤ maxSafeInteger

/-- How many UTF-16 code units a character takes. -/
def utf16Length (c : Char) : ℕ := if c.toNat < 0x10000 then 1 else 2

/-- The characters within the first `limit` code units. The first half of a pair that is cut off
is no character, and stands as the replacement character. -/
def takeUtf16 : List Char → ℕ → List Char
  | [], _ => []
  | _ :: _, 0 => []
  | c :: cs, limit + 1 =>
    if utf16Length c ≤ limit + 1 then c :: takeUtf16 cs (limit + 1 - utf16Length c)
    else ['\uFFFD']

/-- `value.slice(0, limit)`. -/
def sliceUtf16 (value : String) (limit : ℕ) : String := String.ofList (takeUtf16 value.toList limit)

end OsAgent.Library
