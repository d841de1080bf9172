import Mathlib.Algebra.Order.Archimedean.Basic
import Mathlib.Data.Rat.Floor
import Mathlib.Tactic.Linarith

/-!
# Numbers that a caller may set

A limit is a number that somebody else has chosen. Its type does not keep it from being infinite, or
from being no number at all, and no comparison holds of what is no number. `Number` has these values
next to the exact ones.

A loop that counts up to a limit asks before each step whether the limit has been reached.
`Number.Unreached` is what holds of the count whatever the limit is, and `Number.unreached_iff_le` says
for which limits it means that the count does not exceed the limit.
-/

namespace OsAgent.Library

/-- An exact number, or one of the three values that are none. -/
inductive Number where
  | finite (value : ℚ)
  | posInfinity
  | negInfinity
  | nan
deriving DecidableEq, Repr

namespace Number

variable {a b c limit : Number} {p q : ℚ} {n : ℕ}

/-- The comparison `<=`. -/
def leq : Number → Number → Bool
  | .finite a, .finite b => a ≤ b
  | .negInfinity, .negInfinity => true
  | .negInfinity, .finite _ => true
  | .negInfinity, .posInfinity => true
  | .finite _, .posInfinity => true
  | .posInfinity, .posInfinity => true
  | _, _ => false

/-- The comparison `<`. -/
def less : Number → Number → Bool
  | .finite a, .finite b => a < b
  | .negInfinity, .finite _ => true
  | .negInfinity, .posInfinity => true
  | .finite _, .posInfinity => true
  | _, _ => false

instance : LE Number where
  le a b := a.leq b = true

instance : LT Number where
  lt a b := a.less b = true

instance : DecidableRel ((· ≤ ·) : Number → Number → Prop) :=
  fun a b => inferInstanceAs (Decidable (a.leq b = true))

instance : DecidableRel ((· < ·) : Number → Number → Prop) :=
  fun a b => inferInstanceAs (Decidable (a.less b = true))

/-- Exact numbers are compared as they are. -/
@[simp]
theorem finite_le_finite : finite p ≤ finite q ↔ p ≤ q := decide_eq_true_iff

/-- Exact numbers are compared as they are. -/
@[simp]
theorem finite_lt_finite : finite p < finite q ↔ p < q := decide_eq_true_iff

/-- No exact number exceeds an infinite one. -/
@[simp]
theorem finite_le_posInfinity : finite q ≤ posInfinity := rfl

/-- An infinite number is not reached. -/
@[simp]
theorem not_posInfinity_le : ¬ posInfinity ≤ finite q := Bool.false_ne_true

/-- A negative infinity is below every exact number. -/
@[simp]
theorem negInfinity_le : negInfinity ≤ finite q := rfl

/-- An infinite number is less than nothing. -/
@[simp]
theorem not_posInfinity_lt : ¬ posInfinity < a := by
  cases a <;> exact Bool.false_ne_true

/-- What is no number is less than nothing. -/
@[simp]
theorem not_nan_lt : ¬ nan < a := by
  cases a <;> exact Bool.false_ne_true

/-- The comparison is transitive, although it is not an order. -/
theorem le_trans (hab : a ≤ b) (hbc : b ≤ c) : a ≤ c := by
  cases a <;> cases b <;> cases c <;> first
    | exact absurd hab Bool.false_ne_true
    | exact absurd hbc Bool.false_ne_true
    | rfl
    | skip
  rw [finite_le_finite] at *
  exact hab.trans hbc

/-- What is less is not greater. -/
theorem le_of_lt (h : a < b) : a ≤ b := by
  cases a <;> cases b <;> first
    | exact absurd h Bool.false_ne_true
    | rfl
    | skip
  rw [finite_lt_finite] at h
  exact finite_le_finite.mpr h.le

/-- What exceeds a limit exceeds it still when it grows. -/
theorem lt_of_lt_of_le (h : limit < finite p) (hle : p ≤ q) : limit < finite q := by
  cases limit with
  | finite x => exact finite_lt_finite.mpr ((finite_lt_finite.mp h).trans_le hle)
  | posInfinity => exact absurd h not_posInfinity_lt
  | negInfinity => rfl
  | nan => exact absurd h not_nan_lt

/-- Not to exceed a limit is to be no greater, if the limit is a number at all. -/
theorem not_lt_iff_le (h : limit ≠ nan) : ¬ limit < finite q ↔ finite q ≤ limit := by
  cases limit with
  | finite x => rw [finite_lt_finite, finite_le_finite, not_lt]
  | posInfinity => exact ⟨fun _ => finite_le_posInfinity, fun _ => not_posInfinity_lt⟩
  | negInfinity => exact ⟨fun h' => absurd rfl h', fun h' => absurd h' Bool.false_ne_true⟩
  | nan => exact absurd rfl h

/-! ## Counting up to a limit -/

/-- Counting up to this number, the limit was never found to be reached. -/
def Unreached (limit : Number) (n : ℕ) : Prop := ∀ m < n, ¬ limit ≤ finite m

/-- The limits that are exact for counting: the whole numbers, and the infinite one. -/
def Whole : Number → Prop
  | .finite q => q.den = 1
  | .posInfinity => True
  | _ => False

instance : DecidablePred Whole
  | .finite q => inferInstanceAs (Decidable (q.den = 1))
  | .posInfinity => isTrue trivial
  | .negInfinity => isFalse id
  | .nan => isFalse id

/-- Nothing was counted. -/
theorem unreached_zero : limit.Unreached 0 := fun m hm => absurd hm (Nat.not_lt_zero m)

/-- A smaller number is counted on the way. -/
theorem Unreached.of_le {m : ℕ} (h : limit.Unreached n) (hle : m ≤ n) : limit.Unreached m :=
  fun k hk => h k (hk.trans_le hle)

/-- A step that is made because the limit is not reached. -/
theorem unreached_succ (h : ¬ limit ≤ finite n) : limit.Unreached (n + 1) := by
  intro m hm hreached
  have hle : finite m ≤ finite n :=
    finite_le_finite.mpr (Nat.cast_le.mpr (Nat.lt_succ_iff.mp hm))
  exact h (le_trans hreached hle)

/-- Under a limit that is exact for counting, a count for which it was never found to be reached does
not exceed it. -/
theorem unreached_iff_le (hwhole : limit.Whole) (hpos : ¬ limit ≤ finite 0) :
    limit.Unreached n ↔ finite n ≤ limit := by
  cases limit with
  | finite q =>
    rw [finite_le_finite, not_le] at hpos
    have hq : (q.num : ℚ) = q := (Rat.den_eq_one_iff q).mp hwhole
    rw [finite_le_finite]
    constructor
    · intro h
      cases n with
      | zero => exact_mod_cast hpos.le
      | succ m =>
        -- The last number that was counted is less than the limit, which is a whole number.
        have hlast := h m (Nat.lt_succ_self m)
        rw [finite_le_finite, not_le, ← hq] at hlast
        have hlt : (m : ℤ) < q.num := by exact_mod_cast hlast
        rw [← hq]
        exact_mod_cast hlt
    · intro h m hm
      rw [finite_le_finite, not_le]
      calc (m : ℚ) < n := Nat.cast_lt.mpr hm
        _ ≤ q := h
  | posInfinity => exact ⟨fun _ => finite_le_posInfinity, fun _ m _ => not_posInfinity_le⟩
  | negInfinity => exact hwhole.elim
  | nan => exact hwhole.elim

end Number

end OsAgent.Library
