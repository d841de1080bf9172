import Mathlib.Data.List.Infix

/-!
# Where a part occurs in a text

A part occurs at a position of a text when the text goes on with it from there. Occurrences may
overlap. `indexOf` finds the first occurrence from a position on, as `String.prototype.indexOf` does
for a part that is not empty.
-/

namespace OsAgent.Library

variable {α : Type*}

/-- The text goes on with the part from this position. -/
def OccursAt (part text : List α) (i : ℕ) : Prop := part <+: text.drop i

instance [DecidableEq α] (part text : List α) (i : ℕ) : Decidable (OccursAt part text i) :=
  inferInstanceAs (Decidable (_ <+: _))

/-- `text.indexOf(part, start)`. -/
def indexOf [DecidableEq α] (part text : List α) (start : ℕ) : Option ℕ :=
  (List.range (text.length + 1)).find? fun i => start ≤ i ∧ OccursAt part text i

/-- The text with something else in the place of what occurs at a position. -/
def replaceAt (text part replacement : List α) (i : ℕ) : List α :=
  text.take i ++ replacement ++ text.drop (i + part.length)

variable {part text : List α} {start i : ℕ}

/-- A part that is not empty occurs within the text. -/
theorem OccursAt.lt_length (h : OccursAt part text i) (hpart : part ≠ []) : i < text.length := by
  have hlength := List.IsPrefix.length_le h
  rw [List.length_drop] at hlength
  have hpos := List.length_pos_iff.mpr hpart
  omega

variable [DecidableEq α]

/-- What is found is the first occurrence from the start on. -/
theorem indexOf_eq_some : indexOf part text start = some i ↔
    i ≤ text.length ∧ start ≤ i ∧ OccursAt part text i ∧
      ∀ j, start ≤ j → j < i → ¬ OccursAt part text j := by
  unfold indexOf
  rw [List.find?_range_eq_some]
  simp only [decide_eq_true_eq, Bool.not_eq_true', decide_eq_false_iff_not, List.mem_range,
    Nat.lt_succ_iff, not_and]
  constructor
  · rintro ⟨⟨hstart, hoccurs⟩, hle, hbefore⟩
    exact ⟨hle, hstart, hoccurs, fun j hj hlt => hbefore j hlt hj⟩
  · rintro ⟨hle, hstart, hoccurs, hbefore⟩
    exact ⟨⟨hstart, hoccurs⟩, hle, fun j hlt hj => hbefore j hj hlt⟩

/-- Nothing is found exactly if there is no occurrence from the start on. -/
theorem indexOf_eq_none (hpart : part ≠ []) :
    indexOf part text start = none ↔ ∀ j, start ≤ j → ¬ OccursAt part text j := by
  unfold indexOf
  rw [List.find?_eq_none]
  simp only [List.mem_range, decide_eq_true_eq, not_and]
  constructor
  · intro h j hj hoccurs
    have hlt := hoccurs.lt_length hpart
    exact h j (by omega) hj hoccurs
  · intro h j _ hj
    exact h j hj

end OsAgent.Library
