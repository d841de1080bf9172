import Mathlib.Data.List.Basic
import Mathlib.Data.Nat.ModEq

/-!
# Rotations

A schedule of slots that is gone through again and again. Each turn starts at the cursor, takes the
first slot whose class has a candidate, and leaves the cursor after that slot. `waitFor` is the number
of slots between the cursor and the next slot of a class. A class that has a candidate is not passed
over, so a turn either takes a slot of the class or brings the cursor nearer to one
(`waitFor_next_lt`).
-/

namespace OsAgent.Library

variable {C : Type*} {schedule : List C} {cursor : ℕ} {c : C}

/-- The class of the slot at some distance from the cursor. -/
def slotAt (schedule : List C) (cursor offset : ℕ) : Option C :=
  schedule[(cursor + offset) % schedule.length]?

/-- The cursor after a turn that took the slot at some distance. -/
def nextCursor (schedule : List C) (cursor offset : ℕ) : ℕ :=
  ((cursor + offset) % schedule.length + 1) % schedule.length

/-- The distance of the next slot of a class. -/
def waitFor [DecidableEq C] (schedule : List C) (cursor : ℕ) (c : C) : ℕ :=
  (List.range schedule.length).findIdx fun offset => slotAt schedule cursor offset = some c

/-- The slots after the next cursor are those after the slot that was taken. -/
theorem slotAt_nextCursor (offset offset' : ℕ) :
    slotAt schedule (nextCursor schedule cursor offset) offset' =
      slotAt schedule cursor (offset + 1 + offset') := by
  unfold slotAt nextCursor
  have hslot : (((cursor + offset) % schedule.length + 1) % schedule.length + offset') %
      schedule.length = (cursor + (offset + 1 + offset')) % schedule.length := by
    rw [Nat.mod_add_mod, Nat.add_assoc, Nat.mod_add_mod]
    congr 1
    omega
  rw [hslot]

/-- Every slot of the schedule is at some distance less than its length. -/
theorem exists_slotAt (h : c ∈ schedule) (cursor : ℕ) :
    ∃ offset < schedule.length, slotAt schedule cursor offset = some c := by
  obtain ⟨i, hi, rfl⟩ := List.mem_iff_getElem.mp h
  have hpos : 0 < schedule.length := by omega
  have hmod := Nat.mod_lt cursor hpos
  refine ⟨(i + (schedule.length - cursor % schedule.length)) % schedule.length,
    Nat.mod_lt _ hpos, ?_⟩
  unfold slotAt
  have hslot : (cursor + (i + (schedule.length - cursor % schedule.length)) % schedule.length) %
      schedule.length = i := by
    calc (cursor + (i + (schedule.length - cursor % schedule.length)) % schedule.length) %
          schedule.length
        = (cursor % schedule.length + (i + (schedule.length - cursor % schedule.length))) %
            schedule.length := by rw [Nat.add_mod_mod, Nat.mod_add_mod]
      _ = (i + schedule.length) % schedule.length := by congr 1; omega
      _ = i := by rw [Nat.add_mod_right, Nat.mod_eq_of_lt hi]
  rw [hslot, List.getElem?_eq_getElem hi]

variable [DecidableEq C]

/-- The distance of a slot of the class bounds that of the next one. -/
theorem waitFor_le {offset : ℕ} (h : slotAt schedule cursor offset = some c) :
    waitFor schedule cursor c ≤ offset := by
  by_contra hgt
  have hnot := List.not_of_lt_findIdx (not_le.mp hgt)
  rw [List.getElem_range] at hnot
  simp [h] at hnot

/-- A class of the schedule is reached before the cursor is back. -/
theorem waitFor_lt (h : c ∈ schedule) (cursor : ℕ) :
    waitFor schedule cursor c < schedule.length := by
  obtain ⟨offset, hlt, hslot⟩ := exists_slotAt h cursor
  exact (waitFor_le hslot).trans_lt hlt

/-- The next slot of a class is of that class. -/
theorem slotAt_waitFor (h : c ∈ schedule) (cursor : ℕ) :
    slotAt schedule cursor (waitFor schedule cursor c) = some c := by
  have hlt : waitFor schedule cursor c < (List.range schedule.length).length := by
    rw [List.length_range]
    exact waitFor_lt h cursor
  have hfound := List.findIdx_getElem (w := hlt)
  rw [decide_eq_true_eq] at hfound
  exact (congrArg (slotAt schedule cursor) (List.getElem_range hlt)).symm.trans hfound

/-- A turn that takes a slot before the next one of a class brings the cursor nearer to it. -/
theorem waitFor_next_lt (h : c ∈ schedule) {offset : ℕ}
    (hoffset : offset < waitFor schedule cursor c) :
    waitFor schedule (nextCursor schedule cursor offset) c < waitFor schedule cursor c := by
  have hlt := waitFor_lt h cursor
  have hslot : slotAt schedule (nextCursor schedule cursor offset)
      (waitFor schedule cursor c - (offset + 1)) = some c := by
    rw [slotAt_nextCursor, ← slotAt_waitFor h cursor]
    congr 1
    omega
  have hle := waitFor_le hslot
  omega

end OsAgent.Library
