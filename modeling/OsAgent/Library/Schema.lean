import Mathlib.Data.Nat.Notation
import OsAgent.Library.Json

/-!
# Reading JSON data by a schema

The parts of which schemas of JSON data are made: each one reads a value, or finds that it has not the form.
-/

namespace OsAgent.Library

/-- An object without keys other than these. -/
def strictObject (keys : List String) : JsonValue → Option JsonValue
  | .object ps => if ps.all fun p => p.1 ∈ keys then some (.object ps) else none
  | _ => none

/-- What a schema reads of a property that must be there. -/
def field {α : Type} (name : String) (item : JsonValue → Option α) (value : JsonValue) : Option α :=
  (value.get? name).bind item

/-- A text that is not empty. -/
def nonemptyText (value : JsonValue) : Option String := value.asString?.filter (· ≠ "")

/-- An array of any length. -/
def arrayOf {α : Type} (item : JsonValue → Option α) : JsonValue → Option (List α)
  | .array items => items.mapM item
  | _ => none

/-- An array whose length is within bounds. -/
def boundedArray {α : Type} (min max : ℕ) (item : JsonValue → Option α) : JsonValue → Option (List α)
  | .array items => if min ≤ items.length ∧ items.length ≤ max then items.mapM item else none
  | _ => none

section

variable {α β : Type} {item : JsonValue → Option β} {toJson : α → JsonValue}

/-- A text that is not empty is read as itself. -/
@[simp]
theorem nonemptyText_string {s : String} (h : s ≠ "") : nonemptyText (.string s) = some s := by
  simp [nonemptyText, JsonValue.asString?, h]

/-- An array is read item by item. -/
theorem arrayOf_map {f : α → β} {l : List α} (h : ∀ a ∈ l, item (toJson a) = some (f a)) :
    arrayOf item (.array (l.map toJson)) = some (l.map f) := by
  unfold arrayOf
  dsimp only
  induction l with
  | nil => rfl
  | cons a l ih =>
    have ih := ih fun b hb => h b (List.mem_cons_of_mem _ hb)
    rw [List.map_cons, List.mapM_cons, h a List.mem_cons_self, ih]
    rfl

end

end OsAgent.Library
