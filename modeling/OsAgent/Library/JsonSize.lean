import Mathlib.Algebra.BigOperators.Group.List.Basic
import Mathlib.Data.List.Perm.Basic
import Mathlib.Tactic.IntervalCases
import OsAgent.Library.Json
import OsAgent.Library.Script

/-!
# How long the text of JSON data is

The bytes of an object are those of its properties and one more, whatever their order
(`jsonSize_object`), and the bytes of an array are those of its items in the same way (`jsonSize_array`).
A text within JSON data takes six bytes at most for every code unit (`textSize_le`).
-/

namespace OsAgent.Library

/-- The empty text has no bytes. -/
@[simp]
theorem byteLength_nil : byteLength [] = 0 := by
  unfold byteLength
  rfl

/-- The bytes of a text are those of its first character and of the rest. -/
@[simp]
theorem byteLength_cons (c : Char) (text : List Char) :
    byteLength (c :: text) = c.utf8Size + byteLength text := by
  unfold byteLength
  rw [List.map_cons, List.sum_cons]

/-- The bytes of two texts add up. -/
@[simp]
theorem byteLength_append (left right : List Char) :
    byteLength (left ++ right) = byteLength left + byteLength right := by
  unfold byteLength
  rw [List.map_append, List.sum_append]

/-- `Buffer.byteLength(JSON.stringify(value))`. -/
def jsonSize (value : JsonValue) : ℕ := byteLength (stringify value)

/-- The bytes of a text within JSON data, with its quotes. -/
def textSize (s : String) : ℕ := byteLength (quote s)

/-- The bytes of a property, with its colon and a comma. -/
def propertySize (p : String × JsonValue) : ℕ := textSize p.1 + jsonSize p.2 + 2

/-- The size of a text value is that of its quoted text. -/
theorem jsonSize_string (s : String) : jsonSize (.string s) = textSize s := by
  unfold jsonSize textSize stringify
  rfl

/-- The bytes of the further properties add up. -/
theorem byteLength_moreProperties (ps : List (String × JsonValue)) :
    byteLength (moreProperties ps) = (ps.map propertySize).sum := by
  induction ps with
  | nil =>
    unfold moreProperties
    exact byteLength_nil
  | cons p ps ih =>
    obtain ⟨k, v⟩ := p
    unfold moreProperties
    rw [List.map_cons, List.sum_cons, ← ih]
    unfold propertySize textSize jsonSize
    rw [byteLength_cons, byteLength_append, byteLength_cons, byteLength_append]
    have hcomma : (',').utf8Size = 1 := by decide
    have hcolon : (':').utf8Size = 1 := by decide
    dsimp only
    omega

/-- The bytes of an object are those of its properties, and one more. -/
theorem jsonSize_object {ps : List (String × JsonValue)} (h : ps ≠ []) :
    jsonSize (.object ps) = (ps.map propertySize).sum + 1 := by
  cases ps with
  | nil => exact absurd rfl h
  | cons p ps =>
    obtain ⟨k, v⟩ := p
    rw [List.map_cons, List.sum_cons, ← byteLength_moreProperties]
    show byteLength (stringify (.object ((k, v) :: ps))) = _
    rw [stringify]
    unfold propertySize textSize jsonSize
    simp only [byteLength_cons, byteLength_append, byteLength_nil]
    have hopen : ('\x7b').utf8Size = 1 := by decide
    have hclose : ('\x7d').utf8Size = 1 := by decide
    have hcolon : (':').utf8Size = 1 := by decide
    omega

/-- The order of the properties does not count. -/
theorem jsonSize_object_perm {ps qs : List (String × JsonValue)} (h : ps.Perm qs) :
    jsonSize (.object ps) = jsonSize (.object qs) := by
  by_cases hps : ps = []
  · rw [hps] at h ⊢
    rw [h.nil_eq]
  · have hqs : qs ≠ [] := fun hnil => hps (List.perm_nil.mp (hnil ▸ h))
    rw [jsonSize_object hps, jsonSize_object hqs, (h.map propertySize).sum_eq]

/-- The bytes of the further items add up, each with its comma. -/
theorem byteLength_moreItems (vs : List JsonValue) :
    byteLength (moreItems vs) = (vs.map fun v => jsonSize v + 1).sum := by
  induction vs with
  | nil =>
    unfold moreItems
    exact byteLength_nil
  | cons v vs ih =>
    unfold moreItems
    rw [List.map_cons, List.sum_cons, ← ih]
    unfold jsonSize
    rw [byteLength_cons, byteLength_append]
    have hcomma : (',').utf8Size = 1 := by decide
    omega

/-- The bytes of an array are those of its items with a comma each, and one more. -/
theorem jsonSize_array {vs : List JsonValue} (h : vs ≠ []) :
    jsonSize (.array vs) = (vs.map fun v => jsonSize v + 1).sum + 1 := by
  cases vs with
  | nil => exact absurd rfl h
  | cons v vs =>
    rw [List.map_cons, List.sum_cons, ← byteLength_moreItems]
    show byteLength (stringify (.array (v :: vs))) = _
    rw [stringify]
    unfold jsonSize
    simp only [byteLength_cons, byteLength_append, byteLength_nil]
    have hopen : ('[').utf8Size = 1 := by decide
    have hclose : (']').utf8Size = 1 := by decide
    omega

/-! ## Texts -/

/-- The size of a text is that of its escaped characters and the quotes. -/
theorem textSize_eq (s : String) : textSize s = byteLength (s.toList.flatMap quoteChar) + 2 := by
  unfold textSize quote
  simp only [byteLength_cons, byteLength_append, byteLength_nil]
  have hquote : ('"').utf8Size = 1 := by decide
  omega

/-- A digit of a character below 256 is one byte. -/
theorem utf8Size_digitChar {n : ℕ} (h : n < 16) : (Nat.digitChar n).utf8Size = 1 := by
  interval_cases n <;> rfl

/-- A character takes six bytes at most for each of its code units. -/
theorem byteLength_quoteChar_le (c : Char) : byteLength (quoteChar c) ≤ 6 * utf16Length c := by
  have hunits : 1 ≤ utf16Length c := by
    unfold utf16Length
    split_ifs <;> omega
  have hsize := c.utf8Size_le_four
  unfold quoteChar
  -- A character is escaped with a backslash, in a short form, by its code, or written as it is.
  split_ifs with hquoted _ _ _ _ _ hcontrol
  · have hbackslash : ('\\').utf8Size = 1 := by decide
    have hone : c.utf8Size = 1 := by
      rcases hquoted with rfl | rfl <;> decide
    simp only [byteLength_cons, byteLength_nil]
    omega
  · have htwo : byteLength ['\\', 'b'] = 2 := by decide +kernel
    omega
  · have htwo : byteLength ['\\', 't'] = 2 := by decide +kernel
    omega
  · have htwo : byteLength ['\\', 'n'] = 2 := by decide +kernel
    omega
  · have htwo : byteLength ['\\', 'f'] = 2 := by decide +kernel
    omega
  · have htwo : byteLength ['\\', 'r'] = 2 := by decide +kernel
    omega
  · have hbackslash : ('\\').utf8Size = 1 := by decide
    have hu : ('u').utf8Size = 1 := by decide
    have hzero : ('0').utf8Size = 1 := by decide
    have hhigh := utf8Size_digitChar (n := c.toNat / 16) (by omega)
    have hlow := utf8Size_digitChar (n := c.toNat % 16) (by omega)
    simp only [byteLength_cons, byteLength_nil]
    omega
  · simp only [byteLength_cons, byteLength_nil]
    omega

/-- A text takes six bytes at most for each of its code units. -/
theorem textSize_le (s : String) : textSize s ≤ 6 * (s.toList.map utf16Length).sum + 2 := by
  rw [textSize_eq]
  generalize s.toList = text
  induction text with
  | nil =>
    rw [List.flatMap_nil, byteLength_nil]
    omega
  | cons c text ih =>
    rw [List.flatMap_cons, byteLength_append, List.map_cons, List.sum_cons]
    have hc := byteLength_quoteChar_le c
    omega

/-- The bytes of the characters of a text are those of the text. -/
theorem byteLength_toList (s : String) : byteLength s.toList = s.utf8ByteSize := by
  have hlist : ∀ text : List Char, byteLength text = (String.ofList text).utf8ByteSize := by
    intro text
    induction text with
    | nil => exact byteLength_nil
    | cons c text ih =>
      rw [byteLength_cons, ih, ← List.singleton_append, String.ofList_append, String.utf8ByteSize_append,
        ← String.singleton_eq_ofList, String.utf8ByteSize_singleton]
  rw [hlist, String.ofList_toList]

/-- A text takes twelve bytes at most for each of its bytes. -/
theorem textSize_le_utf8ByteSize (s : String) : textSize s ≤ 12 * s.utf8ByteSize + 2 := by
  rw [textSize_eq, ← byteLength_toList]
  generalize s.toList = text
  induction text with
  | nil => rw [List.flatMap_nil, byteLength_nil]
  | cons c text ih =>
    have hc := byteLength_quoteChar_le c
    have hunits : utf16Length c ≤ 2 := by
      unfold utf16Length
      split_ifs <;> omega
    have hpos := c.utf8Size_pos
    rw [List.flatMap_cons, byteLength_append, byteLength_cons]
    omega

/-- A text without characters that are escaped takes a byte for each of its characters, if each of them
takes one. -/
theorem textSize_of_plain {s : String} (h : ∀ c ∈ s.toList, quoteChar c = [c] ∧ c.utf8Size = 1) :
    textSize s = s.toList.length + 2 := by
  rw [textSize_eq]
  congr 1
  revert h
  generalize s.toList = text
  intro h
  induction text with
  | nil => exact byteLength_nil
  | cons c text ih =>
    obtain ⟨hquote, hsize⟩ := h c List.mem_cons_self
    have hrest := ih fun c hc => h c (List.mem_cons_of_mem _ hc)
    rw [List.flatMap_cons, byteLength_append, hquote, hrest, byteLength_cons, byteLength_nil, hsize,
      List.length_cons]
    omega

/-- The check of a given text, in the form that computes. -/
theorem textSize_of_forall {s : String}
    (h : s.toList.Forall fun c => quoteChar c = [c] ∧ c.utf8Size = 1) :
    textSize s = s.toList.length + 2 :=
  textSize_of_plain (List.forall_iff_forall_mem.mp h)

end OsAgent.Library
