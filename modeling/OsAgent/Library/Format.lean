import OsAgent.Library.Check
import OsAgent.Library.JsonTree

/-!
# Formats of JSON data

A `Format` writes data of a type as JSON, and reads them from a value that may be missing, at a path that the
errors name. It carries its laws: what is valid is read as it was written, and what is read is valid. The
combinators build formats of lists from formats of their items.
-/

namespace OsAgent.Library

variable {α β : Type}

/-! ## Reading on -/

/-- What returned goes on with its value. -/
@[simp]
theorem ok_bind (a : α) (f : α → Except String β) : (Except.ok a >>= f) = f a := rfl

/-- What returned is changed. -/
@[simp]
theorem map_ok (a : α) (f : α → β) : f <$> (Except.ok a : Except String α) = .ok (f a) := rfl

/-- To return a value is to succeed with it. -/
@[simp]
theorem pure_ok (a : α) : (pure a : Except String α) = .ok a := rfl

/-! ## Formats -/

/-- How data are written, and read again. -/
structure Format (α : Type) where
  write : α → JsonValue
  /-- A value that is missing is `none`. -/
  read : String → Option JsonValue → Except String α
  Valid : α → Prop
  read_write : ∀ {a}, Valid a → ∀ path, read path (some (write a)) = .ok a
  valid_of_read : ∀ {path v a}, read path v = .ok a → Valid a

/-- The path of an item of an array. -/
def itemPath (path : String) (i : ℕ) : String := path ++ "[" ++ toString i ++ "]"

/-- The items of an array from the `i`-th on, each at its path. -/
def readEach (read : String → Option JsonValue → Except String α) (path : String) :
    ℕ → List JsonValue → Except String (List α)
  | _, [] => .ok []
  | i, v :: vs => do
    let a ← read (itemPath path i) (some v)
    let others ← readEach read path (i + 1) vs
    pure (a :: others)

namespace Format

/-- A text. -/
def text : Format String where
  write := .string
  read path v :=
    match v with
    | some (.string s) => .ok s
    | _ => .error (path ++ " must be a string.")
  Valid _ := True
  read_write _ _ := rfl
  valid_of_read _ := trivial

variable (f : Format α)

/-- Data that may be missing. -/
def readOptional (path : String) : Option JsonValue → Except String (Option α)
  | none => .ok none
  | some v => some <$> f.read path (some v)

variable {f} {path : String}

/-- A list that was written is read item by item. -/
theorem readEach_write {l : List α} (h : ∀ a ∈ l, f.Valid a) (i : ℕ) :
    readEach f.read path i (l.map f.write) = .ok l := by
  induction l generalizing i with
  | nil => rfl
  | cons a l ih =>
    obtain ⟨ha, hl⟩ := List.forall_mem_cons.mp h
    rw [List.map_cons]
    unfold readEach
    rw [f.read_write ha, ih hl]
    rfl

/-- Every item that is read is valid, and none is dropped. -/
theorem valid_of_readEach {vs : List JsonValue} {i : ℕ} {l : List α}
    (h : readEach f.read path i vs = .ok l) : (∀ a ∈ l, f.Valid a) ∧ l.length = vs.length := by
  induction vs generalizing i l with
  | nil =>
    cases h
    exact ⟨fun _ ha => (by cases ha), rfl⟩
  | cons v vs ih =>
    unfold readEach at h
    obtain ⟨a, ha, h⟩ := bind_eq_ok.mp h
    obtain ⟨others, hothers, h⟩ := bind_eq_ok.mp h
    cases h
    obtain ⟨hvalid, hlength⟩ := ih hothers
    exact ⟨List.forall_mem_cons.mpr ⟨f.valid_of_read ha, hvalid⟩, congrArg Nat.succ hlength⟩

/-- A value that may be missing is read as it was written. -/
theorem readOptional_write {a : Option α} (h : ∀ x ∈ a, f.Valid x) :
    f.readOptional path (a.map f.write) = .ok a := by
  cases a with
  | none => rfl
  | some a =>
    show some <$> f.read path (some (f.write a)) = .ok (some a)
    rw [f.read_write (h a rfl)]
    rfl

/-- What is read where a value may be missing is valid. -/
theorem valid_of_readOptional {v : Option JsonValue} {a : Option α}
    (h : f.readOptional path v = .ok a) : ∀ x ∈ a, f.Valid x := by
  cases v with
  | none =>
    cases h
    exact fun _ hx => (by cases hx)
  | some v =>
    obtain ⟨a, ha, rfl⟩ := map_eq_ok.mp h
    rintro x hx
    cases hx
    exact f.valid_of_read ha

variable (f)

/-- A list that is not empty. -/
def nonempty : Format (List α) where
  write l := .array (l.map f.write)
  read path v :=
    match v with
    | some (.array (v :: vs)) => readEach f.read path 0 (v :: vs)
    | _ => .error (path ++ " must be a non-empty array.")
  Valid l := l ≠ [] ∧ ∀ a ∈ l, f.Valid a
  read_write := by
    rintro l ⟨hne, hl⟩ path
    cases l with
    | nil => exact absurd rfl hne
    | cons a l => exact readEach_write hl 0
  valid_of_read := by
    intro path v l h
    split at h
    · obtain ⟨hvalid, hlength⟩ := valid_of_readEach h
      refine ⟨?_, hvalid⟩
      rintro rfl
      cases hlength
    · cases h

end Format

/-- The text of an item that is a text. -/
def textsOf? : List JsonValue → Option (List String)
  | [] => some []
  | .string s :: vs => (textsOf? vs).map (s :: ·)
  | _ => none

/-- Texts are read back from a list. -/
theorem textsOf?_map (l : List String) : textsOf? (l.map .string) = some l := by
  induction l with
  | nil => rfl
  | cons s l ih =>
    rw [List.map_cons]
    unfold textsOf?
    rw [ih]
    rfl

/-- A list of texts. -/
def Format.texts : Format (List String) where
  write := .strings
  read path v :=
    match v with
    | some (.array items) =>
      match textsOf? items with
      | some l => .ok l
      | none => .error (path ++ " must be an array of strings.")
    | _ => .error (path ++ " must be an array of strings.")
  Valid _ := True
  read_write _ path := by
    unfold JsonValue.strings
    dsimp only
    rw [textsOf?_map]
  valid_of_read _ := trivial

/-! ## Objects -/

/-- The properties of an object, of which some may be left out. -/
def members : List (String × Option JsonValue) → List (String × JsonValue)
  | [] => []
  | (name, value) :: ms => JsonValue.optional name value ++ members ms

/-- An object, or the error that it is none. -/
def requireObject (path : String) : Option JsonValue → Except String (List (String × JsonValue))
  | some (.object ps) => .ok ps
  | _ => .error (path ++ " must be a JSON object.")

section Objects

variable {key name : String} {value : Option JsonValue} {ms : List (String × Option JsonValue)}

/-- There is no property among no members. -/
@[simp]
theorem property?_members_nil : property? key (members []) = none := rfl

/-- A property is found where it is, and passed where it is not. -/
@[simp]
theorem property?_members_cons : property? key (members ((name, value) :: ms)) =
    if name = key then value.or (property? key (members ms)) else property? key (members ms) := by
  show property? key (JsonValue.optional name value ++ members ms) = _
  cases value with
  | none =>
    show property? key (members ms) = _
    split_ifs <;> rfl
  | some v => exact property?_cons (name, v) (members ms)

/-- The names of the properties are among those of the members, in the same order. -/
theorem keysOf_members_sublist (ms : List (String × Option JsonValue)) :
    (keysOf (members ms)).Sublist (ms.map Prod.fst) := by
  induction ms with
  | nil => exact .slnil
  | cons m ms ih =>
    obtain ⟨name, value⟩ := m
    cases value with
    | none => exact ih.cons name
    | some v => exact ih.cons_cons name

/-- A property that was written is a member with a value. -/
theorem mem_of_mem_members {p : String × JsonValue} (h : p ∈ members ms) : (p.1, some p.2) ∈ ms := by
  induction ms with
  | nil => cases h
  | cons m ms ih =>
    obtain ⟨name, value⟩ := m
    rcases List.mem_append.mp h with hfirst | hrest
    · cases value with
      | none => cases hfirst
      | some v =>
        obtain rfl := List.mem_singleton.mp hfirst
        exact List.mem_cons_self
    · exact List.mem_cons_of_mem _ (ih hrest)

/-- An object is readable if its members have different names and readable values. -/
theorem readable_members {numbers : List Char → Option String} (hnodup : (ms.map Prod.fst).Nodup)
    (h : ∀ m ∈ ms, ∀ v ∈ m.2, v.Readable numbers) : (JsonValue.object (members ms)).Readable numbers := by
  refine .object (hnodup.sublist (keysOf_members_sublist ms)) fun p hp => ?_
  exact h _ (mem_of_mem_members hp) p.2 rfl

end Objects

end OsAgent.Library
