import Mathlib.Tactic.Common
import Mathlib.Algebra.GroupWithZero.Nat

/-!
# JSON data and its text

`JSON.stringify` on JSON data, and how many bytes of UTF-8 the text has. A number is given by the
text that the language writes for it, and an object lists its properties in the order in which they
are enumerated. `JsonValue` leaves out what is not JSON data: values that are undefined, the numbers
that are not finite, and texts with half of a surrogate pair.
-/

namespace OsAgent.Library

/-- JSON data. -/
inductive JsonValue where
  | null
  | boolean (b : Bool)
  | number (literal : String)
  | string (s : String)
  | array (items : List JsonValue)
  | object (properties : List (String × JsonValue))
deriving Repr

/-- The text of a number says which one it is. -/
theorem toString_inj {n m : ℕ} (h : toString n = toString m) : n = m := by
  have hdigits : Nat.toDigits 10 n = Nat.toDigits 10 m := by
    have hlists := congrArg String.toList h
    simpa using hlists
  rw [← Nat.ofDigitChars_ten_toDigits (n := n), hdigits, Nat.ofDigitChars_ten_toDigits]

namespace JsonValue

/-- An integer is written in decimal. -/
def ofNat (n : ℕ) : JsonValue := .number (toString n)

/-- A text or `null`. -/
def ofString? : Option String → JsonValue
  | none => .null
  | some s => .string s

/-- A list of texts. -/
def strings (l : List String) : JsonValue := .array (l.map .string)

/-- The value of a property of an object. -/
def get? (name : String) : JsonValue → Option JsonValue
  | .object properties => (properties.find? fun p => p.1 = name).map Prod.snd
  | _ => none

/-- A value that is a text. -/
def asString? : JsonValue → Option String
  | .string s => some s
  | _ => none

/-- The items of an array. -/
def items : JsonValue → List JsonValue
  | .array items => items
  | _ => []

/-- A property that is left out when there is no value. -/
def optional (name : String) (value : Option JsonValue) : List (String × JsonValue) :=
  value.toList.map fun v => (name, v)

end JsonValue

/-! ## Writing -/

/-- How `JSON.stringify` writes a character within a text. -/
def quoteChar (c : Char) : List Char :=
  if c = '"' ∨ c = '\\' then ['\\', c]
  else if c.toNat = 0x8 then ['\\', 'b']
  else if c.toNat = 0x9 then ['\\', 't']
  else if c.toNat = 0xA then ['\\', 'n']
  else if c.toNat = 0xC then ['\\', 'f']
  else if c.toNat = 0xD then ['\\', 'r']
  else if c.toNat < 0x20 then
    ['\\', 'u', '0', '0', Nat.digitChar (c.toNat / 16), Nat.digitChar (c.toNat % 16)]
  else [c]

/-- How `JSON.stringify` writes a text. -/
def quote (s : String) : List Char := '"' :: (s.toList.flatMap quoteChar ++ ['"'])

mutual

/-- `JSON.stringify`, as the characters of the text. -/
def stringify : JsonValue → List Char
  | .null => ['n', 'u', 'l', 'l']
  | .boolean true => ['t', 'r', 'u', 'e']
  | .boolean false => ['f', 'a', 'l', 's', 'e']
  | .number literal => literal.toList
  | .string s => quote s
  | .array [] => ['[', ']']
  | .array (v :: vs) => '[' :: (stringify v ++ (moreItems vs ++ [']']))
  | .object [] => ['\x7b', '\x7d']
  | .object ((k, v) :: ps) =>
    '\x7b' :: (quote k ++ (':' :: (stringify v ++ (moreProperties ps ++ ['\x7d']))))

/-- The items after the first one. -/
def moreItems : List JsonValue → List Char
  | [] => []
  | v :: vs => ',' :: (stringify v ++ moreItems vs)

/-- The properties after the first one. -/
def moreProperties : List (String × JsonValue) → List Char
  | [] => []
  | (k, v) :: ps => ',' :: (quote k ++ (':' :: (stringify v ++ moreProperties ps)))

end

/-- `Buffer.byteLength` of a text given by its characters, in UTF-8. -/
@[irreducible]
def byteLength (text : List Char) : ℕ := (text.map Char.utf8Size).sum

example : String.ofList (stringify
      (.object [("a", .array [.null, .ofNat 12]), ("b", .string "\n\"x\"")])) =
    "\x7b\"a\":[null,12],\"b\":\"\\n\\\"x\\\"\"\x7d" := by decide

end OsAgent.Library
