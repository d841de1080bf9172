import OsAgent.Library.Json

/-!
# Reading JSON

`JSON.parse`, as a reader of the characters of a text. A number is known by the text that the language
writes for it, which `numbers` gives for a numeral, if the number is finite. `parse_stringify` is the
round trip, and `stringify_injective` follows from it: two values that are written alike are the same.

A text may be JSON and yet write what is no `JsonValue`: an escape may be half of a surrogate pair, and a
numeral may be too large for a number. Such a text is `Foreign`: `parse` gives no value for it, though
`JSON.parse` does. A text that is not `IsJson` is one that `JSON.parse` refuses.
-/

namespace OsAgent.Library

/-! ## Texts -/

/-- White space between the parts of a JSON text. -/
def isSpace (c : Char) : Bool := c = ' ' || c = '\t' || c = '\n' || c = '\r'

/-- The text after the white space that it starts with. -/
def skipSpace (text : List Char) : List Char := text.dropWhile isSpace

/-- The value of a hexadecimal digit, of either case. -/
def hexValue? (c : Char) : Option ℕ := (List.range 16).find? fun n => Nat.digitChar n = c.toLower

/-- The code unit that four digits write. -/
def readUnit (a b c d : Char) : Option ℕ := do
  let a ← hexValue? a
  let b ← hexValue? b
  let c ← hexValue? c
  let d ← hexValue? d
  pure (((a * 16 + b) * 16 + c) * 16 + d)

/-- The second half of a surrogate pair, if it comes next, and what follows it. -/
def readLow? : List Char → Option (ℕ × List Char)
  | '\\' :: 'u' :: a :: b :: c :: d :: rest =>
    ((readUnit a b c d).filter fun low => 0xDC00 ≤ low && low < 0xE000).map fun low => (low, rest)
  | _ => none

section Halves

variable (half : Option Char)

/-- The character of a code unit, which takes the second half of a surrogate pair with it. A half without
the other one is read as `half`, if it is read at all. -/
def readUnits (unit : ℕ) (rest : List Char) : Option (Char × List Char) :=
  if unit < 0xD800 ∨ 0xE000 ≤ unit then some (Char.ofNat unit, rest)
  else
    match (readLow? rest).filter fun _ => unit < 0xDC00 with
    | some (low, rest) => some (Char.ofNat (0x10000 + (unit - 0xD800) * 0x400 + (low - 0xDC00)), rest)
    | none => half.map fun c => (c, rest)

/-- What is written after a backslash. -/
def readEscape : List Char → Option (Char × List Char)
  | 'u' :: a :: b :: c :: d :: rest => do
    let unit ← readUnit a b c d
    readUnits half unit rest
  | c :: rest =>
    if c = '"' ∨ c = '\\' ∨ c = '/' then some (c, rest)
    else if c = 'b' then some (Char.ofNat 0x8, rest)
    else if c = 't' then some ('\t', rest)
    else if c = 'n' then some ('\n', rest)
    else if c = 'f' then some (Char.ofNat 0xC, rest)
    else if c = 'r' then some ('\r', rest)
    else none
  | [] => none

/-- A text behind its first quote, up to the other one. -/
def readString : ℕ → List Char → Option (List Char × List Char)
  | 0, _ => none
  | _ + 1, [] => none
  | n + 1, c :: rest =>
    if c = '"' then some ([], rest)
    else if c = '\\' then do
      let (c, rest) ← readEscape half rest
      let (cs, rest) ← readString n rest
      pure (c :: cs, rest)
    else if c.toNat < 0x20 then none
    else do
      let (cs, rest) ← readString n rest
      pure (c :: cs, rest)

end Halves

/-! ## Numbers -/

/-- The characters of a numeral. -/
def isNumeralChar (c : Char) : Bool :=
  c.isDigit || c = '-' || c = '+' || c = '.' || c = 'e' || c = 'E'

/-- Digits, at least one. -/
def isDigits (text : List Char) : Bool := !text.isEmpty && text.all Char.isDigit

/-- The exponent of a numeral, which may be absent. -/
def isExponent : List Char → Bool
  | [] => true
  | e :: rest =>
    (e = 'e' || e = 'E') &&
      match rest with
      | sign :: digits => if sign = '+' ∨ sign = '-' then isDigits digits else isDigits rest
      | [] => false

/-- What follows the integer of a numeral. -/
def isFraction : List Char → Bool
  | '.' :: rest => !(rest.takeWhile Char.isDigit).isEmpty && isExponent (rest.dropWhile Char.isDigit)
  | rest => isExponent rest

/-- A numeral without its sign. -/
def isUnsigned (text : List Char) : Bool :=
  let integer := text.takeWhile Char.isDigit
  !integer.isEmpty && (integer.head? ≠ some '0' || integer.length = 1) &&
    isFraction (text.dropWhile Char.isDigit)

/-- A numeral of JSON, which may have a sign. -/
def isNumeral : List Char → Bool
  | '-' :: text => isUnsigned text
  | text => isUnsigned text

section Numbers

variable (numbers : List Char → Option String)

/-- A number. The longest run of characters of numerals has to be a numeral. -/
def readNumber (text : List Char) : Option (JsonValue × List Char) := do
  let numeral := text.takeWhile isNumeralChar
  if isNumeral numeral then
    let literal ← numbers numeral
    pure (.number literal, text.dropWhile isNumeralChar)
  else none

/-! ## Values -/

variable (half : Option Char)

/-- Gives a property a value. It keeps its place, or is the last one. -/
def setProperty (key : String) (value : JsonValue) :
    List (String × JsonValue) → List (String × JsonValue)
  | [] => [(key, value)]
  | (k, v) :: ps => if k = key then (k, value) :: ps else (k, v) :: setProperty key value ps

/-- The properties of an object when all of them have been read. The last one of a name counts. -/
def ofProperties (ps : List (String × JsonValue)) : List (String × JsonValue) :=
  ps.foldl (fun properties p => setProperty p.1 p.2 properties) []

mutual

/-- A value, and what follows it. -/
def readValue : ℕ → List Char → Option (JsonValue × List Char)
  | 0, _ => none
  | n + 1, text =>
    match skipSpace text with
    | 'n' :: 'u' :: 'l' :: 'l' :: rest => some (.null, rest)
    | 't' :: 'r' :: 'u' :: 'e' :: rest => some (.boolean true, rest)
    | 'f' :: 'a' :: 'l' :: 's' :: 'e' :: rest => some (.boolean false, rest)
    | '"' :: rest => do
      let (s, rest) ← readString half (rest.length + 1) rest
      pure (.string (String.ofList s), rest)
    | '[' :: rest =>
      match skipSpace rest with
      | ']' :: rest => some (.array [], rest)
      | _ => do
        let (v, rest) ← readValue n rest
        let (vs, rest) ← readItems n rest
        pure (.array (v :: vs), rest)
    | '\x7b' :: rest =>
      match skipSpace rest with
      | '\x7d' :: rest => some (.object [], rest)
      | _ => do
        let (p, rest) ← readProperty n rest
        let (ps, rest) ← readProperties n rest
        pure (.object (ofProperties (p :: ps)), rest)
    | text => readNumber numbers text

/-- The items after the first one. -/
def readItems : ℕ → List Char → Option (List JsonValue × List Char)
  | 0, _ => none
  | n + 1, text =>
    match skipSpace text with
    | ']' :: rest => some ([], rest)
    | ',' :: rest => do
      let (v, rest) ← readValue n rest
      let (vs, rest) ← readItems n rest
      pure (v :: vs, rest)
    | _ => none

/-- A property, with its name. -/
def readProperty : ℕ → List Char → Option ((String × JsonValue) × List Char)
  | 0, _ => none
  | n + 1, text =>
    match skipSpace text with
    | '"' :: rest => do
      let (key, rest) ← readString half (rest.length + 1) rest
      match skipSpace rest with
      | ':' :: rest => do
        let (v, rest) ← readValue n rest
        pure ((String.ofList key, v), rest)
      | _ => none
    | _ => none

/-- The properties after the first one. -/
def readProperties : ℕ → List Char → Option (List (String × JsonValue) × List Char)
  | 0, _ => none
  | n + 1, text =>
    match skipSpace text with
    | '\x7d' :: rest => some ([], rest)
    | ',' :: rest => do
      let (p, rest) ← readProperty n rest
      let (ps, rest) ← readProperties n rest
      pure (p :: ps, rest)
    | _ => none

end

/-- The value that a whole text writes. Each step reads a character, so there are no more steps than
characters. -/
def readWhole (text : List Char) : Option JsonValue := do
  let (v, rest) ← readValue numbers half (text.length + 1) text
  if skipSpace rest = [] then pure v else none

/-- `JSON.parse`, of a text that writes a `JsonValue`. -/
def parse (text : List Char) : Option JsonValue := readWhole numbers none text

/-- The text is JSON: `JSON.parse` gives a value, of whatever kind. -/
def IsJson (text : List Char) : Prop :=
  (readWhole (fun numeral => some (String.ofList numeral)) (some '\ufffd') text).isSome = true

instance (text : List Char) : Decidable (IsJson text) := inferInstanceAs (Decidable (_ = true))

/-- The text is JSON and writes what is no `JsonValue`. -/
def Foreign (text : List Char) : Prop := IsJson text ∧ parse numbers text = none

instance (text : List Char) : Decidable (Foreign numbers text) :=
  inferInstanceAs (Decidable (_ ∧ _ = none))

end Numbers

-- Half of a surrogate pair is a text of the language, and so is what stands behind it.
example : Foreign (fun numeral => some (String.ofList numeral)) ['"', '\\', 'u', 'd', '8', '3', 'd', 'x', '"'] := by
  decide

/-! ## The round trip -/

/-- Nothing is skipped before another character. -/
theorem skipSpace_cons {c : Char} (h : isSpace c = false) (rest : List Char) :
    skipSpace (c :: rest) = c :: rest := by
  unfold skipSpace
  rw [List.dropWhile_cons, h]
  rfl

variable {half : Option Char}

/-- The escape of a control character is read as its number. -/
theorem readUnit_control :
    ∀ n < 32, readUnit '0' '0' (Nat.digitChar (n / 16)) (Nat.digitChar (n % 16)) = some n := by
  decide

/-- A character is read as it is written. -/
theorem readString_quoteChar (n : ℕ) (c : Char) (rest : List Char) :
    readString half (n + 1) (quoteChar c ++ rest) =
      (readString half n rest).map fun (cs, rest) => (c :: cs, rest) := by
  have hbind : ∀ x : Option (List Char × List Char), (do
      let (cs, rest) ← x
      pure (c :: cs, rest)) = x.map fun (cs, rest) => (c :: cs, rest) := by
    intro x
    cases x <;> rfl
  -- A character that has an escape is what the escape says.
  have hescape : ∀ escape, readEscape half (escape ++ rest) = some (c, rest) →
      readString half (n + 1) ('\\' :: escape ++ rest) =
        (readString half n rest).map fun (cs, rest) => (c :: cs, rest) := by
    intro escape hread
    rw [← hbind, List.cons_append, readString, if_neg (by decide), if_pos rfl, hread]
    rfl
  unfold quoteChar
  split_ifs with hquote h8 h9 hA hC hD hcontrol
  · apply hescape [c]
    rcases hquote with rfl | rfl <;> rfl
  · have hc : c = Char.ofNat 0x8 := by rw [← h8, Char.ofNat_toNat]
    rw [hc] at hescape ⊢
    exact hescape ['b'] rfl
  · have hc : c = '\t' := by rw [← Char.ofNat_toNat c, h9]
    rw [hc] at hescape ⊢
    exact hescape ['t'] rfl
  · have hc : c = '\n' := by rw [← Char.ofNat_toNat c, hA]
    rw [hc] at hescape ⊢
    exact hescape ['n'] rfl
  · have hc : c = Char.ofNat 0xC := by rw [← hC, Char.ofNat_toNat]
    rw [hc] at hescape ⊢
    exact hescape ['f'] rfl
  · have hc : c = '\r' := by rw [← Char.ofNat_toNat c, hD]
    rw [hc] at hescape ⊢
    exact hescape ['r'] rfl
  · apply hescape ['u', '0', '0', Nat.digitChar (c.toNat / 16), Nat.digitChar (c.toNat % 16)]
    show (readUnit '0' '0' _ _).bind (fun unit => readUnits half unit rest) = _
    rw [readUnit_control c.toNat hcontrol, Option.bind_some]
    unfold readUnits
    rw [if_pos (by omega), Char.ofNat_toNat]
  · rw [not_or] at hquote
    rw [← hbind, List.singleton_append, readString, if_neg hquote.1, if_neg hquote.2, if_neg hcontrol]

/-- A text is read as it is written. -/
theorem readString_quote {cs : List Char} {n : ℕ} (h : cs.length < n) (rest : List Char) :
    readString half n (cs.flatMap quoteChar ++ '"' :: rest) = some (cs, rest) := by
  induction cs generalizing n with
  | nil =>
    cases n with
    | zero => exact absurd h (Nat.not_lt_zero _)
    | succ n => rfl
  | cons c cs ih =>
    cases n with
    | zero => exact absurd h (Nat.not_lt_zero _)
    | succ n =>
      rw [List.length_cons] at h
      rw [List.flatMap_cons, List.append_assoc, readString_quoteChar, ih (by omega)]
      rfl

/-- The value can be written and read again: a number is written as the language writes it, and no two
properties of an object have the same name. -/
inductive JsonValue.Readable (numbers : List Char → Option String) : JsonValue → Prop
  | null : Readable numbers .null
  | boolean (b : Bool) : Readable numbers (.boolean b)
  | number {literal : String} (hchars : ∀ c ∈ literal.toList, isNumeralChar c = true)
      (hnumeral : isNumeral literal.toList = true) (hread : numbers literal.toList = some literal) :
      Readable numbers (.number literal)
  | string (s : String) : Readable numbers (.string s)
  | array {items : List JsonValue} (hitems : ∀ v ∈ items, Readable numbers v) :
      Readable numbers (.array items)
  | object {properties : List (String × JsonValue)} (hnodup : (properties.map Prod.fst).Nodup)
      (hproperties : ∀ p ∈ properties, Readable numbers p.2) : Readable numbers (.object properties)

/-- What follows a value does not go on with a number. -/
def Delimited (rest : List Char) : Prop := ∀ c ∈ rest.head?, isNumeralChar c = false

/-- A literal ends where no character of a number follows. -/
theorem takeWhile_delimited {literal rest : List Char} (h : ∀ c ∈ literal, isNumeralChar c = true)
    (hrest : Delimited rest) :
    (literal ++ rest).takeWhile isNumeralChar = literal ∧
      (literal ++ rest).dropWhile isNumeralChar = rest := by
  have hnone : rest.takeWhile isNumeralChar = [] ∧ rest.dropWhile isNumeralChar = rest := by
    cases rest with
    | nil => exact ⟨rfl, rfl⟩
    | cons c rest =>
      have hc := hrest c rfl
      rw [List.takeWhile_cons, List.dropWhile_cons, hc]
      exact ⟨rfl, rfl⟩
  constructor
  · rw [List.takeWhile_append_of_pos h, hnone.1, List.append_nil]
  · rw [List.dropWhile_append_of_pos h, hnone.2]

section RoundTrip

variable {numbers : List Char → Option String}

/-- A literal that is a numeral is read as a number. -/
theorem readNumber_literal {literal : String} (hchars : ∀ c ∈ literal.toList, isNumeralChar c = true)
    (hnumeral : isNumeral literal.toList = true) (hread : numbers literal.toList = some literal)
    {rest : List Char} (hrest : Delimited rest) :
    readNumber numbers (literal.toList ++ rest) = some (.number literal, rest) := by
  obtain ⟨htake, hdrop⟩ := takeWhile_delimited hchars hrest
  unfold readNumber
  dsimp only
  rw [htake, hdrop, if_pos hnumeral, hread]
  rfl

/-- No character of a number is white space. -/
theorem isSpace_of_isNumeralChar {c : Char} (h : isNumeralChar c = true) : isSpace c = false := by
  by_contra hc
  unfold isSpace at hc
  simp only [Bool.not_eq_false, Bool.or_eq_true, decide_eq_true_eq] at hc
  rcases hc with ((rfl | rfl) | rfl) | rfl <;> exact absurd h (by decide)

/-- A text that begins like a number is read as one. -/
theorem readValue_numeral {c : Char} (h : isNumeralChar c = true) (n : ℕ) (rest : List Char) :
    readValue numbers half (n + 1) (c :: rest) = readNumber numbers (c :: rest) := by
  rw [readValue, skipSpace_cons (isSpace_of_isNumeralChar h)]
  split
  all_goals first
    | rfl
    | next heq => cases heq; exact absurd h (by decide)

/-- A text that begins like no value is not read. -/
theorem parse_eq_none {c : Char} (hspace : isSpace c = false) (hnumeral : isNumeralChar c = false)
    (h : c ∉ ['n', 't', 'f', '"', '[', '\x7b']) (rest : List Char) : parse numbers (c :: rest) = none := by
  have hread : ∀ n, readValue numbers none (n + 1) (c :: rest) = readNumber numbers (c :: rest) := by
    intro n
    rw [readValue, skipSpace_cons hspace]
    split
    all_goals first
      | rfl
      | next heq => cases heq; exact absurd (by decide) h
  have hnumber : readNumber numbers (c :: rest) = none := by
    unfold readNumber
    dsimp only
    rw [List.takeWhile_cons_of_neg (by rw [hnumeral]; exact Bool.false_ne_true)]
    rfl
  unfold parse readWhole
  rw [hread, hnumber]
  rfl

/-- A value begins with a character of its own. -/
theorem stringify_head {v : JsonValue} (h : v.Readable numbers) :
    ∃ c text, stringify v = c :: text ∧ isSpace c = false ∧ c ≠ ']' := by
  cases h with
  | null => exact ⟨_, _, rfl, by decide, by decide⟩
  | boolean b => cases b <;> exact ⟨_, _, rfl, by decide, by decide⟩
  | @number literal hchars hnumeral hread =>
    cases hlist : literal.toList with
    | nil =>
      rw [hlist] at hnumeral
      cases hnumeral
    | cons c text =>
      have hc := hchars c (by rw [hlist]; exact List.mem_cons_self)
      refine ⟨c, text, hlist, ?_, ?_⟩
      · exact isSpace_of_isNumeralChar hc
      · rintro rfl
        exact absurd hc (by decide)
  | string s => exact ⟨_, _, rfl, by decide, by decide⟩
  | @array items hitems => cases items <;> exact ⟨_, _, rfl, by decide, by decide⟩
  | @object properties hnodup hproperties =>
    cases properties <;> exact ⟨_, _, rfl, by decide, by decide⟩

/-- What begins with another character delimits a number. -/
theorem delimited_cons {c : Char} (h : isNumeralChar c = false) (rest : List Char) :
    Delimited (c :: rest) := by
  intro d hd
  rw [List.head?_cons, Option.mem_some_iff] at hd
  rwa [← hd]

/-- What is written after an item delimits it. -/
theorem delimited_moreItems (vs : List JsonValue) (rest : List Char) :
    Delimited (moreItems vs ++ ']' :: rest) := by
  cases vs <;> exact delimited_cons (by decide) _

/-- What is written after a property delimits it. -/
theorem delimited_moreProperties (ps : List (String × JsonValue)) (rest : List Char) :
    Delimited (moreProperties ps ++ '\x7d' :: rest) := by
  cases ps with
  | nil => exact delimited_cons (by decide) _
  | cons p ps => exact delimited_cons (by decide) _

/-- Quoting makes no text shorter. -/
theorem length_flatMap_quoteChar_le (cs : List Char) :
    cs.length ≤ (cs.flatMap quoteChar).length := by
  have hone : ∀ c, 1 ≤ (quoteChar c).length := by
    intro c
    unfold quoteChar
    split_ifs <;> simp
  induction cs with
  | nil => exact Nat.le_refl _
  | cons c cs ih =>
    rw [List.flatMap_cons, List.length_cons, List.length_append]
    have hc := hone c
    omega

/-- A text between quotes is read with the steps that it has characters. -/
theorem readString_quoted (s : String) (rest : List Char) :
    readString half ((s.toList.flatMap quoteChar ++ '"' :: rest).length + 1)
      (s.toList.flatMap quoteChar ++ '"' :: rest) = some (s.toList, rest) := by
  apply readString_quote
  have hle := length_flatMap_quoteChar_le s.toList
  rw [List.length_append]
  omega

/-- A text between quotes says where it ends, and so which one it is. -/
theorem quote_append_inj {s s' : String} {rest rest' : List Char}
    (h : quote s ++ rest = quote s' ++ rest') : s = s' := by
  unfold quote at h
  rw [List.cons_append, List.cons_append, List.append_assoc, List.append_assoc] at h
  have htext := (List.cons.inj h).2
  have hread := @readString_quoted none s rest
  have hread' := @readString_quoted none s' rest'
  rw [List.singleton_append] at htext
  rw [htext] at hread
  have hsame : some (s.toList, rest) = some (s'.toList, rest') := hread.symm.trans hread'
  exact String.toList_injective (congrArg Prod.fst (Option.some.inj hsame))

/-- A property is read as it is written, if its value is. -/
theorem readProperty_quote {k : String} {v : JsonValue} {n : ℕ} {rest : List Char}
    (h : readValue numbers half n (stringify v ++ rest) = some (v, rest)) :
    readProperty numbers half (n + 1) (quote k ++ (':' :: (stringify v ++ rest))) = some ((k, v), rest) := by
  have hquote : quote k ++ (':' :: (stringify v ++ rest)) =
      '"' :: (k.toList.flatMap quoteChar ++ '"' :: ':' :: (stringify v ++ rest)) := by
    unfold quote
    rw [List.cons_append, List.append_assoc]
    rfl
  rw [hquote]
  show (readString half _ _).bind _ = _
  rw [readString_quoted, Option.bind_some]
  show (readValue numbers half n (stringify v ++ rest)).bind
    (fun r => some ((String.ofList k.toList, r.1), r.2)) = _
  rw [h, String.ofList_toList]
  rfl

/-- A new property goes to the end. -/
theorem setProperty_of_not_mem {key : String} {value : JsonValue} {ps : List (String × JsonValue)}
    (h : key ∉ ps.map Prod.fst) : setProperty key value ps = ps ++ [(key, value)] := by
  induction ps with
  | nil => rfl
  | cons p ps ih =>
    rw [List.map_cons, List.mem_cons, not_or] at h
    unfold setProperty
    rw [if_neg (Ne.symm h.1), ih h.2]
    rfl

/-- Names that are distinct are kept as they are. -/
theorem ofProperties_of_nodup {ps : List (String × JsonValue)} (h : (ps.map Prod.fst).Nodup) :
    ofProperties ps = ps := by
  have hfold : ∀ (rest taken : List (String × JsonValue)), ((taken ++ rest).map Prod.fst).Nodup →
      rest.foldl (fun properties p => setProperty p.1 p.2 properties) taken = taken ++ rest := by
    intro rest
    induction rest with
    | nil => exact fun taken _ => (List.append_nil taken).symm
    | cons p rest ih =>
      intro taken hnodup
      rw [List.foldl_cons, setProperty_of_not_mem, ih (taken ++ [p])]
      · rw [List.append_assoc, List.singleton_append]
      · rwa [List.append_assoc, List.singleton_append]
      · rw [List.map_append, List.map_cons] at hnodup
        intro hmem
        exact (List.nodup_append.mp hnodup).2.2 p.1 hmem p.1 List.mem_cons_self rfl
  exact hfold ps [] h

mutual

/-- A value is read as it is written. -/
theorem readValue_stringify {v : JsonValue} (h : v.Readable numbers) (n : ℕ) (rest : List Char)
    (hn : (stringify v).length < n) (hrest : Delimited rest) :
    readValue numbers half n (stringify v ++ rest) = some (v, rest) := by
  -- Along the value, with as many steps as its text has characters.
  match v, n, h, hn with
  | .null, n + 1, _, _ => rfl
  | .boolean true, n + 1, _, _ => rfl
  | .boolean false, n + 1, _, _ => rfl
  | .number literal, n + 1, .number hchars hnumeral hread, _ =>
    have hliteral := readNumber_literal hchars hnumeral hread hrest
    unfold stringify
    cases hlist : literal.toList with
    | nil =>
      rw [hlist] at hnumeral
      cases hnumeral
    | cons c text =>
      have hc := hchars c (by rw [hlist]; exact List.mem_cons_self)
      rw [hlist] at hliteral
      rw [List.cons_append, readValue_numeral hc]
      exact hliteral
  | .string s, n + 1, _, _ =>
    have hquote : stringify (.string s) ++ rest =
        '"' :: (s.toList.flatMap quoteChar ++ '"' :: rest) := by
      unfold stringify quote
      rw [List.cons_append, List.append_assoc]
      rfl
    rw [hquote]
    show (readString half _ _).bind _ = _
    rw [readString_quoted, Option.bind_some]
    show some (JsonValue.string (String.ofList s.toList), rest) = _
    rw [String.ofList_toList]
  | .array [], n + 1, _, _ => rfl
  | .array (v :: vs), n + 1, .array hitems, hn =>
    unfold stringify at hn ⊢
    rw [List.length_cons, List.length_append, List.length_append] at hn
    have hv := readValue_stringify (hitems v List.mem_cons_self) n (moreItems vs ++ ']' :: rest)
      (by omega) (delimited_moreItems vs rest)
    have hvs := readItems_moreItems (fun w hw => hitems w (List.mem_cons_of_mem _ hw)) n rest
      (by omega)
    obtain ⟨c, text, hc, hspace, hclose⟩ := stringify_head (hitems v List.mem_cons_self)
    have htext : '[' :: (stringify v ++ (moreItems vs ++ [']'])) ++ rest =
        '[' :: (stringify v ++ (moreItems vs ++ ']' :: rest)) := by
      rw [List.cons_append, List.append_assoc, List.append_assoc, List.singleton_append]
    rw [htext]
    have hopen : readValue numbers half (n + 1) ('[' :: (stringify v ++ (moreItems vs ++ ']' :: rest))) =
        (readValue numbers half n (stringify v ++ (moreItems vs ++ ']' :: rest))).bind fun r =>
          (readItems numbers half n r.2).bind fun r' => some (.array (r.1 :: r'.1), r'.2) := by
      show (match skipSpace (stringify v ++ (moreItems vs ++ ']' :: rest)) with
        | ']' :: rest => some (JsonValue.array [], rest)
        | _ => _) = _
      rw [hc, List.cons_append, skipSpace_cons hspace]
      split
      · next heq => exact absurd (List.cons.inj heq).1 hclose
      · rfl
    rw [hopen, hv, Option.bind_some, hvs]
    rfl
  | .object [], n + 1, _, _ => rfl
  | .object ((k, v) :: ps), n + 1, .object hnodup hproperties, hn =>
    unfold stringify at hn ⊢
    rw [List.length_cons, List.length_append, List.length_cons, List.length_append,
      List.length_append] at hn
    cases n with
    | zero => omega
    | succ n =>
      have hquoted : 2 ≤ (quote k).length := by
        unfold quote
        rw [List.length_cons, List.length_append, List.length_singleton]
        omega
      have hreadable : v.Readable numbers := hproperties (k, v) List.mem_cons_self
      have hv := readValue_stringify hreadable n (moreProperties ps ++ '\x7d' :: rest) (by omega)
        (delimited_moreProperties ps rest)
      have hps := readProperties_moreProperties
        (fun p hp => hproperties p (List.mem_cons_of_mem _ hp)) (n + 1) rest (by omega)
      have htext : '\x7b' :: (quote k ++ (':' :: (stringify v ++ (moreProperties ps ++ ['\x7d'])))) ++
          rest = '\x7b' :: (quote k ++
            (':' :: (stringify v ++ (moreProperties ps ++ '\x7d' :: rest)))) := by
        simp only [List.cons_append, List.append_assoc, List.nil_append]
      rw [htext]
      show (readProperty numbers half (n + 1) (quote k ++
        (':' :: (stringify v ++ (moreProperties ps ++ '\x7d' :: rest))))).bind _ = _
      rw [readProperty_quote hv, Option.bind_some]
      show (readProperties numbers half (n + 1) (moreProperties ps ++ '\x7d' :: rest)).bind _ = _
      rw [hps, Option.bind_some]
      show some (JsonValue.object (ofProperties ((k, v) :: ps)), rest) = _
      rw [ofProperties_of_nodup hnodup]

/-- The rest of the items is read as it was written. -/
theorem readItems_moreItems {vs : List JsonValue} (h : ∀ v ∈ vs, v.Readable numbers) (n : ℕ)
    (rest : List Char) (hn : (moreItems vs).length < n) :
    readItems numbers half n (moreItems vs ++ ']' :: rest) = some (vs, rest) := by
  match vs, n, hn with
  | [], n + 1, _ => rfl
  | v :: vs, n + 1, hn =>
    unfold moreItems at hn ⊢
    rw [List.length_cons, List.length_append] at hn
    have hv := readValue_stringify (h v List.mem_cons_self) n (moreItems vs ++ ']' :: rest)
      (by omega) (delimited_moreItems vs rest)
    have hvs := readItems_moreItems (fun w hw => h w (List.mem_cons_of_mem _ hw)) n rest (by omega)
    rw [List.cons_append, List.append_assoc]
    show (readValue numbers half n (stringify v ++ (moreItems vs ++ ']' :: rest))).bind _ = _
    rw [hv, Option.bind_some]
    show (readItems numbers half n (moreItems vs ++ ']' :: rest)).bind _ = _
    rw [hvs]
    rfl

/-- The rest of the properties is read as it was written. -/
theorem readProperties_moreProperties {ps : List (String × JsonValue)}
    (h : ∀ p ∈ ps, p.2.Readable numbers) (n : ℕ) (rest : List Char)
    (hn : (moreProperties ps).length < n) :
    readProperties numbers half n (moreProperties ps ++ '\x7d' :: rest) = some (ps, rest) := by
  match ps, n, hn with
  | [], n + 1, _ => rfl
  | (k, v) :: ps, n + 1, hn =>
    unfold moreProperties at hn ⊢
    rw [List.length_cons, List.length_append, List.length_cons, List.length_append] at hn
    cases n with
    | zero => omega
    | succ n =>
      have hreadable : v.Readable numbers := h (k, v) List.mem_cons_self
      have hv := readValue_stringify hreadable n (moreProperties ps ++ '\x7d' :: rest) (by omega)
        (delimited_moreProperties ps rest)
      have hps := readProperties_moreProperties (fun p hp => h p (List.mem_cons_of_mem _ hp)) (n + 1)
        rest (by omega)
      have htext : ',' :: (quote k ++ (':' :: (stringify v ++ moreProperties ps))) ++ '\x7d' :: rest =
          ',' :: (quote k ++ (':' :: (stringify v ++ (moreProperties ps ++ '\x7d' :: rest)))) := by
        simp only [List.cons_append, List.append_assoc]
      rw [htext]
      show (readProperty numbers half (n + 1) (quote k ++
        (':' :: (stringify v ++ (moreProperties ps ++ '\x7d' :: rest))))).bind _ = _
      rw [readProperty_quote hv, Option.bind_some]
      show (readProperties numbers half (n + 1) (moreProperties ps ++ '\x7d' :: rest)).bind _ = _
      rw [hps]
      rfl

end

/-- What `JSON.stringify` writes, `JSON.parse` reads. -/
theorem parse_stringify {v : JsonValue} (h : v.Readable numbers) :
    parse numbers (stringify v) = some v := by
  have hread := @readValue_stringify none numbers v h ((stringify v).length + 1) [] (Nat.lt_succ_self _)
    (fun c hc => by cases hc)
  rw [List.append_nil] at hread
  unfold parse readWhole
  rw [hread]
  rfl

/-- Values that are written alike are the same. -/
theorem stringify_injective {v w : JsonValue} (hv : v.Readable numbers) (hw : w.Readable numbers)
    (h : stringify v = stringify w) : v = w := by
  have hread := parse_stringify hv
  rw [h, parse_stringify hw] at hread
  exact (Option.some.inj hread).symm

end RoundTrip

end OsAgent.Library
