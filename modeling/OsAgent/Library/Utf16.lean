import OsAgent.Library.Script

/-!
# Texts as the source language keeps them

A text of the source language is a list of UTF-16 code units. A character beyond the basic plane is a
pair of surrogates, and half of a pair can stand alone. `encode` gives the code units of a list of
characters. `decode` is what is written when such a text goes to a file: every half of a pair that
stands alone becomes the replacement character. A text comes back from the file as it was exactly when
no half stands alone (`encode_decode_iff`).
-/

namespace OsAgent.Library

/-- A UTF-16 code unit. -/
abbrev CodeUnit := UInt16

namespace Utf16

/-- The first half of a pair. -/
def isHigh (u : CodeUnit) : Bool := 0xD800 ≤ u.toNat && u.toNat < 0xDC00

/-- The second half of a pair. -/
def isLow (u : CodeUnit) : Bool := 0xDC00 ≤ u.toNat && u.toNat < 0xE000

/-- The code units of a character: one, or a surrogate pair. -/
def encodeChar (c : Char) : List CodeUnit :=
  if c.toNat < 0x10000 then [.ofNat c.toNat]
  else [.ofNat (0xD800 + (c.toNat - 0x10000) / 0x400),
    .ofNat (0xDC00 + (c.toNat - 0x10000) % 0x400)]

/-- The code units of a list of characters. -/
def encode (text : List Char) : List CodeUnit := text.flatMap encodeChar

/-- The character of a code unit that is not part of a pair. -/
def decodeUnit (u : CodeUnit) : Char :=
  if isHigh u || isLow u then '\uFFFD' else .ofNat u.toNat

/-- The character of a pair. -/
def decodePair (u v : CodeUnit) : Char :=
  .ofNat (0x10000 + (u.toNat - 0xD800) * 0x400 + (v.toNat - 0xDC00))

/-- The characters of a text. -/
def decode : List CodeUnit → List Char
  | [] => []
  | [u] => [decodeUnit u]
  | u :: v :: rest =>
    if isHigh u && isLow v then decodePair u v :: decode rest
    else decodeUnit u :: decode (v :: rest)

/-- `String.prototype.isWellFormed`: no half of a pair stands alone. -/
def isWellFormed : List CodeUnit → Bool
  | [] => true
  | [u] => !(isHigh u || isLow u)
  | u :: v :: rest =>
    if isHigh u && isLow v then isWellFormed rest
    else !(isHigh u || isLow u) && isWellFormed (v :: rest)

/-! ## Single characters -/

/-- A character has the number that it was made of. -/
theorem toNat_ofNat_of_valid {n : ℕ} (h : n.isValidChar) : (Char.ofNat n).toNat = n := by
  rw [Char.ofNat, dif_pos h]
  rfl

/-- A code unit is the one of its number. -/
theorem ofNat_toNat_unit (u : CodeUnit) : UInt16.ofNat u.toNat = u := UInt16.ofNat_toNat

/-- A code unit that is no half of a pair is a character. -/
theorem encodeChar_decodeUnit {u : CodeUnit} (h : (isHigh u || isLow u) = false) :
    encodeChar (decodeUnit u) = [u] := by
  have hlt : u.toNat < 65536 := u.toNat_lt
  have hvalid : u.toNat.isValidChar := by
    simp only [isHigh, isLow, Bool.or_eq_false_iff, Bool.and_eq_false_iff,
      decide_eq_false_iff_not] at h
    unfold Nat.isValidChar
    omega
  have hchar : decodeUnit u = .ofNat u.toNat := if_neg (by simp [h])
  rw [hchar, encodeChar, toNat_ofNat_of_valid hvalid, if_pos hlt, ofNat_toNat_unit]

/-- A pair is a character. -/
theorem encodeChar_decodePair {u v : CodeUnit} (h : (isHigh u && isLow v) = true) :
    encodeChar (decodePair u v) = [u, v] := by
  simp only [isHigh, isLow, Bool.and_eq_true, decide_eq_true_eq] at h
  obtain ⟨⟨hu, hu'⟩, hv, hv'⟩ := h
  obtain ⟨n, hn⟩ : ∃ n, n = 0x10000 + (u.toNat - 0xD800) * 0x400 + (v.toNat - 0xDC00) :=
    ⟨_, rfl⟩
  have hvalid : n.isValidChar := by
    unfold Nat.isValidChar
    omega
  have hhigh : 0xD800 + (n - 0x10000) / 0x400 = u.toNat := by omega
  have hlow : 0xDC00 + (n - 0x10000) % 0x400 = v.toNat := by omega
  unfold encodeChar decodePair
  rw [← hn, toNat_ofNat_of_valid hvalid, if_neg (by omega), hhigh, hlow, ofNat_toNat_unit,
    ofNat_toNat_unit]

/-- Half of a pair does not come back as it was. -/
theorem encodeChar_decodeUnit_ne {u : CodeUnit} (h : (isHigh u || isLow u) = true) :
    encodeChar (decodeUnit u) = [0xFFFD] ∧ u ≠ 0xFFFD := by
  unfold decodeUnit
  rw [if_pos h]
  refine ⟨by decide, ?_⟩
  rintro rfl
  revert h
  decide

/-! ## Whole texts -/

/-- A text is encoded character by character. -/
theorem encode_cons (c : Char) (text : List Char) :
    encode (c :: text) = encodeChar c ++ encode text := rfl

/-- A text comes back as it was exactly when it is well formed. -/
theorem encode_decode_iff (text : List CodeUnit) :
    encode (decode text) = text ↔ isWellFormed text = true := by
  induction text using decode.induct with
  | case1 => exact iff_of_true rfl rfl
  -- One unit is left: it is half a pair, and then it is lost.
  | case2 u =>
    rw [decode, isWellFormed, encode_cons]
    cases hu : isHigh u || isLow u with
    | true =>
      obtain ⟨hencode, hne⟩ := encodeChar_decodeUnit_ne hu
      rw [hencode]
      refine iff_of_false (fun heq => ?_) (fun h => (by cases h))
      exact hne (List.cons.inj heq).1.symm
    | false =>
      rw [encodeChar_decodeUnit hu]
      exact iff_of_true rfl rfl
  -- A pair is one character, and gives the two units back.
  | case3 u v rest hpair ih =>
    rw [decode, isWellFormed, if_pos hpair, if_pos hpair, encode_cons, encodeChar_decodePair hpair,
      ← ih]
    exact List.append_right_inj [u, v]
  -- A unit that is no pair with the next one.
  | case4 u v rest hpair ih =>
    rw [decode, isWellFormed, if_neg hpair, if_neg hpair, encode_cons]
    cases hu : isHigh u || isLow u with
    | true =>
      obtain ⟨hencode, hne⟩ := encodeChar_decodeUnit_ne hu
      rw [hencode]
      refine iff_of_false (fun heq => ?_) (fun h => (by cases h))
      exact hne (List.cons.inj heq).1.symm
    | false =>
      rw [encodeChar_decodeUnit hu, Bool.not_false, Bool.true_and, ← ih]
      exact List.append_right_inj [u]

end Utf16

end OsAgent.Library
