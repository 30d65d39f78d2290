import EntityMapper.Json.Printer
import EntityMapper.Json.Reader

/-!
# Strings in a JSON text

A string is written with escapes and read back as it was: each escape is read as
the character that it stands for, and every other character as itself. Escapes
of code units are written for control characters only, so no surrogates come up.
-/

namespace EntityMapper.Json

theorem hexValue?_hexDigit {n : Nat} (h : n < 16) :
    Text.hexValue? (Text.hexDigit n) = some n := by
  have hall : ∀ n < 16, Text.hexValue? (Text.hexDigit n) = some n := by decide
  exact hall n h

/-- The escape of a control character is read as the character. -/
theorem readUnitEscape_control {strict : Bool} {c : Char} (h : c.toNat < 32)
    (rest : List Char) :
    readUnitEscape strict ('0' :: '0' :: Text.hexDigit (c.toNat / 16) ::
        Text.hexDigit (c.toNat % 16) :: rest) = .ok (some c, rest) := by
  have hhigh := hexValue?_hexDigit (n := c.toNat / 16) (by omega)
  have hlow := hexValue?_hexDigit (n := c.toNat % 16) (Nat.mod_lt _ (by decide))
  have hzero : Text.hexValue? '0' = some 0 := by decide
  have hunit : ((0 * 16 + 0) * 16 + c.toNat / 16) * 16 + c.toNat % 16 =
      c.toNat := by omega
  have hread : readCodeUnit ('0' :: '0' :: Text.hexDigit (c.toNat / 16) ::
        Text.hexDigit (c.toNat % 16) :: rest) = .ok (c.toNat, rest) := by
    simp only [readCodeUnit, hzero, hhigh, hlow, hunit]
  have htrailing : isTrailing c.toNat = false := by
    simp only [isTrailing, Bool.and_eq_false_iff, decide_eq_false_iff_not]
    omega
  have hleading : isLeading c.toNat = false := by
    simp only [isLeading, Bool.and_eq_false_iff, decide_eq_false_iff_not]
    omega
  simp only [readUnitEscape, hread, htrailing, hleading, bind, Except.bind,
    Bool.false_eq_true, if_false, Char.ofNat_toNat]

/-- What is written for a character is read as the character. -/
theorem readStringTail_escapedChar (strict : Bool) (fuel : Nat)
    (read : List Char) (c : Char) (rest : List Char) :
    readStringTail strict (fuel + 1) (some read) (escapedChar c ++ rest) =
      readStringTail strict fuel (some (c :: read)) rest := by
  have hletter (letter value : Char) (hletter : letter ≠ 'u')
      (hvalue : escapeValue? letter = some value) :
      readStringTail strict (fuel + 1) (some read) ('\\' :: letter :: rest) =
        readStringTail strict fuel (some (value :: read)) rest := by
    simp [readStringTail, hvalue]
  have hcode {n : Nat} (h : c.toNat = n) : Char.ofNat n = c := by
    rw [← h, Char.ofNat_toNat]
  unfold escapedChar
  split
  · next hquote => exact hquote ▸ hletter '"' '"' (by decide) rfl
  split
  · next hslash => exact hslash ▸ hletter '\\' '\\' (by decide) rfl
  split
  · next h => exact hcode h ▸ hletter 'b' _ (by decide) rfl
  split
  · next h => exact hcode h ▸ hletter 't' _ (by decide) rfl
  split
  · next h => exact hcode h ▸ hletter 'n' _ (by decide) rfl
  split
  · next h => exact hcode h ▸ hletter 'f' _ (by decide) rfl
  split
  · next h => exact hcode h ▸ hletter 'r' _ (by decide) rfl
  split
  · next hcontrol =>
    simp [readStringTail, readUnitEscape_control hcontrol]
  · next hslash _ _ _ _ _ hcontrol =>
    simp [readStringTail, hslash, hcontrol]

theorem length_le_flatMap_escapedChar (chars : List Char) :
    chars.length ≤ (chars.flatMap escapedChar).length := by
  have hpos (c : Char) : 0 < (escapedChar c).length := by grind [escapedChar]
  induction chars with
  | nil => exact Nat.le_refl 0
  | cons c chars ih =>
    have hc := hpos c
    rw [List.flatMap_cons, List.length_append, List.length_cons]
    omega

/-- The characters of a string are read up to the closing quote. -/
theorem readStringTail_chars (strict : Bool) {fuel : Nat} {chars : List Char}
    (hfuel : chars.length < fuel) (read rest : List Char) :
    readStringTail strict fuel (some read)
        (chars.flatMap escapedChar ++ '"' :: rest) =
      .ok (some (String.ofList (read.reverse ++ chars)), rest) := by
  induction chars generalizing fuel read with
  | nil =>
    obtain ⟨fuel, rfl⟩ := Nat.exists_eq_succ_of_ne_zero (Nat.ne_of_gt hfuel)
    simp [readStringTail]
  | cons c chars ih =>
    obtain ⟨fuel, rfl⟩ := Nat.exists_eq_succ_of_ne_zero (Nat.ne_zero_of_lt hfuel)
    rw [List.flatMap_cons, List.append_assoc]
    calc
      readStringTail strict (fuel + 1) (some read)
            (escapedChar c ++ (chars.flatMap escapedChar ++ '"' :: rest)) =
          readStringTail strict fuel (some (c :: read))
            (chars.flatMap escapedChar ++ '"' :: rest) :=
        readStringTail_escapedChar ..
      _ = .ok (some (String.ofList ((c :: read).reverse ++ chars)), rest) :=
        ih (Nat.lt_of_succ_lt_succ hfuel) _
      _ = .ok (some (String.ofList (read.reverse ++ c :: chars)), rest) := by
        rw [List.reverse_cons, List.append_assoc, List.singleton_append]

/-- A string is read back. -/
theorem readString_stringChars (strict : Bool) (text : String) (rest : List Char) :
    readString strict (text.toList.flatMap escapedChar ++ '"' :: rest) =
      .ok (some text, rest) := by
  have hlength : text.toList.length <
      (text.toList.flatMap escapedChar ++ '"' :: rest).length + 1 := by
    have hle := length_le_flatMap_escapedChar text.toList
    rw [List.length_append]
    omega
  calc
    readString strict (text.toList.flatMap escapedChar ++ '"' :: rest) =
        .ok (some (String.ofList (List.reverse [] ++ text.toList)), rest) :=
      readStringTail_chars strict hlength [] rest
    _ = .ok (some text, rest) := by
      rw [List.reverse_nil, List.nil_append, String.ofList_toList]

end EntityMapper.Json
