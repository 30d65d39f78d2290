import Mathlib.Data.List.TakeWhile
import EntityMapper.Proofs.Statement.Lexing

/-!
# Numbers as they are written and lexed

The decimal text of an integer is one token, and the token holds the integer.
The lexer takes all digits there are and reads them together with the sign in
front of them, so the lowest integer, whose digits alone would be too large, is
read like any other.
-/

namespace EntityMapper

namespace Decimal

theorem le_ofDigitChars (digits : List Char) (total : Nat) :
    total ≤ Nat.ofDigitChars 10 digits total := by
  induction digits generalizing total with
  | nil => simp
  | cons c rest ih =>
    rw [Nat.ofDigitChars_cons]
    calc
      total ≤ 10 * total + (c.toNat - '0'.toNat) := by omega
      _ ≤ Nat.ofDigitChars 10 rest (10 * total + (c.toNat - '0'.toNat)) := ih _

theorem isDigit_bounds {c : Char} (h : c.isDigit = true) : '0' ≤ c ∧ c ≤ '9' := by
  simp only [Char.isDigit, Bool.and_eq_true, decide_eq_true_eq] at h
  exact h

/-- Digits are read if the number they spell is within the bound. -/
theorem readDigits_eq_ok {bound : Nat} {overflow : IntFault} {digits : List Char}
    {total : Nat} (hdigits : ∀ c ∈ digits, c.isDigit = true)
    (hbound : Nat.ofDigitChars 10 digits total ≤ bound) :
    readDigits bound overflow digits total =
      .ok (Nat.ofDigitChars 10 digits total) := by
  induction digits generalizing total with
  | nil => simp [readDigits]
  | cons c rest ih =>
    rw [Nat.ofDigitChars_cons] at hbound ⊢
    have hc := isDigit_bounds (hdigits c (List.mem_cons_self ..))
    have hle := Nat.le_trans (le_ofDigitChars rest _) hbound
    rw [readDigits, digitValue?, if_pos hc]
    dsimp only
    rw [if_neg (Nat.not_lt.mpr hle)]
    exact ih (fun d hd => hdigits d (List.mem_cons_of_mem c hd)) hbound

theorem isDigit_toDigits {n : Nat} {c : Char} (h : c ∈ Nat.toDigits 10 n) :
    c.isDigit = true :=
  Nat.isDigit_of_mem_toDigits (by decide) (by decide) h

theorem readDigits_toDigits {bound n : Nat} (overflow : IntFault) (h : n ≤ bound) :
    readDigits bound overflow (Nat.toDigits 10 n) 0 = .ok n := by
  have hvalue : Nat.ofDigitChars 10 (Nat.toDigits 10 n) 0 = n :=
    Nat.ofDigitChars_ten_toDigits
  rw [readDigits_eq_ok (fun c => isDigit_toDigits) (by rw [hvalue]; exact h),
    hvalue]

/-- A number begins with a digit. -/
theorem exists_toDigits_eq_cons (n : Nat) :
    ∃ c rest, Nat.toDigits 10 n = c :: rest ∧ c.isDigit = true := by
  obtain ⟨c, rest, hcons⟩ :=
    List.exists_cons_of_ne_nil (Nat.toDigits_ne_nil (n := n) (b := 10))
  refine ⟨c, rest, hcons, isDigit_toDigits (n := n) ?_⟩
  rw [hcons]
  exact List.mem_cons_self ..

theorem readInt64_toDigits {n : Nat} (h : n < Nat.pow 2 63) :
    readInt64 (Nat.toDigits 10 n) = .ok (Int64.ofInt n) := by
  have hread := readDigits_toDigits .tooLarge (Nat.le_sub_one_of_lt h)
  obtain ⟨c, rest, hcons, hc⟩ := exists_toDigits_eq_cons n
  rw [hcons] at hread ⊢
  have hplus : c ≠ '+' := by rintro rfl; exact absurd hc (by decide)
  have hminus : c ≠ '-' := by rintro rfl; exact absurd hc (by decide)
  have hunsigned : readInt64 (c :: rest) =
      (readDigits (Nat.pow 2 63 - 1) .tooLarge (c :: rest) 0).map
        fun n => Int64.ofInt n := by
    unfold readInt64
    split <;> simp_all
  rw [hunsigned, hread]
  rfl

theorem readInt64_negative {n : Nat} (h : n ≤ Nat.pow 2 63) :
    readInt64 ('-' :: Nat.toDigits 10 n) = .ok (Int64.ofInt (-(n : Int))) := by
  have hread := readDigits_toDigits .tooSmall h
  obtain ⟨c, rest, hcons, -⟩ := exists_toDigits_eq_cons n
  rw [hcons] at hread ⊢
  simp only [readInt64, hread]
  rfl

end Decimal

theorem Text.isDigit_of_isDigit {c : Char} (h : c.isDigit = true) :
    Text.isDigit c = true := by
  simp [Text.isDigit, Decimal.isDigit_bounds h]

namespace Token

theorem isBlank_of_isDigit {c : Char} (h : c.isDigit = true) :
    isBlank c = false := by
  rw [Bool.eq_false_iff]
  intro hblank
  simp only [isBlank, Bool.or_eq_true, beq_iff_eq] at hblank
  obtain ((rfl | rfl) | rfl) | rfl := hblank <;> revert h <;> decide

theorem isNameStart_of_isDigit {c : Char} (h : c.isDigit = true) :
    isNameStart c = false := by
  have hbounds := Decimal.isDigit_bounds h
  simp only [Char.le_def] at hbounds
  have hhigh : c.toNat ≤ 57 := hbounds.2
  rw [Bool.eq_false_iff]
  intro hstart
  simp only [isNameStart, Text.isLetter, Text.isLower, Text.isUpper,
    Bool.or_eq_true, Bool.and_eq_true, decide_eq_true_eq, Char.le_def,
    beq_iff_eq] at hstart
  rcases hstart with (hlower | hupper) | rfl
  · have hlow : 97 ≤ c.toNat := hlower.1
    omega
  · have hlow : 65 ≤ c.toNat := hupper.1
    omega
  · exact absurd hhigh (by decide)

/-- All digits are taken, and they are read behind their sign. -/
theorem number_toDigits {sign : List Char} {n : Nat} {value : Int64}
    (hread : Decimal.readInt64 (sign ++ Nat.toDigits 10 n) = .ok value) :
    number sign (Nat.toDigits 10 n) = .ok (.int value, []) := by
  have hall : ∀ c ∈ Nat.toDigits 10 n, Text.isDigit c = true :=
    fun c hc => Text.isDigit_of_isDigit (Decimal.isDigit_toDigits hc)
  have htake : (Nat.toDigits 10 n).takeWhile Text.isDigit = Nat.toDigits 10 n :=
    List.takeWhile_eq_self_iff.mpr hall
  have hdrop : (Nat.toDigits 10 n).dropWhile Text.isDigit = [] :=
    List.dropWhile_eq_nil_iff.mpr hall
  simp only [number, htake, hdrop, hread]

theorem lexes_natText {n : Nat} (h : n < Nat.pow 2 63) :
    Lexes (Decimal.natText n).toList [.int (Int64.ofInt n)] := by
  have hnumber : number [] (Nat.toDigits 10 n) = .ok (.int (Int64.ofInt n), []) :=
    number_toDigits (Decimal.readInt64_toDigits h)
  rw [Decimal.natText, String.toList_ofList]
  obtain ⟨c, rest, hcons, hc⟩ := Decimal.exists_toDigits_eq_cons n
  rw [hcons] at hnumber ⊢
  refine .token ?_ (.done rfl : Lexes [] [])
  rw [List.dropWhile_cons_of_neg (by simp [isBlank_of_isDigit hc])]
  simp only [next, isNameStart_of_isDigit hc, Text.isDigit_of_isDigit hc, if_true,
    Bool.false_eq_true, if_false, hnumber]

theorem lexes_negative {n : Nat} (h : n ≤ Nat.pow 2 63) :
    Lexes ('-' :: Nat.toDigits 10 n) [.int (Int64.ofInt (-(n : Int)))] := by
  have hnumber : number ['-'] (Nat.toDigits 10 n) =
      .ok (.int (Int64.ofInt (-(n : Int))), []) :=
    number_toDigits (Decimal.readInt64_negative h)
  obtain ⟨c, rest, hcons, hc⟩ := Decimal.exists_toDigits_eq_cons n
  rw [hcons] at hnumber ⊢
  refine .token ?_ (.done rfl : Lexes [] [])
  have hnext : next ('-' :: c :: rest) =
      if Text.isDigit c then number ['-'] (c :: rest) else .error ['-'] := rfl
  rw [List.dropWhile_cons_of_neg (by decide), hnext,
    if_pos (Text.isDigit_of_isDigit hc), hnumber]

/-- An integer is written as one token. -/
theorem lexes_intText (n : Int64) :
    Lexes (Decimal.intText n.toInt).toList [.int n] := by
  have hlow := n.le_toInt
  have hhigh := n.toInt_lt
  unfold Decimal.intText
  split
  · have hlexes := lexes_negative (n := n.toInt.natAbs) (by
      show _ ≤ 9223372036854775808
      omega)
    have hvalue : -(n.toInt.natAbs : Int) = n.toInt := by omega
    rw [hvalue, Int64.ofInt_toInt] at hlexes
    simpa [Decimal.natText] using hlexes
  · have hlexes := lexes_natText (n := n.toInt.natAbs) (by
      show _ < 9223372036854775808
      omega)
    have hvalue : (n.toInt.natAbs : Int) = n.toInt := by omega
    rwa [hvalue, Int64.ofInt_toInt] at hlexes

theorem toInt_ofInt {n : Nat} (h : n < Nat.pow 2 63) :
    (Int64.ofInt n).toInt = n := by
  have hbound : n < 9223372036854775808 := h
  exact Int64.toInt_ofInt_of_le (by omega) (by omega)

end Token

end EntityMapper
