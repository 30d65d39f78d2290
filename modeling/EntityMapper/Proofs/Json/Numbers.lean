import EntityMapper.Json.Number
import EntityMapper.Proofs.Statement.Numerals

/-!
# Numbers in front of other text

A number in a JSON text ends where something follows that cannot continue it. A
reader is *local* if it reads a text in front of such an end as it reads the
text alone: it takes the same characters and gives the same value. All readers
of numbers are local, so a number that is read back when it stands alone is read
back inside an array or an object. Whole numbers are read back wherever they
stand, as long as they are within the ranges of whole numbers.
-/

namespace EntityMapper

namespace Decimal

theorem digitValue?_eq_none_iff {c : Char} :
    digitValue? c = none ↔ Text.isDigit c = false := by
  simp [digitValue?, Text.isDigit]

theorem digitValue?_of_isDigit {c : Char} (h : c.isDigit = true) :
    digitValue? c = some (c.toNat - '0'.toNat) := by
  rw [digitValue?, if_pos (isDigit_bounds h)]

/-- A number above zero is written without a leading zero. -/
theorem head_toDigits_ne_zero {n : Nat} (h : 0 < n) :
    (Nat.toDigits 10 n).head? ≠ some '0' := by
  induction n using Nat.strongRecOn with
  | ind n ih =>
    rcases Nat.lt_or_ge n 10 with hlt | hge
    · have hdigit : ∀ d < 10, 0 < d → [Nat.digitChar d].head? ≠ some '0' := by
        decide
      rw [Nat.toDigits_of_lt_base hlt]
      exact hdigit n hlt h
    · rw [Nat.toDigits_of_base_le (by decide) hge,
        List.head?_append, Option.or_of_isSome (by simp [Nat.toDigits_ne_nil])]
      exact ih (n / 10) (by omega) (by omega)

end Decimal

namespace Json

/-- No digit, point or exponent follows. -/
def EndsNumber (rest : List Char) : Prop :=
  ∀ c ∈ rest.head?, Text.isDigit c = false ∧ c ≠ '.' ∧ c ≠ 'e' ∧ c ≠ 'E'

theorem endsNumber_nil : EndsNumber [] := by simp [EndsNumber]

theorem EndsNumber.digit {rest : List Char} (h : EndsNumber rest) :
    ∀ c ∈ rest.head?, Text.isDigit c = false := fun c hc => (h c hc).1

/-! ## Local readers -/

/-- The reader takes characters off the front of a text, the same ones when the
end of a number follows. -/
def Local {α : Type} (r : Reader α) (text : List Char) : Prop :=
  ∀ a more, r text = .ok (a, more) → more <:+ text ∧
      ∀ rest, EndsNumber rest → r (text ++ rest) = .ok (a, more ++ rest)

/-- A reader that gives what another gives on a part of the text. -/
theorem Local.of_suffix {α : Type} {r q : Reader α} {text part : List Char}
    (h : Local q part) (hpart : part <:+ text) (halone : r text = q part)
    (hrest : ∀ rest, EndsNumber rest → r (text ++ rest) = q (part ++ rest)) :
    Local r text := by
  intro a more hrun
  obtain ⟨hsuffix, hlocal⟩ := h a more (halone ▸ hrun)
  exact ⟨hsuffix.trans hpart,
    fun rest hends => (hrest rest hends).trans (hlocal rest hends)⟩

theorem Local.of_error {α : Type} {r : Reader α} {text : List Char} {fault : Fault}
    (h : r text = .error fault) : Local r text := by
  intro a more hrun
  rw [h] at hrun
  cases hrun

section Readers

variable (strict negative : Bool)

theorem local_floatValue (word : Nat) (exponent : Int) (text : List Char) :
    Local (floatValue strict negative word exponent) text := by
  intro a more hrun
  unfold floatValue at hrun ⊢
  split at hrun
  · obtain ⟨rfl, rfl⟩ := Prod.mk.inj (Except.ok.inj hrun)
    exact ⟨List.suffix_rfl, fun rest _ => rfl⟩
  · split at hrun
    · cases hrun
    · next hstrict =>
      obtain ⟨rfl, rfl⟩ := Prod.mk.inj (Except.ok.inj hrun)
      exact ⟨List.suffix_rfl, fun rest _ => if_neg hstrict⟩

/-- The end of a number has no digits in front. -/
theorem dropWhile_isDigit_append {rest : List Char} (h : EndsNumber rest)
    (text : List Char) :
    (text ++ rest).dropWhile Text.isDigit = text.dropWhile Text.isDigit ++ rest :=
  Token.dropWhile_append_of_head h.digit text

theorem local_exponentDigits (word : Nat) (start : Int) (positive : Bool)
    (value : Nat) (text : List Char) :
    Local (exponentDigits strict negative word start positive value) text := by
  induction text generalizing value with
  | nil =>
    refine (local_floatValue strict negative word _ []).of_suffix
      List.suffix_rfl rfl ?_
    rintro (_ | ⟨c, rest⟩) hrest
    · rfl
    · have hc := Decimal.digitValue?_eq_none_iff.mpr (hrest.digit c rfl)
      simp only [List.nil_append, exponentDigits, hc]
  | cons c text ih =>
    cases hdigit : Decimal.digitValue? c with
    | none =>
      have halone (text : List Char) :
          exponentDigits strict negative word start positive value (c :: text) =
            floatValue strict negative word
              (if positive then start + value else start - value) (c :: text) := by
        simp only [exponentDigits, hdigit]
      exact (local_floatValue strict negative word _ (c :: text)).of_suffix
        List.suffix_rfl (halone text) fun rest _ => halone (text ++ rest)
    | some d =>
      by_cases hlarge : maxExponent < 10 * value + d
      · intro a more hrun
        have hsuffix := (List.dropWhile_suffix Text.isDigit (l := text)).trans
          (List.suffix_cons c text)
        simp only [List.cons_append, exponentDigits, hdigit,
          if_pos hlarge] at hrun ⊢
        by_cases hoverflow : word ≠ 0 ∧ positive = true
        · simp only [if_pos hoverflow] at hrun ⊢
          cases strict with
          | true => simp at hrun
          | false =>
            simp only [Bool.false_eq_true, if_false] at hrun ⊢
            obtain ⟨rfl, rfl⟩ := Prod.mk.inj (Except.ok.inj hrun)
            exact ⟨hsuffix,
              fun rest hrest => by rw [dropWhile_isDigit_append hrest]⟩
        · simp only [if_neg hoverflow] at hrun ⊢
          obtain ⟨rfl, rfl⟩ := Prod.mk.inj (Except.ok.inj hrun)
          exact ⟨hsuffix, fun rest hrest => by rw [dropWhile_isDigit_append hrest]⟩
      · refine (ih (10 * value + d)).of_suffix (List.suffix_cons c text) ?_
          fun rest _ => ?_
        · simp only [exponentDigits, hdigit, if_neg hlarge]
        · simp only [List.cons_append, exponentDigits, hdigit, if_neg hlarge]

/-- The digits of an exponent, behind its sign. -/
def signedExponent (word : Nat) (start : Int) (positive : Bool) :
    Reader (Option Number)
  | [] => .error (.here .endInValue [])
  | c :: rest =>
    match Decimal.digitValue? c with
    | some d => exponentDigits strict negative word start positive d rest
    | none => .error (.next .invalidNumber (c :: rest))

theorem exponentPart_unsigned (word : Nat) (start : Int) {c : Char}
    (hplus : c ≠ '+') (hminus : c ≠ '-') (rest : List Char) :
    exponentPart strict negative word start (c :: rest) =
      signedExponent strict negative word start true (c :: rest) := by
  unfold exponentPart
  split
  next heq =>
  split at heq
  · simp_all
  · simp_all
  · obtain ⟨rfl, rfl⟩ := Prod.mk.inj heq
    rfl

theorem local_signedExponent (word : Nat) (start : Int) (positive : Bool)
    (text : List Char) :
    Local (signedExponent strict negative word start positive) text := by
  rcases text with _ | ⟨c, text⟩
  · exact Local.of_error rfl
  cases hdigit : Decimal.digitValue? c with
  | none => exact Local.of_error (by simp only [signedExponent, hdigit]; rfl)
  | some d =>
    refine (local_exponentDigits strict negative word start positive d
        text).of_suffix (List.suffix_cons c text) ?_ fun rest _ => ?_
    · simp only [signedExponent, hdigit]
    · simp only [List.cons_append, signedExponent, hdigit]

theorem local_exponentPart (word : Nat) (start : Int) (text : List Char) :
    Local (exponentPart strict negative word start) text := by
  have hsigned := local_signedExponent strict negative word start
  rcases text with _ | ⟨c, text⟩
  · exact Local.of_error rfl
  by_cases hplus : c = '+'
  · subst hplus
    exact (hsigned true text).of_suffix (List.suffix_cons _ text) rfl fun _ _ => rfl
  by_cases hminus : c = '-'
  · subst hminus
    exact (hsigned false text).of_suffix (List.suffix_cons _ text) rfl
      fun _ _ => rfl
  · have hplain := exponentPart_unsigned strict negative word start hplus hminus
    exact (hsigned true (c :: text)).of_suffix List.suffix_rfl
        (hplain text) fun rest _ =>
      hplain (text ++ rest)

theorem afterFraction_plain (word : Nat) (exponent : Int) {text : List Char}
    (h : ∀ c ∈ text.head?, c ≠ 'e' ∧ c ≠ 'E') :
    afterFraction strict negative word exponent text =
      floatValue strict negative word exponent text := by
  unfold afterFraction
  split
  · exact absurd rfl (h 'e' rfl).1
  · exact absurd rfl (h 'E' rfl).2
  · rfl

theorem local_afterFraction (word : Nat) (exponent : Int) (text : List Char) :
    Local (afterFraction strict negative word exponent) text := by
  have hpart := local_exponentPart strict negative word exponent
  have hvalue := local_floatValue strict negative word exponent
  rcases text with _ | ⟨c, text⟩
  · refine (hvalue []).of_suffix List.suffix_rfl rfl fun rest hrest => ?_
    exact afterFraction_plain strict negative word exponent
      fun c hc => (hrest c hc).2.2
  by_cases hlower : c = 'e'
  · subst hlower
    exact (hpart text).of_suffix (List.suffix_cons _ text) rfl fun _ _ => rfl
  by_cases hupper : c = 'E'
  · subst hupper
    exact (hpart text).of_suffix (List.suffix_cons _ text) rfl fun _ _ => rfl
  · have hplain (more : List Char) :
        afterFraction strict negative word exponent (c :: more) =
          floatValue strict negative word exponent (c :: more) :=
      afterFraction_plain strict negative word exponent (by simp [hlower, hupper])
    exact (hvalue (c :: text)).of_suffix List.suffix_rfl (hplain text) fun rest _ =>
      hplain (text ++ rest)

theorem local_fractionDigits (exponent : Int) (started : Bool) (word places : Nat)
    (text : List Char) :
    Local (fractionDigits strict negative exponent started word places) text := by
  induction text generalizing started word places with
  | nil =>
    cases started with
    | false => exact Local.of_error rfl
    | true =>
      refine (local_afterFraction strict negative word (exponent - places)
          []).of_suffix List.suffix_rfl rfl fun rest hrest => ?_
      rcases rest with _ | ⟨c, rest⟩
      · rfl
      · have hc := Decimal.digitValue?_eq_none_iff.mpr (hrest.digit c rfl)
        simp only [List.nil_append, fractionDigits, hc, if_true]
  | cons c text ih =>
    cases hdigit : Decimal.digitValue? c with
    | none =>
      cases started with
      | false => exact Local.of_error (by simp only [fractionDigits, hdigit]; rfl)
      | true =>
        refine (local_afterFraction strict negative word (exponent - places)
            (c :: text)).of_suffix List.suffix_rfl
          (by simp only [fractionDigits, hdigit, if_true]) fun rest _ => ?_
        simp only [List.cons_append, fractionDigits, hdigit, if_true]
    | some d =>
      by_cases hlarge : maxWord < 10 * word + d
      · refine (local_afterFraction strict negative word (exponent - places)
          (text.dropWhile Text.isDigit)).of_suffix ?_ ?_ fun rest hrest => ?_
        · exact (List.dropWhile_suffix _).trans (List.suffix_cons c text)
        · simp only [fractionDigits, hdigit, if_pos hlarge]
        · simp only [List.cons_append, fractionDigits, hdigit, if_pos hlarge,
            dropWhile_isDigit_append hrest]
      · refine (ih true (10 * word + d) (places + 1)).of_suffix
          (List.suffix_cons c text) ?_ fun rest _ => ?_
        · simp only [fractionDigits, hdigit, if_neg hlarge]
        · simp only [List.cons_append, fractionDigits, hdigit, if_neg hlarge]

theorem afterWhole_plain (word : Nat) (exponent : Int) {text : List Char}
    (h : ∀ c ∈ text.head?, c ≠ '.') :
    afterWhole strict negative word exponent text =
      afterFraction strict negative word exponent text := by
  unfold afterWhole
  split
  · exact absurd rfl (h '.' rfl)
  · rfl

theorem local_afterWhole (word : Nat) (exponent : Int) (text : List Char) :
    Local (afterWhole strict negative word exponent) text := by
  have hafter := local_afterFraction strict negative word exponent
  rcases text with _ | ⟨c, text⟩
  · refine (hafter []).of_suffix List.suffix_rfl rfl fun rest hrest => ?_
    exact afterWhole_plain strict negative word exponent
      fun c hc => (hrest c hc).2.1
  by_cases hpoint : c = '.'
  · subst hpoint
    exact (local_fractionDigits strict negative exponent false word 0
        text).of_suffix (List.suffix_cons _ text) rfl fun _ _ => rfl
  · have hplain (more : List Char) :
        afterWhole strict negative word exponent (c :: more) =
          afterFraction strict negative word exponent (c :: more) :=
      afterWhole_plain strict negative word exponent (by simp [hpoint])
    exact (hafter (c :: text)).of_suffix List.suffix_rfl (hplain text) fun rest _ =>
      hplain (text ++ rest)

theorem wholeDigits_end (word : Nat) {rest : List Char} (h : EndsNumber rest) :
    wholeDigits strict negative word rest =
      .ok (some (wholeValue negative word), rest) := by
  rcases rest with _ | ⟨c, rest⟩
  · rfl
  · obtain ⟨hdigit, hpoint, hlower, hupper⟩ := h c rfl
    simp only [wholeDigits, Decimal.digitValue?_eq_none_iff.mpr hdigit, hpoint,
      hlower, hupper, or_self, if_false]

theorem local_wholeDigits (word : Nat) (text : List Char) :
    Local (wholeDigits strict negative word) text := by
  induction text generalizing word with
  | nil =>
    intro a more hrun
    obtain ⟨rfl, rfl⟩ := Prod.mk.inj (Except.ok.inj hrun)
    exact ⟨List.suffix_rfl,
      fun rest hrest => wholeDigits_end strict negative word hrest⟩
  | cons c text ih =>
    cases hdigit : Decimal.digitValue? c with
    | none =>
      by_cases hmark : c = '.' ∨ c = 'e' ∨ c = 'E'
      · refine (local_afterWhole strict negative word 0 (c :: text)).of_suffix
          List.suffix_rfl (by simp only [wholeDigits, hdigit, if_pos hmark])
          fun rest _ => ?_
        simp only [List.cons_append, wholeDigits, hdigit, if_pos hmark]
      · intro a more hrun
        simp only [List.cons_append, wholeDigits, hdigit, if_neg hmark] at hrun ⊢
        obtain ⟨rfl, rfl⟩ := Prod.mk.inj (Except.ok.inj hrun)
        exact ⟨List.suffix_rfl, fun rest _ => rfl⟩
    | some d =>
      by_cases hlarge : maxWord < 10 * word + d
      · refine (local_afterWhole strict negative word
            ((c :: text).takeWhile Text.isDigit).length
            ((c :: text).dropWhile Text.isDigit)).of_suffix
          (List.dropWhile_suffix _) ?_ fun rest hrest => ?_
        · simp only [wholeDigits, hdigit, if_pos hlarge]
        · rw [← dropWhile_isDigit_append hrest,
            ← Token.takeWhile_append_of_head hrest.digit (c :: text)]
          simp only [List.cons_append, wholeDigits, hdigit, if_pos hlarge]
      · refine (ih (10 * word + d)).of_suffix (List.suffix_cons c text) ?_
          fun rest _ => ?_
        · simp only [wholeDigits, hdigit, if_neg hlarge]
        · simp only [List.cons_append, wholeDigits, hdigit, if_neg hlarge]

/-- A number in front of the end of a number is read as it is read alone. -/
theorem local_readNumber (text : List Char) :
    Local (readNumber strict negative) text := by
  rcases text with _ | ⟨c, text⟩
  · exact Local.of_error rfl
  rcases hdigit : Decimal.digitValue? c with _ | _ | d
  · exact Local.of_error (by simp only [readNumber, hdigit]; rfl)
  · rcases text with _ | ⟨d, text⟩
    · refine (local_wholeDigits strict negative 0 []).of_suffix
        (List.suffix_cons c []) (by simp only [readNumber, hdigit])
        fun rest hrest => ?_
      rcases rest with _ | ⟨d, rest⟩
      · simp only [List.append_nil, readNumber, hdigit]
      · simp [readNumber, hdigit, hrest.digit d rfl]
    · by_cases hd : Text.isDigit d = true
      · exact Local.of_error (by simp only [readNumber, hdigit, if_pos hd]; rfl)
      · refine (local_wholeDigits strict negative 0 (d :: text)).of_suffix
          (List.suffix_cons c (d :: text)) ?_ fun rest _ => ?_
        · simp only [readNumber, hdigit, if_neg hd]
        · simp only [List.cons_append, readNumber, hdigit, if_neg hd]
  · refine (local_wholeDigits strict negative (d + 1) text).of_suffix
      (List.suffix_cons c text) ?_ fun rest _ => ?_
    · simp only [readNumber, hdigit]
    · simp only [List.cons_append, readNumber, hdigit]

/-! ## Whole numbers -/

/-- Digits that stay within a word are read as the number they spell. -/
theorem wholeDigits_eq_ok {digits rest : List Char} {word : Nat}
    (hdigits : ∀ c ∈ digits, c.isDigit = true)
    (hbound : Nat.ofDigitChars 10 digits word ≤ maxWord) (hrest : EndsNumber rest) :
    wholeDigits strict negative word (digits ++ rest) =
      .ok (some (wholeValue negative (Nat.ofDigitChars 10 digits word)), rest) := by
  induction digits generalizing word with
  | nil => simpa using wholeDigits_end strict negative word hrest
  | cons c digits ih =>
    rw [Nat.ofDigitChars_cons] at hbound ⊢
    have hc := Decimal.digitValue?_of_isDigit (hdigits c (List.mem_cons_self ..))
    have hle := Nat.le_trans (Decimal.le_ofDigitChars digits _) hbound
    simp only [List.cons_append, wholeDigits, hc, if_neg (Nat.not_lt.mpr hle)]
    exact ih (fun d hd => hdigits d (List.mem_cons_of_mem c hd)) hbound

/-- A number is written without leading zeros, so all its digits are read. -/
theorem readNumber_toDigits {n : Nat} (h : n ≤ maxWord) {rest : List Char}
    (hrest : EndsNumber rest) :
    readNumber strict negative (Nat.toDigits 10 n ++ rest) =
      .ok (some (wholeValue negative n), rest) := by
  have hvalue : Nat.ofDigitChars 10 (Nat.toDigits 10 n) 0 = n :=
    Nat.ofDigitChars_ten_toDigits
  obtain ⟨c, digits, hcons, hc⟩ := Decimal.exists_toDigits_eq_cons n
  have hdigits : ∀ d ∈ digits, d.isDigit = true := fun d hd =>
    Decimal.isDigit_toDigits (n := n)
      (by rw [hcons]; exact List.mem_cons_of_mem c hd)
  have hread : wholeDigits strict negative (c.toNat - '0'.toNat) (digits ++ rest) =
      .ok (some (wholeValue negative n), rest) := by
    rw [hcons, Nat.ofDigitChars_cons, Nat.mul_zero, Nat.zero_add] at hvalue
    rw [wholeDigits_eq_ok strict negative hdigits (by rw [hvalue]; exact h) hrest,
      hvalue]
  have hdigit := Decimal.digitValue?_of_isDigit hc
  rw [hcons, List.cons_append]
  rcases hd : c.toNat - '0'.toNat with _ | d
  · -- A leading zero is the whole number.
    have hc0 : c = '0' := by
      have hlow : 48 ≤ c.toNat := (Decimal.isDigit_bounds hc).1
      have hcode : c.toNat = '0'.toNat := by
        have h48 : '0'.toNat = 48 := rfl
        omega
      exact Char.toNat_inj.mp hcode
    obtain rfl : n = 0 := by
      by_contra hne
      exact Decimal.head_toDigits_ne_zero (Nat.pos_of_ne_zero hne)
        (by rw [hcons, hc0]; rfl)
    obtain rfl : digits = [] := by
      rw [Nat.toDigits_zero] at hcons
      exact (List.cons.inj hcons).2.symm
    rw [hd, List.nil_append] at hread
    rcases rest with _ | ⟨d, rest⟩
    · simp only [List.nil_append, readNumber, hdigit, hd, hread]
    · simp only [List.nil_append, readNumber, hdigit, hd, hrest.digit d rfl,
        Bool.false_eq_true, if_false, hread]
  · rw [hd] at hread hdigit
    simp only [readNumber, hdigit, hread]

end Readers

end Json

end EntityMapper
