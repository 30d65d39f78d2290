import Mathlib.Data.List.TakeWhile
import EntityMapper.Proofs.Statement.Numerals
import EntityMapper.Proofs.Text.Lowercase

/-!
# Other spellings of the same tokens

A command is spelled anew by changing the letter case of its tokens, as far as
they do not stand in quotes, and by changing the blanks between them. The new
text is cut into the same tokens, bare names apart, which keep their letter case
until the parser folds it. The lexer takes tokens as long as possible, so the
argument is about what stands behind a token: where a token used to end, the new
text has a blank, or the old character in some letter case, and neither makes
the token longer. A point behind an integer needs a second character, the digit
that would make it a decimal.
-/

namespace EntityMapper

namespace Text

theorem isDigit_iff {c : Char} : isDigit c = true ↔ c.isDigit = true := Iff.rfl

theorem isLetter_of_isDigit {c : Char} (h : isDigit c = true) :
    isLetter c = false :=
  (Bool.or_eq_false_iff.mp (Token.isNameStart_of_isDigit (isDigit_iff.mp h))).1

/-! ## Letters in either case -/

theorem isLetter_asciiLower (c : Char) : isLetter (asciiLower c) = isLetter c := by
  cases hupper : isUpper c with
  | true =>
    have hbounds := isUpper_iff.mp hupper
    have hcode := toNat_asciiLower c hupper
    have hlower : isLower (asciiLower c) = true := by
      simp only [isLower, Bool.and_eq_true, decide_eq_true_eq, Char.le_def,
        UInt32.le_iff_toNat_le]
      show 97 ≤ (asciiLower c).toNat ∧ (asciiLower c).toNat ≤ 122
      omega
    simp [isLetter, hupper, hlower]
  | false => rw [← asciiLower_eq_self rfl hupper]

theorem asciiLower_of_not_letter {c : Char} (h : isLetter c = false) :
    asciiLower c = c := by
  have hupper : isUpper c = false := (Bool.or_eq_false_iff.mp h).2
  exact (asciiLower_eq_self rfl hupper).symm

/-- Only letters have two cases. -/
theorem eq_of_asciiLower_eq {c d : Char} (h : asciiLower c = asciiLower d)
    (hc : isLetter c = false) : d = c := by
  have hd : isLetter d = false := by
    rw [← isLetter_asciiLower, ← h, isLetter_asciiLower, hc]
  rw [← asciiLower_of_not_letter hd, ← h, asciiLower_of_not_letter hc]

/-- A kind of characters that has all letters or none does not see their case. -/
theorem kind_asciiLower {p : Char → Bool} {b : Bool}
    (h : ∀ c, isLetter c = true → p c = b) (c : Char) : p (asciiLower c) = p c := by
  cases hletter : isLetter c with
  | true => rw [h c hletter, h _ ((isLetter_asciiLower c).trans hletter)]
  | false => rw [asciiLower_of_not_letter hletter]

theorem isDigit_asciiLower (c : Char) : isDigit (asciiLower c) = isDigit c := by
  refine kind_asciiLower (b := false) (fun c hletter => ?_) c
  rw [Bool.eq_false_iff]
  intro hdigit
  rw [isLetter_of_isDigit hdigit] at hletter
  cases hletter

/-- The same characters up to the case of letters. -/
def SameLetters (text other : List Char) : Prop :=
  text.map asciiLower = other.map asciiLower

theorem SameLetters.eq {text other : List Char} (h : SameLetters text other)
    (htext : ∀ c ∈ text, isLetter c = false) : other = text := by
  induction text generalizing other with
  | nil => simpa [SameLetters, eq_comm] using h
  | cons c text ih =>
    cases other with
    | nil => simp [SameLetters] at h
    | cons d other =>
      obtain ⟨hhead, htail⟩ := List.cons.inj h
      rw [eq_of_asciiLower_eq hhead (htext c (List.mem_cons_self ..)),
        ih htail fun e he => htext e (List.mem_cons_of_mem c he)]

theorem SameLetters.forall_iff {p : Char → Bool} (hp : ∀ c, p (asciiLower c) = p c)
    {text other : List Char} (h : SameLetters text other) :
    (∀ c ∈ text, p c = true) ↔ ∀ c ∈ other, p c = true := by
  have hall (text : List Char) : (∀ c ∈ text, p c = true) ↔
      ∀ c ∈ text.map asciiLower, p c = true := by simp [hp]
  rw [hall text, hall other, show text.map asciiLower = other.map asciiLower from h]

end Text

namespace Token

/-! ## Spellings -/

/-- Whether a token stands in quotes, where every character counts. -/
def isQuoted : Token → Bool
  | .quotedName _ | .string _ => true
  | _ => false

/-- A token as the parser sees it: the letter case of a bare name does not count. -/
def folded : Token → Token
  | .name text => .name (Text.toAsciiLower text)
  | t => t

/-- A text that is cut into tokens, and the same text spelled anew: other blanks
before, between and behind the tokens, and other letter case in every token that
does not stand in quotes. Tokens may only touch where they touched before.
Between tokens `behind` is true: a token stands in front of the text. -/
inductive Respelled : (behind : Bool) → List Char → List Char → Prop
  | blanks {behind : Bool} {gap other : List Char}
      (hgap : ∀ c ∈ gap, isBlank c = true)
      (hother : ∀ c ∈ other, isBlank c = true) : Respelled behind gap other
  | token {behind : Bool} {gap gap' lexeme lexeme' rest rest' : List Char}
      {t : Token} (hgap : ∀ c ∈ gap, isBlank c = true)
      (hgap' : ∀ c ∈ gap', isBlank c = true)
      (hapart : behind = true → gap ≠ [] → gap' ≠ [])
      (hnext : next (lexeme ++ rest) = .ok (t, rest))
      (hlexeme : if t.isQuoted then
        lexeme' = lexeme else Text.SameLetters lexeme lexeme')
      (hrest : Respelled true rest rest') :
      Respelled behind (gap ++ (lexeme ++ rest)) (gap' ++ (lexeme' ++ rest'))

/-! ## Where a token ends -/

/-- The second text begins with a blank, or as the first does up to letter case,
or it is empty. -/
def Meets (rest rest' : List Char) : Prop :=
  ∀ d ∈ rest'.head?, isBlank d = true ∨
    ∃ c ∈ rest.head?, Text.asciiLower c = Text.asciiLower d

/-- What ended a token ends it still: a kind of characters that has no blanks
and knows no letter case. -/
theorem Meets.head_false {p : Char → Bool} (hp : ∀ c, p (Text.asciiLower c) = p c)
    (hblank : ∀ c, isBlank c = true → p c = false) {rest rest' : List Char}
    (h : Meets rest rest') (hrest : ∀ c ∈ rest.head?, p c = false) :
    ∀ d ∈ rest'.head?, p d = false := by
  intro d hd
  rcases h d hd with hd | ⟨c, hc, hsame⟩
  · exact hblank d hd
  · rw [← hp d, ← hsame, hp c]
    exact hrest c hc

/-- A mark behind the second text stood behind the first one, too. -/
theorem Meets.head_eq {rest rest' : List Char} (h : Meets rest rest') {d : Char}
    (hd : d ∈ rest'.head?) (hblank : isBlank d = false)
    (hletter : Text.isLetter d = false) : d ∈ rest.head? := by
  rcases h d hd with hd | ⟨c, hc, hsame⟩
  · rw [hblank] at hd
    cases hd
  · rwa [Text.eq_of_asciiLower_eq hsame.symm hletter] at hc

theorem exists_lexeme_cons {lexeme rest : List Char} {t : Token}
    (h : next (lexeme ++ rest) = .ok (t, rest)) : ∃ c w, lexeme = c :: w := by
  refine List.exists_cons_of_ne_nil ?_
  rintro rfl
  exact absurd (length_next_lt h) (Nat.lt_irrefl _)

/-- A token in quotes keeps its text, any other keeps its letters. -/
theorem sameLetters_of_lexeme {t : Token} {lexeme lexeme' : List Char}
    (h : if t.isQuoted then lexeme' = lexeme else Text.SameLetters lexeme lexeme') :
    Text.SameLetters lexeme lexeme' := by
  split at h
  · rw [h, Text.SameLetters]
  · exact h

/-- Behind a token, another spelling begins with a blank or with the first token
of the text. -/
theorem Respelled.head_cases {rest rest' : List Char}
    (h : Respelled true rest rest') :
    (∀ d ∈ rest'.head?, isBlank d = true) ∨ ∃ c d w w' more more' t,
        rest = c :: (w ++ more) ∧ rest' = d :: (w' ++ more') ∧
          Text.asciiLower c = Text.asciiLower d ∧ Text.SameLetters w w' ∧
          next (c :: (w ++ more)) = .ok (t, more) ∧ Respelled true more more' := by
  cases h with
  | blanks _ hother => exact .inl fun d hd => hother d (List.mem_of_mem_head? hd)
  | @token _ gap gap' lexeme lexeme' more more' t _ hgap' hapart hnext hlexeme hmore =>
    rcases gap' with _ | ⟨e, gap'⟩
    · obtain rfl : gap = [] := by_contra fun hne => hapart rfl hne rfl
      have hletters := sameLetters_of_lexeme hlexeme
      obtain ⟨c, w, rfl⟩ := exists_lexeme_cons hnext
      rcases lexeme' with _ | ⟨d, w'⟩
      · simp [Text.SameLetters] at hletters
      · obtain ⟨hhead, htail⟩ := List.cons.inj hletters
        exact .inr ⟨c, d, w, w', more, more', t, rfl, rfl, hhead,
          htail, hnext, hmore⟩
    · refine .inl fun d hd => ?_
      obtain rfl := Option.some.inj hd
      exact hgap' e (List.mem_cons_self ..)

theorem Respelled.meets {rest rest' : List Char} (h : Respelled true rest rest') :
    Meets rest rest' := by
  intro d hd
  rcases h.head_cases
    with hblank | ⟨c, e, w, w', more, more', t, rfl, rfl, hhead, -⟩
  · exact .inl (hblank d hd)
  · obtain rfl := Option.some.inj hd
    exact .inr ⟨c, rfl, hhead⟩

/-- No point with a digit behind it comes up where there was none. -/
theorem Respelled.point {rest more : List Char} {d : Char}
    (h : Respelled true rest ('.' :: d :: more)) (hd : Text.isDigit d = true) :
    ∃ others, rest = '.' :: d :: others := by
  rcases h.head_cases with
    hblank | ⟨c, e, w, w', after, after', t, rfl, htext, hhead, htail,
      hnext, hafter⟩
  · exact absurd (hblank '.' rfl) (by decide)
  obtain ⟨rfl, hmore⟩ := List.cons.inj htext
  obtain rfl := Text.eq_of_asciiLower_eq hhead.symm (by decide)
  -- The point is a token on its own.
  have hdot : next ('.' :: (w ++ after)) = .ok (.symbol .dot, w ++ after) := rfl
  obtain ⟨-, hlength⟩ := Prod.mk.inj (Except.ok.inj (hdot.symm.trans hnext))
  obtain rfl : w = [] := by simpa using hlength
  obtain rfl : w' = [] := by simpa [Text.SameLetters] using htail.symm
  rw [List.nil_append] at hmore
  subst hmore
  have hblank := isBlank_of_isDigit (Text.isDigit_iff.mp hd)
  have hsome := hafter.meets.head_eq rfl hblank (Text.isLetter_of_isDigit hd)
  obtain ⟨others, hothers⟩ := List.head?_eq_some_iff.mp hsome
  exact ⟨others, by simp [hothers]⟩

/-! ## Longest runs -/

theorem head_dropWhile {p : Char → Bool} (text : List Char) :
    ∀ c ∈ (text.dropWhile p).head?, p c = false := by
  intro c hc
  have hnot := List.head?_dropWhile_not p text
  rwa [Option.mem_def.mp hc] at hnot

/-- A run of characters of a kind ends where the next character is not of that
kind. -/
theorem takeWhile_run {p : Char → Bool} {run rest : List Char}
    (hrun : ∀ c ∈ run, p c = true) (hrest : ∀ c ∈ rest.head?, p c = false) :
    (run ++ rest).takeWhile p = run := by
  rw [takeWhile_append_of_head hrest, List.takeWhile_eq_self_iff.mpr hrun]

theorem dropWhile_run {p : Char → Bool} {run rest : List Char}
    (hrun : ∀ c ∈ run, p c = true) (hrest : ∀ c ∈ rest.head?, p c = false) :
    (run ++ rest).dropWhile p = rest := by
  rw [dropWhile_append_of_head hrest, List.dropWhile_eq_nil_iff.mpr hrun,
    List.nil_append]

/-! ## Numbers -/

/-- The characters and the value of a number behind its sign. -/
inductive Numeral (sign : List Char) : List Char → Token → Prop
  | whole {digits : List Char} {n : Int64}
      (hdigits : ∀ c ∈ digits, Text.isDigit c = true)
      (hread : Decimal.readInt64 (sign ++ digits) = .ok n) :
      Numeral sign digits (.int n)
  | decimal {digits fraction : List Char} {d : Char} {x : Binary64}
      (hdigits : ∀ c ∈ digits, Text.isDigit c = true)
      (hfraction : ∀ c ∈ d :: fraction, Text.isDigit c = true)
      (hread : Decimal.readBinary64 (sign ++ digits ++ '.' :: d :: fraction) =
        .ok x) : Numeral sign (digits ++ '.' :: d :: fraction) (.float x)

/-- A point with a digit behind it. -/
def Places (text : List Char) : Prop :=
  ∃ d more, text = '.' :: d :: more ∧ Text.isDigit d = true

/-- A number ends where neither digits nor decimal places follow. -/
structure EndsNumber (t : Token) (rest : List Char) : Prop where
  digit : ∀ c ∈ rest.head?, Text.isDigit c = false
  places : (∃ n, t = .int n) → ¬ Places rest

theorem number_cases {sign text rest : List Char} {t : Token}
    (h : number sign text = .ok (t, rest)) :
    EndsNumber t rest ∧
      ∃ lexeme, text = lexeme ++ rest ∧ Numeral sign lexeme t := by
  have hdigits : ∀ c ∈ text.takeWhile Text.isDigit, Text.isDigit c = true :=
    fun c hc => List.mem_takeWhile_imp hc
  have hsplit := List.takeWhile_append_dropWhile (p := Text.isDigit) (l := text)
  have hwhole {n : Int64} (hplaces : ¬ Places (text.dropWhile Text.isDigit))
      (hread : Decimal.readInt64 (sign ++ text.takeWhile Text.isDigit) = .ok n) :
      EndsNumber (.int n) (text.dropWhile Text.isDigit) ∧
        ∃ lexeme, text = lexeme ++ text.dropWhile Text.isDigit ∧
          Numeral sign lexeme (.int n) :=
    ⟨⟨head_dropWhile text, fun _ => hplaces⟩, _, hsplit.symm, .whole hdigits hread⟩
  unfold number at h
  dsimp only at h
  split at h
  · next d more hafter =>
    split at h
    · next hd =>
      have hrun :=
        List.takeWhile_append_dropWhile (p := Text.isDigit) (l := d :: more)
      have hfraction : ∀ c ∈ (d :: more).takeWhile Text.isDigit,
          Text.isDigit c = true :=
        fun c hc => List.mem_takeWhile_imp hc
      split at h
      · next x hread =>
        obtain ⟨rfl, rfl⟩ := Prod.mk.inj (Except.ok.inj h)
        rw [List.takeWhile_cons_of_pos hd] at hrun hfraction hread
        refine ⟨⟨head_dropWhile _, by simp⟩, _, ?_,
          .decimal hdigits hfraction hread⟩
        calc
          text = text.takeWhile Text.isDigit ++ '.' :: d :: more := by
            rw [← hafter, hsplit]
          _ = _ := by rw [List.append_assoc, List.cons_append, hrun]
      · cases h
    · next hd =>
      split at h
      · next n hread =>
        obtain ⟨rfl, rfl⟩ := Prod.mk.inj (Except.ok.inj h)
        refine hwhole ?_ hread
        rw [hafter]
        rintro ⟨e, others, heq, he⟩
        obtain ⟨rfl, -⟩ := List.cons.inj (List.cons.inj heq).2
        exact hd he
      · cases h
  · next hafter =>
    split at h
    · next n hread =>
      obtain ⟨rfl, rfl⟩ := Prod.mk.inj (Except.ok.inj h)
      refine hwhole ?_ hread
      rintro ⟨d, more, heq, -⟩
      exact hafter d more heq
    · cases h

theorem Numeral.number_append {sign lexeme rest : List Char} {t : Token}
    (h : Numeral sign lexeme t) (hrest : EndsNumber t rest) :
    number sign (lexeme ++ rest) = .ok (t, rest) := by
  cases h with
  | @whole digits n hdigits hread =>
    unfold number
    simp only [takeWhile_run hdigits hrest.digit,
      dropWhile_run hdigits hrest.digit, hread]
    split
    · next d more =>
      have hd : Text.isDigit d ≠ true :=
        fun hd => hrest.places ⟨n, rfl⟩ ⟨d, more, rfl, hd⟩
      rw [if_neg hd]
    · rfl
  | @decimal digits fraction d x hdigits hfraction hread =>
    have hpoint : ∀ c ∈ ('.' :: d :: (fraction ++ rest)).head?,
        Text.isDigit c = false := by
      rintro c ⟨⟩
      decide
    unfold number
    rw [List.append_assoc, List.cons_append, List.cons_append,
      takeWhile_run hdigits hpoint, dropWhile_run hdigits hpoint]
    simp only [hfraction d (List.mem_cons_self ..), if_true]
    rw [← List.cons_append, takeWhile_run hfraction hrest.digit,
      dropWhile_run hfraction hrest.digit]
    simp only [hread]

theorem Numeral.isLetter {sign lexeme : List Char} {t : Token}
    (h : Numeral sign lexeme t) : ∀ c ∈ lexeme, Text.isLetter c = false := by
  intro c hc
  cases h with
  | whole hdigits _ => exact Text.isLetter_of_isDigit (hdigits c hc)
  | decimal hdigits hfraction _ =>
    rcases List.mem_append.mp hc with hc | hc
    · exact Text.isLetter_of_isDigit (hdigits c hc)
    · rcases List.mem_cons.mp hc with rfl | hc
      · decide
      · exact Text.isLetter_of_isDigit (hfraction c hc)

theorem Numeral.isQuoted {sign lexeme : List Char} {t : Token}
    (h : Numeral sign lexeme t) : t.isQuoted = false := by
  cases h <;> rfl

/-! ## Quoted texts -/

/-- A quoted text is as long as the closing quote says, whatever follows that is
no quote. -/
theorem unquote_split {quote : Char} {text body rest : List Char}
    (h : unquote? quote text = some (body, rest)) :
    (∀ c ∈ rest.head?, c ≠ quote) ∧ ∃ lexeme, text = lexeme ++ rest ∧
      unquote? quote lexeme = some (body, []) := by
  fun_induction unquote? quote text generalizing body rest with
  | case1 => simp at h
  | case2 =>
    obtain ⟨rfl, rfl⟩ := Prod.mk.inj (Option.some.inj h)
    exact ⟨by simp, [quote], rfl, by simp [unquote?]⟩
  | case3 => simp at h
  | case4 text ih =>
    obtain ⟨⟨body', rest'⟩, hbody, heq⟩ := Option.map_eq_some_iff.mp h
    obtain ⟨rfl, rfl⟩ := Prod.mk.inj heq
    obtain ⟨hhead, lexeme, rfl, hlexeme⟩ := ih hbody
    exact ⟨hhead, quote :: quote :: lexeme, rfl, by simp [unquote?, hlexeme]⟩
  | case5 d text hne =>
    obtain ⟨rfl, rfl⟩ := Prod.mk.inj (Option.some.inj h)
    exact ⟨by simpa using hne, [quote], rfl, by simp [unquote?]⟩
  | case6 c d text hne ih =>
    obtain ⟨⟨body', rest'⟩, hbody, heq⟩ := Option.map_eq_some_iff.mp h
    obtain ⟨rfl, rfl⟩ := Prod.mk.inj heq
    obtain ⟨hhead, lexeme, hsplit, hlexeme⟩ := ih hbody
    refine ⟨hhead, c :: lexeme, by rw [hsplit, List.cons_append], ?_⟩
    obtain ⟨e, others, rfl⟩ : ∃ e others, lexeme = e :: others := by
      refine List.exists_cons_of_ne_nil ?_
      rintro rfl
      simp [unquote?] at hlexeme
    simp [unquote?, hne, hlexeme]

theorem unquote_respelled {quote : Char} {w body rest rest' : List Char}
    (hquote : quote = '"' ∨ quote = '\'')
    (h : unquote? quote (w ++ rest) = some (body, rest))
    (hmeets : Meets rest rest') :
    unquote? quote (w ++ rest') = some (body, rest') := by
  obtain ⟨hhead, others, heq, hw⟩ := unquote_split h
  obtain rfl := List.append_cancel_right heq
  refine unquote_append hw fun d hd hsame => ?_
  have hsome : d ∈ rest.head? := by
    subst hsame
    apply hmeets.head_eq hd
    all_goals rcases hquote with rfl | rfl <;> decide
  exact hhead d hsome hsame

/-! ## Symbols -/

theorem letterless {text : List Char}
    (h : (text.all fun c => !Text.isLetter c) = true) :
    ∀ c ∈ text, Text.isLetter c = false := by
  simpa using h

theorem eq_singleton {lexeme rest : List Char} {c : Char}
    (h : lexeme ++ rest = c :: rest) : lexeme = [c] := List.append_cancel_right h

theorem eq_pair {lexeme rest : List Char} {c d : Char}
    (h : lexeme ++ rest = c :: d :: rest) : lexeme = [c, d] :=
  List.append_cancel_right h

/-- A symbol is its own text; only an angle bracket depends on what follows it. -/
theorem symbol_of_meets {lexeme rest rest' : List Char} {s : Symbol}
    (h : symbol? (lexeme ++ rest) = some (s, rest)) (hmeets : Meets rest rest') :
    (∀ c ∈ lexeme, Text.isLetter c = false) ∧
      symbol? (lexeme ++ rest') = some (s, rest') := by
  have hmark {d : Char} (hd : d = '=' ∨ d = '>') {more : List Char}
      (heq : rest' = d :: more) : ∃ others, rest = d :: others := by
    refine List.head?_eq_some_iff.mp (hmeets.head_eq (by rw [heq]; rfl) ?_ ?_)
    all_goals rcases hd with rfl | rfl <;> decide
  unfold symbol? at h
  split at h
  case h_1 heq | h_2 heq | h_3 heq | h_4 heq =>
    obtain ⟨rfl, rfl⟩ := Prod.mk.inj (Option.some.inj h)
    obtain rfl := eq_pair heq
    exact ⟨letterless rfl, rfl⟩
  case h_7 hne hle heq =>
    obtain ⟨rfl, rfl⟩ := Prod.mk.inj (Option.some.inj h)
    obtain rfl := eq_singleton heq
    have hlt : symbol? ['<'] = some (.lt, []) := rfl
    refine ⟨letterless rfl, symbol_append hlt fun d hd => ?_⟩
    obtain ⟨more, hmore⟩ := List.head?_eq_some_iff.mp hd
    constructor
    · rintro rfl
      obtain ⟨others, hothers⟩ := hmark (.inl rfl) hmore
      exact hle others (by rw [hothers])
    · rintro rfl
      obtain ⟨others, hothers⟩ := hmark (.inr rfl) hmore
      exact hne others (by rw [hothers])
  case h_8 hge heq =>
    obtain ⟨rfl, rfl⟩ := Prod.mk.inj (Option.some.inj h)
    obtain rfl := eq_singleton heq
    refine ⟨letterless rfl, ?_⟩
    rcases rest' with _ | ⟨d, more⟩
    · rfl
    · have hd : d ≠ '=' := by
        rintro rfl
        obtain ⟨others, hothers⟩ := hmark (.inl rfl) rfl
        exact hge others (by rw [hothers])
      simp [symbol?, hd]
  case h_15 => cases h
  all_goals
    next heq =>
    obtain ⟨rfl, rfl⟩ := Prod.mk.inj (Option.some.inj h)
    obtain rfl := eq_singleton heq
    exact ⟨letterless rfl, rfl⟩

/-! ## One token -/

theorem not_isNameChar_of_isBlank {c : Char} (h : isBlank c = true) :
    isNameChar c = false := by
  simp only [isBlank, Bool.or_eq_true, beq_iff_eq] at h
  obtain ((rfl | rfl) | rfl) | rfl := h <;> decide

theorem not_isDigit_of_isBlank {c : Char} (h : isBlank c = true) :
    Text.isDigit c = false :=
  (Bool.or_eq_false_iff.mp (not_isNameChar_of_isBlank h)).2

/-- Words with the same letters are the same keyword, or names that fold to one. -/
theorem folded_ofWord {word other : List Char} (h : Text.SameLetters word other) :
    (ofWord other).folded = (ofWord word).folded := by
  have hmap : other.map Text.asciiLower = word.map Text.asciiLower := h.symm
  unfold ofWord
  rw [hmap]
  cases Keyword.ofText? (String.ofList (word.map Text.asciiLower)) with
  | some k => rfl
  | none =>
    simp only [folded, Text.toAsciiLower, Token.name.injEq]
    calc
      (String.ofList other).map Text.asciiLower =
          String.ofList (other.map Text.asciiLower) := by
        rw [← String.toList_inj, String.toList_map, String.toList_ofList,
          String.toList_ofList]
      _ = String.ofList (word.map Text.asciiLower) := by rw [hmap]
      _ = (String.ofList word).map Text.asciiLower := by
        rw [← String.toList_inj, String.toList_map, String.toList_ofList,
          String.toList_ofList]

theorem EndsNumber.respelled {t : Token} {rest rest' : List Char}
    (h : EndsNumber t rest) (hrest : Respelled true rest rest') :
    EndsNumber t rest' where
  digit := hrest.meets.head_false Text.isDigit_asciiLower
    (fun _ => not_isDigit_of_isBlank) h.digit
  places hwhole := by
    rintro ⟨d, more, rfl, hd⟩
    obtain ⟨others, hothers⟩ := hrest.point hd
    exact h.places hwhole ⟨d, others, hothers, hd⟩

/-- A number in another spelling: the same number, with something else behind it. -/
theorem number_respelled {sign lexeme rest rest' : List Char} {t : Token}
    (h : number sign (lexeme ++ rest) = .ok (t, rest))
    (hrest : Respelled true rest rest') :
    (∀ c ∈ lexeme, Text.isLetter c = false) ∧ t.isQuoted = false ∧
      number sign (lexeme ++ rest') = .ok (t, rest') := by
  obtain ⟨hends, others, heq, hnumeral⟩ := number_cases h
  obtain rfl := List.append_cancel_right heq
  exact ⟨hnumeral.isLetter, hnumeral.isQuoted,
    hnumeral.number_append (hends.respelled hrest)⟩

theorem isQuoted_ofWord (word : List Char) : (ofWord word).isQuoted = false := by
  unfold ofWord
  split <;> rfl

/-- A word in another spelling. -/
theorem word_respelled {c : Char} {w lexeme' rest rest' : List Char}
    (hstart : isNameStart c = true)
    (htake : (c :: (w ++ rest)).takeWhile isNameChar = c :: w)
    (hdrop : (c :: (w ++ rest)).dropWhile isNameChar = rest)
    (hletters : Text.SameLetters (c :: w) lexeme') (hmeets : Meets rest rest') :
    next (lexeme' ++ rest') = .ok (ofWord lexeme', rest') := by
  have hstartKind : ∀ d, isNameStart (Text.asciiLower d) = isNameStart d :=
    Text.kind_asciiLower (b := true) fun d hd => by simp [isNameStart, hd]
  have hcharKind : ∀ d, isNameChar (Text.asciiLower d) = isNameChar d :=
    Text.kind_asciiLower (b := true)
      fun d hd => by simp [isNameChar, isNameStart, hd]
  have hchars : ∀ d ∈ c :: w, isNameChar d = true :=
    fun d hd => List.mem_takeWhile_imp (htake ▸ hd)
  have hchars' := (hletters.forall_iff hcharKind).mp hchars
  have hrest : ∀ d ∈ rest.head?, isNameChar d = false :=
    hdrop ▸ head_dropWhile (c :: (w ++ rest))
  have hrest' :=
    hmeets.head_false hcharKind (fun _ => not_isNameChar_of_isBlank) hrest
  obtain ⟨d, w', rfl⟩ : ∃ d w', lexeme' = d :: w' := by
    refine List.exists_cons_of_ne_nil ?_
    rintro rfl
    simp [Text.SameLetters] at hletters
  have hstart' : isNameStart d = true := by
    rw [← hstartKind d, ← (List.cons.inj hletters).1, hstartKind c, hstart]
  simp only [List.cons_append, next, if_pos hstart']
  rw [← List.cons_append, takeWhile_run hchars' hrest',
    dropWhile_run hchars' hrest']

/-- A number below zero in another spelling: the digits touch the sign. -/
theorem minus_respelled {w rest rest' : List Char} {t : Token}
    (h : next ('-' :: (w ++ rest)) = .ok (t, rest))
    (hrest : Respelled true rest rest') :
    (∀ c ∈ '-' :: w, Text.isLetter c = false) ∧ t.isQuoted = false ∧
      next ('-' :: (w ++ rest')) = .ok (t, rest') := by
  have hnext (d : Char) (text : List Char) : next ('-' :: d :: text) =
      if Text.isDigit d then number ['-'] (d :: text) else .error ['-'] := rfl
  have hend : next ['-'] = .error ['-'] := rfl
  rcases hhead : w ++ rest with _ | ⟨d, more⟩
  · rw [hhead, hend] at h
    cases h
  rw [hhead, hnext] at h
  split at h
  · next hd =>
    rw [← hhead] at h
    obtain ⟨hletter, hquoted, hnumber⟩ := number_respelled h hrest
    have hdigit := (number_cases h).1.digit
    obtain ⟨w', rfl⟩ : ∃ w', w = d :: w' := by
      rcases w with _ | ⟨e, w'⟩
      · rw [List.nil_append] at hhead
        simp [hhead, hd] at hdigit
      · exact ⟨w', by rw [(List.cons.inj hhead).1]⟩
    refine ⟨List.forall_mem_cons.mpr ⟨by decide, hletter⟩, hquoted, ?_⟩
    calc
      next ('-' :: (d :: w' ++ rest')) = number ['-'] (d :: w' ++ rest') := by
        rw [List.cons_append, hnext, if_pos hd]
      _ = .ok (t, rest') := hnumber
  · cases h

/-- A token without letters or in quotes in another spelling. -/
theorem mark_respelled {c : Char} {w rest rest' : List Char} {t : Token}
    (hstart : isNameStart c = false) (h : next (c :: (w ++ rest)) = .ok (t, rest))
    (hrest : Respelled true rest rest') :
    (t.isQuoted = true ∨ ∀ d ∈ c :: w, Text.isLetter d = false) ∧
      next (c :: (w ++ rest')) = .ok (t, rest') := by
  by_cases hminus : c = '-'
  · subst hminus
    obtain ⟨hletter, -, hnext⟩ := minus_respelled h hrest
    exact ⟨.inr hletter, hnext⟩
  simp only [next, hstart, Bool.false_eq_true, if_false, if_neg hminus] at h ⊢
  split at h
  · next hdigit =>
    rw [← List.cons_append] at h
    obtain ⟨hletter, -, hnumber⟩ := number_respelled h hrest
    exact ⟨.inr hletter, by rw [if_pos hdigit, ← List.cons_append, hnumber]⟩
  next hdigit =>
  rw [if_neg hdigit]
  split at h
  · next hquote =>
    rw [if_pos hquote]
    split at h
    · next hbody =>
      obtain ⟨rfl, rfl⟩ := Prod.mk.inj (Except.ok.inj h)
      exact ⟨.inl rfl, by rw [unquote_respelled (.inl rfl) hbody hrest.meets]⟩
    · cases h
  next hquote =>
  rw [if_neg hquote]
  split at h
  · next hquote =>
    rw [if_pos hquote]
    split at h
    · next hbody =>
      obtain ⟨rfl, rfl⟩ := Prod.mk.inj (Except.ok.inj h)
      exact ⟨.inl rfl, by rw [unquote_respelled (.inr rfl) hbody hrest.meets]⟩
    · cases h
  next hquote =>
  rw [if_neg hquote]
  split at h
  · next hsymbol =>
    obtain ⟨rfl, rfl⟩ := Prod.mk.inj (Except.ok.inj h)
    rw [← List.cons_append] at hsymbol
    obtain ⟨hletter, hsymbol'⟩ := symbol_of_meets hsymbol hrest.meets
    exact ⟨.inr hletter, by rw [← List.cons_append, hsymbol']⟩
  · cases h

/-- The first token of a text that is spelled anew: only words have letters
outside quotes. -/
theorem next_respelled {lexeme lexeme' rest rest' : List Char} {t : Token}
    (h : next (lexeme ++ rest) = .ok (t, rest))
    (hlexeme : if t.isQuoted then lexeme' = lexeme
      else Text.SameLetters lexeme lexeme') (hrest : Respelled true rest rest') :
    ∃ t', next (lexeme' ++ rest') = .ok (t', rest') ∧ t'.folded = t.folded := by
  obtain ⟨c, w, rfl⟩ := exists_lexeme_cons h
  rw [List.cons_append] at h
  cases hstart : isNameStart c with
  | true =>
    simp only [next, hstart, if_true] at h
    obtain ⟨rfl, hdrop⟩ := Prod.mk.inj (Except.ok.inj h)
    have hsplit :=
      List.takeWhile_append_dropWhile (p := isNameChar) (l := c :: (w ++ rest))
    rw [hdrop, ← List.cons_append] at hsplit
    have htake := List.append_cancel_right hsplit
    rw [List.cons_append] at htake
    rw [htake, isQuoted_ofWord] at hlexeme
    exact ⟨_, word_respelled hstart htake hdrop hlexeme hrest.meets,
      htake ▸ folded_ofWord hlexeme⟩
  | false =>
    obtain ⟨hletter, hnext⟩ := mark_respelled hstart h hrest
    have hsame : lexeme' = c :: w := by
      split at hlexeme
      · exact hlexeme
      · next hquoted =>
          exact Text.SameLetters.eq hlexeme (hletter.resolve_left hquoted)
    exact ⟨t, by rw [hsame, List.cons_append, hnext], rfl⟩

/-! ## Whole texts -/

theorem not_isBlank_of_next {c : Char} {text rest : List Char} {t : Token}
    (h : next (c :: text) = .ok (t, rest)) : isBlank c = false := by
  rw [Bool.eq_false_iff]
  intro hblank
  simp only [isBlank, Bool.or_eq_true, beq_iff_eq] at hblank
  obtain ((rfl | rfl) | rfl) | rfl := hblank <;> cases h

theorem dropWhile_gap {gap text rest : List Char} {t : Token}
    (hgap : ∀ c ∈ gap, isBlank c = true) (hnext : next text = .ok (t, rest)) :
    (gap ++ text).dropWhile isBlank = text := by
  refine dropWhile_run hgap fun c hc => ?_
  obtain ⟨more, rfl⟩ := List.head?_eq_some_iff.mp hc
  exact not_isBlank_of_next hnext

/-- Every text that is cut into tokens is a spelling of itself. -/
theorem Lexes.respelled {text : List Char} {tokens : List Token}
    (h : Lexes text tokens) : ∀ behind, Respelled behind text text := by
  induction h with
  | done hblanks =>
    intro behind
    exact .blanks (List.dropWhile_eq_nil_iff.mp hblanks)
      (List.dropWhile_eq_nil_iff.mp hblanks)
  | @token text rest t _ hnext _ ih =>
    intro behind
    obtain ⟨lexeme, hlexeme⟩ :
        ∃ lexeme, text.dropWhile isBlank = lexeme ++ rest := by
      cases hdrop : text.dropWhile isBlank with
      | nil => simp [hdrop, next] at hnext
      | cons c more =>
        obtain ⟨w, rfl⟩ := next_suffix (hdrop ▸ hnext)
        exact ⟨c :: w, rfl⟩
    have hgap : ∀ c ∈ text.takeWhile isBlank, isBlank c = true :=
      fun c hc => List.mem_takeWhile_imp hc
    rw [← List.takeWhile_append_dropWhile (p := isBlank) (l := text), hlexeme]
    rw [hlexeme] at hnext
    refine .token hgap hgap (fun _ hne => hne) hnext ?_ (ih true)
    split <;> rfl

/-- A text and its other spelling are cut into the same tokens, the case of
names apart. -/
theorem Respelled.lexes {behind : Bool} {text other : List Char}
    (h : Respelled behind text other) :
    ∃ tokens others, Lexes text tokens ∧ Lexes other others ∧
      others.map folded = tokens.map folded := by
  induction h with
  | blanks hgap hother =>
    exact ⟨[], [], .done (List.dropWhile_eq_nil_iff.mpr hgap),
      .done (List.dropWhile_eq_nil_iff.mpr hother), rfl⟩
  | @token _ _ _ _ _ _ _ t hgap hgap' _ hnext hlexeme hrest ih =>
    obtain ⟨tokens, others, htokens, hothers, hfolded⟩ := ih
    obtain ⟨t', hnext', ht⟩ := next_respelled hnext hlexeme hrest
    refine ⟨t :: tokens, t' :: others, .token ?_ htokens, .token ?_ hothers, ?_⟩
    · rw [dropWhile_gap hgap hnext, hnext]
    · rw [dropWhile_gap hgap' hnext', hnext']
    · rw [List.map_cons, List.map_cons, ht, hfolded]

/-- The lexer finds the same tokens in another spelling, the case of names apart. -/
theorem read_respelled {source other : String} {tokens : List SpannedToken}
    (h : read source = .ok tokens)
    (hother : Respelled false source.toList other.toList) :
    ∃ others, read other = .ok others ∧
      (others.map SpannedToken.token).map folded =
        (tokens.map SpannedToken.token).map folded := by
  obtain ⟨found, others, hfound, hothers, hfolded⟩ := hother.lexes
  obtain ⟨spanned, hspanned, rfl⟩ := read_eq_ok_iff.mpr hfound
  obtain ⟨respelled, hread, rfl⟩ := read_eq_ok_iff.mpr hothers
  obtain rfl := Except.ok.inj (h.symm.trans hspanned)
  exact ⟨respelled, hread, hfolded⟩

end Token

end EntityMapper
