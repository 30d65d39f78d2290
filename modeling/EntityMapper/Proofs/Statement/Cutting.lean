import EntityMapper.Proofs.Statement.Scanning

/-!
# Texts that are cut outside quotes

If a text lexes and is cut in front of a blank, its two halves lex on their own,
unless the cut goes through a quoted token; and the scan for quotes knows where
that is. So the tokens of a text are those of its parts as soon as the scan
stands outside quotes at each seam. The scan is invertible: every character
permutes the states that it can be in. Hence it stands outside quotes in front
of an ending that closes every quote it opens, if it does so behind it.
-/

namespace EntityMapper

/-! ## The scan from either side -/

/-- Outside quotes, or inside quotes of one of the two kinds. -/
def QuoteState (quote : Option Char) : Prop :=
  quote = none ∨ quote = some '\'' ∨ quote = some '"'

/-- What one character makes of the open quote. -/
def quoteStep (quote : Option Char) (c : Char) : Option Char := quoteAfter quote [c]

theorem quoteAfter_cons (quote : Option Char) (c : Char) (text : List Char) :
    quoteAfter quote (c :: text) = quoteAfter (quoteStep quote c) text :=
  quoteAfter_append quote [c] text

theorem QuoteState.step {quote : Option Char} (h : QuoteState quote) (c : Char) :
    QuoteState (quoteStep quote c) := by
  unfold quoteStep
  rcases h with rfl | rfl | rfl
  · simp only [quoteAfter]
    split
    · next hc => exact .inr (hc.imp (congrArg some) (congrArg some))
    · exact .inl rfl
  all_goals
    simp only [quoteAfter]
    split
    · exact .inl rfl
    · first | exact .inr (.inl rfl) | exact .inr (.inr rfl)

theorem quoteState_quoteAfter (text : List Char) :
    QuoteState (quoteAfter none text) := by
  have hfrom : ∀ {quote : Option Char}, QuoteState quote →
      QuoteState (quoteAfter quote text) := by
    induction text with
    | nil => exact fun h => by simpa [quoteAfter] using h
    | cons c text ih =>
      intro quote h
      rw [quoteAfter_cons]
      exact ih (h.step c)
  exact hfrom (.inl rfl)

theorem quoteStep_injective {first second : Option Char}
    (hfirst : QuoteState first) (hsecond : QuoteState second) (c : Char)
    (h : quoteStep first c = quoteStep second c) : first = second := by
  rcases hfirst with rfl | rfl | rfl <;> rcases hsecond with rfl | rfl | rfl
  case inl.inl | inr.inl.inr.inl | inr.inr.inr.inr => rfl
  all_goals
    simp only [quoteStep, quoteAfter] at h
    repeat' split at h
    all_goals simp_all

/-- Two scans that end alike began alike. -/
theorem quoteAfter_injective {first second : Option Char}
    (hfirst : QuoteState first) (hsecond : QuoteState second) (text : List Char)
    (h : quoteAfter first text = quoteAfter second text) : first = second := by
  induction text generalizing first second with
  | nil => simpa [quoteAfter] using h
  | cons c text ih =>
    rw [quoteAfter_cons, quoteAfter_cons] at h
    exact quoteStep_injective hfirst hsecond c
      (ih (hfirst.step c) (hsecond.step c) h)

/-- The scan stands outside quotes in front of an ending that leaves none open. -/
theorem quoteAfter_of_append {front back : List Char}
    (h : quoteAfter none (front ++ back) = none)
    (hback : quoteAfter none back = none) : quoteAfter none front = none := by
  rw [quoteAfter_append] at h
  exact quoteAfter_injective (quoteState_quoteAfter front) (.inl rfl) back
    (h.trans hback.symm)

namespace Token

theorem Scans.quoteAfter_eq {text rest : List Char} {k : Nat}
    (h : Scans text rest k) : quoteAfter none text = quoteAfter none rest := by
  obtain ⟨front, rfl, hquote, -⟩ := h
  rw [quoteAfter_append, hquote]

theorem quoteAfter_dropBlanks (text : List Char) :
    quoteAfter none (text.dropWhile isBlank) = quoteAfter none text :=
  (scans_dropWhile (fun _ => isPlain_of_isBlank) text).quoteAfter_eq.symm

/-- A text that lexes leaves no quote open. -/
theorem Lexes.quoteAfter_eq {text : List Char} {tokens : List Token}
    (h : Lexes text tokens) : quoteAfter none text = none := by
  induction h with
  | done hdone => rw [← quoteAfter_dropBlanks, hdone, quoteAfter]
  | token hnext _ ih =>
    rw [← quoteAfter_dropBlanks, (scans_next hnext).quoteAfter_eq, ih]

/-- A text has one list of tokens. -/
theorem Lexes.unique {text : List Char} {tokens others : List Token}
    (h : Lexes text tokens) (hother : Lexes text others) : tokens = others := by
  induction h generalizing others with
  | done hdone =>
    cases hother with
    | done => rfl
    | token hnext => simp [hdone, next] at hnext
  | token hnext _ ih =>
    cases hother with
    | done hdone => simp [hdone, next] at hnext
    | token hsame hrest =>
      obtain ⟨rfl, rfl⟩ := Prod.mk.inj (Except.ok.inj (hnext.symm.trans hsame))
      rw [ih hrest]

/-! ## The token at a cut -/

/-- The text is empty or begins with a blank. -/
def Apart (text : List Char) : Prop := ∀ c ∈ text.head?, isBlank c = true

theorem apart_nil : Apart [] := by simp [Apart]

theorem apart_cons_iff {c : Char} {text : List Char} :
    Apart (c :: text) ↔ isBlank c = true := by
  simp [Apart]

theorem apart_cons {c : Char} {text : List Char} (h : isBlank c = true) :
    Apart (c :: text) :=
  apart_cons_iff.mpr h

instance : (text : List Char) → Decidable (Apart text)
  | [] => isTrue apart_nil
  | _ :: _ => decidable_of_iff _ apart_cons_iff.symm

theorem Apart.append {first : List Char} (h : Apart first) (hsome : first ≠ [])
    (second : List Char) : Apart (first ++ second) := by
  obtain ⟨c, first, rfl⟩ := List.exists_cons_of_ne_nil hsome
  exact apart_cons (h c rfl)

theorem endsToken_of_isBlank {c : Char} (h : isBlank c = true) : EndsToken c := by
  simp only [isBlank, Bool.or_eq_true, beq_iff_eq] at h
  obtain ((rfl | rfl) | rfl) | rfl := h <;> decide

theorem Apart.seam {text : List Char} (h : Apart text) : Seam text :=
  fun c hc => endsToken_of_isBlank (h c hc)

/-- Without a closing quote the scan stays inside quotes. -/
theorem quoteAfter_of_unquote_none {quote : Char} {text : List Char}
    (hquote : quote = '\'' ∨ quote = '"') (h : unquote? quote text = none) :
    quoteAfter (some quote) text = some quote := by
  fun_induction unquote? quote text with
  | case1 => simp [quoteAfter]
  | case2 => simp at h
  | case3 c hne => simp [quoteAfter, hne]
  | case4 text ih => simpa [quoteAfter, hquote] using ih (by simpa using h)
  | case5 => simp at h
  | case6 c d text hne ih =>
    rw [quoteAfter_cons]
    simpa [quoteStep, quoteAfter, hne] using ih (by simpa using h)

theorem number_append_error {sign text rest bad : List Char} (hrest : Apart rest)
    (h : number sign text = .error bad) :
    number sign (text ++ rest) = .error bad := by
  have hends (c : Char) (hc : c ∈ rest.head?) := endsToken_of_isBlank (hrest c hc)
  have hdigit : ∀ c ∈ rest.head?, Text.isDigit c = false := by
    intro c hc
    have hnot := (hends c hc).1
    simp only [isNameChar, Bool.or_eq_false_iff] at hnot
    exact hnot.2
  unfold number at h ⊢
  rw [takeWhile_append_of_head hdigit, dropWhile_append_of_head hdigit]
  dsimp only at h ⊢
  split at h
  · next d more hafter =>
    rw [hafter]
    simp only [List.cons_append]
    by_cases hd : Text.isDigit d = true
    · rw [if_pos hd] at h ⊢
      rw [← List.cons_append, takeWhile_append_of_head hdigit,
        dropWhile_append_of_head hdigit]
      split at h <;> simp_all
    · rw [if_neg hd] at h ⊢
      split at h <;> simp_all
  · next hafter =>
    -- A point at the end is not followed by a digit of the rest either.
    split
    · next d more hjoined =>
      have hd : Text.isDigit d = false := by
        cases htail : text.dropWhile Text.isDigit with
        | nil =>
          rw [htail, List.nil_append] at hjoined
          exact absurd rfl (hends '.' (by rw [hjoined]; rfl)).2.2.2.1
        | cons c tail =>
          rw [htail, List.cons_append] at hjoined
          obtain ⟨rfl, htail'⟩ := List.cons.inj hjoined
          cases tail with
          | nil => exact hdigit d (by rw [← List.nil_append rest, htail']; rfl)
          | cons e tail => exact absurd htail (hafter e tail)
      rw [if_neg (by simp [hd])]
      split at h <;> simp_all
    · split at h <;> simp_all

theorem symbol_append_none {c : Char} {text rest : List Char} (hrest : Apart rest)
    (h : symbol? (c :: text) = none) : symbol? (c :: (text ++ rest)) = none := by
  cases text with
  | cons d text =>
    unfold symbol? at h ⊢
    split at h <;> simp_all
  | nil =>
    cases rest with
    | nil => exact h
    | cons d rest =>
      have hd := endsToken_of_isBlank (hrest d rfl)
      unfold symbol? at h ⊢
      split <;> simp_all [EndsToken]

/-- What is no token in front of a cut outside quotes is none across it. -/
theorem next_append_error {c : Char} {text rest bad : List Char}
    (hrest : Apart rest) (hclosed : quoteAfter none (c :: text) = none)
    (h : next (c :: text) = .error bad) :
    ∃ worse, next (c :: (text ++ rest)) = .error worse := by
  have hquoted {quote : Char} (hquote : quote = '\'' ∨ quote = '"')
      (hc : c = quote) : unquote? quote text ≠ none := by
    intro hnone
    have hopen := quoteAfter_of_unquote_none hquote hnone
    simp [hc, quoteAfter, hquote, hopen] at hclosed
  simp only [next] at h ⊢
  split at h
  · cases h
  · next hstart =>
    rw [if_neg hstart]
    split at h
    · next hdigit =>
      rw [if_pos hdigit, ← List.cons_append]
      exact ⟨bad, number_append_error hrest h⟩
    · next hdigit =>
      rw [if_neg hdigit]
      split at h
      · next hc =>
        split at h
        · cases h
        · next hnone => exact absurd hnone (hquoted (.inr rfl) hc)
      · next hdouble =>
        rw [if_neg hdouble]
        split at h
        · next hc =>
          split at h
          · cases h
          · next hnone => exact absurd hnone (hquoted (.inl rfl) hc)
        · next hsingle =>
          rw [if_neg hsingle]
          split at h
          · next hminus =>
            rw [if_pos hminus]
            cases text with
            | cons d text =>
              dsimp only [List.cons_append] at h ⊢
              split at h
              · next hd =>
                rw [if_pos hd, ← List.cons_append]
                exact ⟨bad, number_append_error hrest h⟩
              · next hd => exact ⟨['-'], by rw [if_neg hd]⟩
            | nil =>
              refine ⟨['-'], ?_⟩
              cases rest with
              | nil => rfl
              | cons d rest =>
                have hd := (endsToken_of_isBlank (hrest d rfl)).1
                simp only [isNameChar, Bool.or_eq_false_iff] at hd
                dsimp only [List.nil_append]
                rw [hd.2]
                rfl
          · next hminus =>
            rw [if_neg hminus]
            split at h
            · cases h
            · next hnone => exact ⟨[c], by rw [symbol_append_none hrest hnone]⟩

/-- The first token of a text is in front of a cut outside quotes, if anything
is. -/
theorem next_of_append {text rest more : List Char} {t : Token} (hsome : text ≠ [])
    (hclosed : quoteAfter none text = none) (hrest : Apart rest)
    (h : next (text ++ rest) = .ok (t, more)) :
    ∃ left, next text = .ok (t, left) ∧ more = left ++ rest := by
  obtain ⟨c, text, rfl⟩ := List.exists_cons_of_ne_nil hsome
  cases hnext : next (c :: text) with
  | ok result =>
    obtain ⟨u, left⟩ := result
    have hsame := next_append hnext hrest.seam
    obtain ⟨rfl, rfl⟩ := Prod.mk.inj (Except.ok.inj (hsame.symm.trans h))
    exact ⟨left, rfl, rfl⟩
  | error bad =>
    obtain ⟨worse, herror⟩ := next_append_error hrest hclosed hnext
    rw [← List.cons_append, h] at herror
    cases herror

/-! ## Whole texts -/

/-- The tokens of a text that is cut outside quotes are those of its two parts. -/
theorem Lexes.cut {front back : List Char} {tokens : List Token}
    (h : Lexes (front ++ back) tokens) (hback : Apart back)
    (hclosed : quoteAfter none front = none) :
    ∃ firsts seconds, tokens = firsts ++ seconds ∧ Lexes front firsts ∧
      Lexes back seconds := by
  generalize htext : front ++ back = text at h
  induction h generalizing front with
  | done hdone =>
    subst htext
    rw [List.dropWhile_append] at hdone
    split at hdone
    · next hempty =>
        exact ⟨[], [], rfl, .done (List.isEmpty_iff.mp hempty), .done hdone⟩
    · obtain ⟨hfront, rfl⟩ := List.append_eq_nil_iff.mp hdone
      exact ⟨[], [], rfl, .done hfront, .done rfl⟩
  | @token text rest t tokens hnext hrest ih =>
    subst htext
    rw [List.dropWhile_append] at hnext
    split at hnext
    · next hempty =>
        exact ⟨[], _, rfl, .done (List.isEmpty_iff.mp hempty), .token hnext hrest⟩
    · next hsome =>
      obtain ⟨left, hfirst, rfl⟩ := next_of_append (by simpa using hsome)
        ((quoteAfter_dropBlanks front).trans hclosed) hback hnext
      have hleft : quoteAfter none left = none := by
        rw [← (scans_next hfirst).quoteAfter_eq, quoteAfter_dropBlanks, hclosed]
      obtain ⟨firsts, seconds, rfl, hfirsts, hseconds⟩ := ih hleft rfl
      exact ⟨t :: firsts, seconds, rfl, .token hfirst hfirsts, hseconds⟩

/-- A text that begins outside quotes is cut from an ending that leaves none
open. -/
theorem Lexes.cut_before {front back : List Char} {tokens ends : List Token}
    (h : Lexes (front ++ back) tokens) (hback : Apart back)
    (hends : Lexes back ends) :
    ∃ firsts, tokens = firsts ++ ends ∧ Lexes front firsts := by
  have hclosed := quoteAfter_of_append h.quoteAfter_eq hends.quoteAfter_eq
  obtain ⟨firsts, seconds, rfl, hfirsts, hseconds⟩ := h.cut hback hclosed
  exact ⟨firsts, by rw [hseconds.unique hends], hfirsts⟩

/-- A text is cut behind a beginning that leaves no quote open. -/
theorem Lexes.cut_behind {front back : List Char} {tokens firsts : List Token}
    (h : Lexes (front ++ back) tokens) (hback : Apart back)
    (hfirsts : Lexes front firsts) :
    ∃ seconds, tokens = firsts ++ seconds ∧ Lexes back seconds := by
  obtain ⟨others, seconds, rfl, hothers, hseconds⟩ :=
    h.cut hback hfirsts.quoteAfter_eq
  exact ⟨seconds, by rw [hothers.unique hfirsts], hseconds⟩

end Token

end EntityMapper
