import Mathlib.Data.List.TakeWhile
import EntityMapper.Proofs.Grammar.Placeholders
import EntityMapper.Proofs.Statement.Lexing

/-!
# The scan for placeholders along the tokens

Placeholders are counted twice: by a scan of the characters that knows nothing
but quotes, and as the question marks among the tokens. The lexer and the scan
agree token by token. A token that is cut off the front leaves the scan outside
quotes, and the scan has counted one placeholder if the token is one and none
otherwise. Only quoted tokens need an argument: a doubled quote, which the lexer
reads as one quote of the text, is for the scan the end of one quotation and the
beginning of the next.
-/

namespace EntityMapper.Token

/-- The scan goes from the front of `text` to `rest`: it stands outside quotes
at both ends and counts `k` placeholders on the way. -/
def Scans (text rest : List Char) (k : Nat) : Prop :=
  ∃ front, text = front ++ rest ∧ quoteAfter none front = none ∧
    countPlaceholdersFrom none front = k

theorem Scans.count_eq {text rest : List Char} {k : Nat} (h : Scans text rest k) :
    countPlaceholdersFrom none text = k + countPlaceholdersFrom none rest := by
  obtain ⟨front, rfl, hquote, hcount⟩ := h
  rw [countPlaceholdersFrom_append, hquote, hcount]

theorem Scans.trans {text between rest : List Char} {j k : Nat}
    (hfirst : Scans text between j) (hsecond : Scans between rest k) :
    Scans text rest (j + k) := by
  obtain ⟨front, rfl, hquote, rfl⟩ := hfirst
  obtain ⟨middle, rfl, hmiddle, rfl⟩ := hsecond
  refine ⟨front ++ middle, (List.append_assoc ..).symm, ?_, ?_⟩
  · rw [quoteAfter_append, hquote, hmiddle]
  · rw [countPlaceholdersFrom_append, hquote]

theorem scans_silent {front : List Char} (h : Silent front) (rest : List Char) :
    Scans (front ++ rest) rest 0 := ⟨front, rfl, h.1, h.2⟩

theorem scans_plain {c : Char} (h : IsPlain c) (rest : List Char) :
    Scans (c :: rest) rest 0 :=
  scans_silent (Silent.cons h silent_nil) rest

/-- Characters of a kind that are all plain are passed over without counting. -/
theorem scans_dropWhile {p : Char → Bool} (hp : ∀ c, p c = true → IsPlain c)
    (text : List Char) : Scans text (text.dropWhile p) 0 := by
  have hfront : Silent (text.takeWhile p) :=
    silent_of_plain fun c hc => hp c (List.mem_takeWhile_imp hc)
  simpa using scans_silent hfront (text.dropWhile p)

theorem isPlain_of_isBlank {c : Char} (h : isBlank c = true) : IsPlain c := by
  refine ⟨?_, ?_, ?_⟩ <;> rintro rfl <;> exact absurd h (by decide)

theorem isPlain_of_isDigit {c : Char} (h : Text.isDigit c = true) : IsPlain c := by
  refine ⟨?_, ?_, ?_⟩ <;> rintro rfl <;> exact absurd h (by decide)

theorem isPlain_of_isNameChar {c : Char} (h : isNameChar c = true) : IsPlain c := by
  refine ⟨?_, ?_, ?_⟩ <;> rintro rfl <;> exact absurd h (by decide)

/-! ## One token -/

/-- From inside quotes the scan comes out where the lexer finds the closing
quote. -/
theorem scan_unquote {quote : Char} {text body rest : List Char}
    (hquote : quote = '\'' ∨ quote = '"')
    (h : unquote? quote text = some (body, rest)) :
    ∃ front, text = front ++ rest ∧ quoteAfter (some quote) front = none ∧
      countPlaceholdersFrom (some quote) front = 0 := by
  fun_induction unquote? quote text generalizing body rest with
  | case1 => simp at h
  | case2 =>
    obtain ⟨-, rfl⟩ := Prod.mk.inj (Option.some.inj h)
    exact ⟨[quote], rfl, by simp [quoteAfter], by simp [countPlaceholdersFrom]⟩
  | case3 => simp at h
  | case4 text ih =>
    -- The second quote of a pair opens the quotation again.
    obtain ⟨⟨body', rest'⟩, hbody, heq⟩ := Option.map_eq_some_iff.mp h
    obtain ⟨-, rfl⟩ := Prod.mk.inj heq
    obtain ⟨front, rfl, hafter, hcount⟩ := ih hbody
    exact ⟨quote :: quote :: front, rfl, by simpa [quoteAfter, hquote] using hafter,
      by simpa [countPlaceholdersFrom, hquote] using hcount⟩
  | case5 d text hne =>
    obtain ⟨-, rfl⟩ := Prod.mk.inj (Option.some.inj h)
    exact ⟨[quote], rfl, by simp [quoteAfter], by simp [countPlaceholdersFrom]⟩
  | case6 c d text hne ih =>
    obtain ⟨⟨body', rest'⟩, hbody, heq⟩ := Option.map_eq_some_iff.mp h
    obtain ⟨-, rfl⟩ := Prod.mk.inj heq
    obtain ⟨front, hfront, hafter, hcount⟩ := ih hbody
    exact ⟨c :: front, by rw [hfront, List.cons_append],
      by simpa [quoteAfter, hne] using hafter,
      by simpa [countPlaceholdersFrom, hne] using hcount⟩

theorem scans_quoted {quote : Char} {text body rest : List Char}
    (hquote : quote = '\'' ∨ quote = '"')
    (h : unquote? quote text = some (body, rest)) :
    Scans (quote :: text) rest 0 := by
  obtain ⟨front, rfl, hafter, hcount⟩ := scan_unquote hquote h
  exact ⟨quote :: front, rfl, by simpa [quoteAfter, hquote] using hafter,
    by simpa [countPlaceholdersFrom, hquote] using hcount⟩

theorem scans_number {sign text rest : List Char} {t : Token}
    (h : number sign text = .ok (t, rest)) : Scans text rest 0 := by
  have hdigits := scans_dropWhile (fun c => isPlain_of_isDigit (c := c))
  unfold number at h
  dsimp only at h
  split at h
  · next d more hafter =>
    have hwhole := hdigits text
    rw [hafter] at hwhole
    split at h
    · split at h
      · obtain ⟨-, rfl⟩ := Prod.mk.inj (Except.ok.inj h)
        exact (hwhole.trans (scans_plain (by decide) _)).trans (hdigits (d :: more))
      · simp at h
    · split at h
      · obtain ⟨-, rfl⟩ := Prod.mk.inj (Except.ok.inj h)
        exact hafter ▸ hwhole
      · simp at h
  · split at h
    · obtain ⟨-, rfl⟩ := Prod.mk.inj (Except.ok.inj h)
      exact hdigits text
    · simp at h

theorem scans_symbol {text rest : List Char} {s : Symbol}
    (h : symbol? text = some (s, rest)) :
    Scans text rest (if s = .param then 1 else 0) := by
  unfold symbol? at h
  split at h
  -- Two characters, then the placeholder, then the other marks.
  case h_1 | h_2 | h_3 | h_4 =>
    obtain ⟨rfl, rfl⟩ := Prod.mk.inj (Option.some.inj h)
    exact (scans_plain (by decide) _).trans (scans_plain (by decide) _)
  case h_5 =>
    obtain ⟨rfl, rfl⟩ := Prod.mk.inj (Option.some.inj h)
    exact ⟨['?'], rfl, rfl, rfl⟩
  case h_15 => simp at h
  all_goals
    obtain ⟨rfl, rfl⟩ := Prod.mk.inj (Option.some.inj h)
    exact scans_plain (by decide) _

/-- The scan follows the lexer over one token. -/
theorem scans_next {text rest : List Char} {t : Token}
    (h : next text = .ok (t, rest)) :
    Scans text rest (if t = .symbol .param then 1 else 0) := by
  have hsilent (ht : ∀ s, t ≠ .symbol s) (hscan : Scans text rest 0) : Scans text
      rest (if t = .symbol .param then 1 else 0) := by rwa [if_neg (ht .param)]
  cases text with
  | nil => simp [next] at h
  | cons c text =>
    simp only [next] at h
    split at h
    · obtain ⟨rfl, rfl⟩ := Prod.mk.inj (Except.ok.inj h)
      exact hsilent (ofWord_ne_symbol _)
        (scans_dropWhile (fun c => isPlain_of_isNameChar) _)
    · split at h
      · exact hsilent (fun s ht => number_ne_symbol (ht ▸ h)) (scans_number h)
      · split at h
        · next hquote =>
          subst hquote
          split at h
          · next hbody =>
            obtain ⟨rfl, rfl⟩ := Prod.mk.inj (Except.ok.inj h)
            exact hsilent (by simp) (scans_quoted (.inr rfl) hbody)
          · simp at h
        · split at h
          · next hquote =>
            subst hquote
            split at h
            · next hbody =>
              obtain ⟨rfl, rfl⟩ := Prod.mk.inj (Except.ok.inj h)
              exact hsilent (by simp) (scans_quoted (.inl rfl) hbody)
            · simp at h
          · split at h
            · next hminus =>
              subst hminus
              split at h
              · split at h
                · exact hsilent (fun s ht => number_ne_symbol (ht ▸ h))
                    ((scans_plain (by decide) _).trans (scans_number h))
                · simp at h
              · simp at h
            · split at h
              · next hsymbol =>
                obtain ⟨rfl, rfl⟩ := Prod.mk.inj (Except.ok.inj h)
                simpa using scans_symbol hsymbol
              · simp at h

/-! ## Whole texts -/

/-- The scan counts the placeholders among the tokens. -/
theorem Lexes.countPlaceholders_eq {text : List Char} {tokens : List Token}
    (h : Lexes text tokens) :
    countPlaceholdersFrom none text = tokens.count (.symbol .param) := by
  have hblanks (text : List Char) :=
    scans_dropWhile (fun c => isPlain_of_isBlank (c := c)) text
  induction h with
  | @done blanks hdone =>
    rw [(hblanks blanks).count_eq, hdone]
    rfl
  | @token text rest t tokens hnext _ ih =>
    rw [((hblanks text).trans (scans_next hnext)).count_eq, ih, List.count_cons]
    simp only [beq_iff_eq]
    omega

end EntityMapper.Token
