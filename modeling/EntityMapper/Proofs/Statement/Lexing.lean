import EntityMapper.Statement.Lexer

/-!
# Lexing by pieces

The lexer counts bytes and carries fuel; neither has a say in which tokens there
are. `Lexes` is the relation between a text and its tokens without them, and the
lexer finds exactly the tokens that stand in it. A text is lexed piece by piece
where no token can run across the seam: behind any text that lexes if the next
piece begins with a character that ends every token, and before any text if the
first piece ends in a blank or a mark that stands for itself.
-/

namespace EntityMapper.Token

/-- A text is cut into the given tokens, with blanks between them. -/
inductive Lexes : List Char → List Token → Prop
  | /-- Blanks alone hold no token. -/
    done {blanks : List Char} (h : blanks.dropWhile isBlank = []) : Lexes blanks []
  | /-- The token at the front, then the rest. -/ token {text rest : List Char}
      {t : Token} {tokens : List Token}
      (hnext : next (text.dropWhile isBlank) = .ok (t, rest))
      (hrest : Lexes rest tokens) : Lexes text (t :: tokens)

/-! ## Every token takes a character -/

theorem unquote_suffix {quote : Char} {text body rest : List Char}
    (h : unquote? quote text = some (body, rest)) : rest <:+ text := by
  fun_induction unquote? quote text generalizing body rest with
  | case1 => simp at h
  | case2 =>
    obtain ⟨-, rfl⟩ := Prod.mk.inj (Option.some.inj h)
    exact List.nil_suffix
  | case3 => simp at h
  | case4 text ih =>
    obtain ⟨⟨body', rest'⟩, hrest, heq⟩ := Option.map_eq_some_iff.mp h
    obtain ⟨-, rfl⟩ := Prod.mk.inj heq
    exact (ih hrest).trans ((List.suffix_cons _ _).trans (List.suffix_cons _ _))
  | case5 d text hne =>
    obtain ⟨-, rfl⟩ := Prod.mk.inj (Option.some.inj h)
    exact List.suffix_cons _ _
  | case6 c d text hne ih =>
    obtain ⟨⟨body', rest'⟩, hrest, heq⟩ := Option.map_eq_some_iff.mp h
    obtain ⟨-, rfl⟩ := Prod.mk.inj heq
    exact (ih hrest).trans (List.suffix_cons _ _)

theorem symbol_suffix {c : Char} {text rest : List Char} {s : Symbol}
    (h : symbol? (c :: text) = some (s, rest)) : rest <:+ text := by
  unfold symbol? at h
  split at h <;> simp_all

theorem number_suffix {sign text rest : List Char} {t : Token}
    (h : number sign text = .ok (t, rest)) :
    rest <:+ text.dropWhile Text.isDigit := by
  unfold number at h
  dsimp only at h
  split at h
  · next d more hafter =>
    rw [hafter]
    split at h
    · split at h
      · obtain ⟨-, rfl⟩ := Prod.mk.inj (Except.ok.inj h)
        exact (List.dropWhile_suffix _).trans (List.suffix_cons _ _)
      · simp at h
    · split at h
      · obtain ⟨-, rfl⟩ := Prod.mk.inj (Except.ok.inj h)
        exact hafter ▸ List.suffix_rfl
      · simp at h
  · split at h
    · obtain ⟨-, rfl⟩ := Prod.mk.inj (Except.ok.inj h)
      exact List.suffix_rfl
    · simp at h

/-- What follows a token is what is left of the text behind its first character. -/
theorem next_suffix {c : Char} {text rest : List Char} {t : Token}
    (h : next (c :: text) = .ok (t, rest)) : rest <:+ text := by
  have hdrop {p : Char → Bool} (hc : p c = true) :
      (c :: text).dropWhile p <:+ text := by
    rw [List.dropWhile_cons_of_pos hc]
    exact List.dropWhile_suffix p
  simp only [next] at h
  split at h
  · next hstart =>
    obtain ⟨-, rfl⟩ := Prod.mk.inj (Except.ok.inj h)
    exact hdrop (by simp [isNameChar, hstart])
  · split at h
    · next hdigit => exact (number_suffix h).trans (hdrop hdigit)
    · split at h
      · split at h
        · next hbody =>
          obtain ⟨-, rfl⟩ := Prod.mk.inj (Except.ok.inj h)
          exact unquote_suffix hbody
        · simp at h
      · split at h
        · split at h
          · next hbody =>
            obtain ⟨-, rfl⟩ := Prod.mk.inj (Except.ok.inj h)
            exact unquote_suffix hbody
          · simp at h
        · split at h
          · split at h
            · split at h
              · exact (number_suffix h).trans (List.dropWhile_suffix _)
              · simp at h
            · simp at h
          · split at h
            · next hsymbol =>
              obtain ⟨-, rfl⟩ := Prod.mk.inj (Except.ok.inj h)
              exact symbol_suffix hsymbol
            · simp at h

theorem length_next_lt {text rest : List Char} {t : Token}
    (h : next text = .ok (t, rest)) : rest.length < text.length := by
  cases text with
  | nil => simp [next] at h
  | cons c text => exact Nat.lt_succ_of_le (next_suffix h).length_le

/-! ## The lexer and the relation -/

/-- With fuel for every character the lexer finds the tokens of the relation,
and only those. -/
theorem readFrom_eq_ok_iff {fuel : Nat} (offset : Nat) {text : List Char}
    {tokens : List Token} (hfuel : text.length < fuel) :
    (∃ spanned, readFrom fuel offset text = .ok spanned ∧
      spanned.map SpannedToken.token = tokens) ↔ Lexes text tokens := by
  induction fuel generalizing offset text tokens with
  | zero => omega
  | succ fuel ih =>
    rw [readFrom]
    cases hblanks : text.dropWhile isBlank with
    | nil =>
      constructor
      · rintro ⟨spanned, hread, rfl⟩
        obtain rfl := Except.ok.inj hread
        exact .done hblanks
      · intro hlexes
        cases hlexes with
        | done => exact ⟨[], rfl, rfl⟩
        | token hnext => simp [hblanks, next] at hnext
    | cons c more =>
      dsimp only
      cases hnext : next (c :: more) with
      | error bad =>
        constructor
        · rintro ⟨spanned, hread, -⟩
          simp at hread
        · intro hlexes
          cases hlexes with
          | done hdone => simp [hblanks] at hdone
          | token hok => simp [hblanks, hnext] at hok
      | ok result =>
        obtain ⟨t, rest⟩ := result
        have hlength : rest.length < fuel := by
          have hlt := length_next_lt hnext
          have hle := (List.dropWhile_suffix isBlank (l := text)).length_le
          rw [hblanks] at hle
          omega
        constructor
        · rintro ⟨spanned, hread, rfl⟩
          dsimp only at hread
          split at hread
          · next others hothers =>
            obtain rfl := Except.ok.inj hread
            exact .token (by rw [hblanks, hnext])
              ((ih _ hlength).mp ⟨others, hothers, rfl⟩)
          · simp at hread
        · intro hlexes
          cases hlexes with
          | done hdone => simp [hblanks] at hdone
          | token hok hrest =>
            rw [hblanks, hnext] at hok
            obtain ⟨rfl, rfl⟩ := Prod.mk.inj (Except.ok.inj hok)
            have hread (stop : Nat) := (ih stop hlength).mpr hrest
            dsimp only
            split
            · next others hothers =>
              obtain ⟨_, hsame, hmap⟩ := hread _
              obtain rfl := Except.ok.inj (hothers.symm.trans hsame)
              exact ⟨_, rfl, by rw [List.map_cons, hmap]⟩
            · next e herror =>
              obtain ⟨_, hsame, -⟩ := hread _
              exact absurd (herror.symm.trans hsame) (by simp)

theorem read_eq_ok_iff {source : String} {tokens : List Token} :
    (∃ spanned, read source = .ok spanned ∧
      spanned.map SpannedToken.token = tokens) ↔ Lexes source.toList tokens := by
  have hfuel : source.toList.length < source.length + 1 := by
    rw [String.length_toList]
    exact Nat.lt_succ_self _
  exact readFrom_eq_ok_iff 0 hfuel

/-! ## Placeholders -/

theorem ofWord_ne_symbol (word : List Char) (s : Symbol) :
    ofWord word ≠ .symbol s := by
  unfold ofWord
  split <;> simp

theorem number_ne_symbol {sign text rest : List Char} {s : Symbol} :
    number sign text ≠ .ok (.symbol s, rest) := by
  intro h
  unfold number at h
  dsimp only at h
  split at h
  · split at h
    · split at h <;> simp at h
    · split at h <;> simp at h
  · split at h <;> simp at h

/-- Only a question mark is read as a placeholder. -/
theorem head_of_param {c : Char} {text rest : List Char}
    (h : next (c :: text) = .ok (.symbol .param, rest)) : c = '?' := by
  simp only [next] at h
  split at h
  · exact absurd (Prod.mk.inj (Except.ok.inj h)).1 (ofWord_ne_symbol _ _)
  · split at h
    · exact absurd h number_ne_symbol
    · split at h
      · split at h <;> simp at h
      · split at h
        · split at h <;> simp at h
        · split at h
          · split at h
            · split at h
              · exact absurd h number_ne_symbol
              · simp at h
            · simp at h
          · split at h
            · next hsymbol =>
              obtain ⟨hparam, -⟩ := Prod.mk.inj (Except.ok.inj h)
              obtain rfl := Token.symbol.inj hparam
              unfold symbol? at hsymbol
              split at hsymbol <;> simp_all
            · simp at h

/-- A text without question marks holds no placeholders. -/
theorem Lexes.not_mem_param {text : List Char} {tokens : List Token}
    (h : Lexes text tokens) (hfree : '?' ∉ text) : .symbol .param ∉ tokens := by
  induction h with
  | done => exact List.not_mem_nil
  | @token text rest t tokens hnext hrest ih =>
    have hblanks : text.dropWhile isBlank <:+ text := List.dropWhile_suffix _
    cases hcons : text.dropWhile isBlank with
    | nil => simp [hcons, next] at hnext
    | cons c more =>
      rw [hcons] at hnext hblanks
      have hhead : c ≠ '?' := by
        rintro rfl
        exact hfree (hblanks.mem (List.mem_cons_self ..))
      have hmore : '?' ∉ rest := by
        intro hmem
        exact hfree
          (hblanks.mem (List.mem_cons_of_mem c ((next_suffix hnext).mem hmem)))
      rw [List.mem_cons, not_or]
      constructor
      · rintro rfl
        exact hhead (head_of_param hnext)
      · exact ih hmore

/-! ## Seams -/

/-- A character that no token reaches into from the left. -/
def EndsToken (c : Char) : Prop :=
  isNameChar c = false ∧ c ≠ '"' ∧ c ≠ '\'' ∧ c ≠ '.' ∧ c ≠ '=' ∧ c ≠ '>'

instance (c : Char) : Decidable (EndsToken c) := inferInstanceAs (Decidable (_ ∧ _))

/-- The text is empty or begins with a character that no token reaches into. -/
def Seam (text : List Char) : Prop := ∀ c ∈ text.head?, EndsToken c

theorem seam_nil : Seam [] := by simp [Seam]

theorem seam_cons_iff {c : Char} {text : List Char} :
    Seam (c :: text) ↔ EndsToken c := by
  simp [Seam]

instance : (text : List Char) → Decidable (Seam text)
  | [] => isTrue seam_nil
  | _ :: _ => decidable_of_iff _ seam_cons_iff.symm

theorem Seam.append {first second : List Char} (hfirst : Seam first)
    (hsecond : Seam second) : Seam (first ++ second) := by
  cases first with
  | nil => exact hsecond
  | cons c first => exact seam_cons_iff.mpr (hfirst c rfl)

theorem takeWhile_append_of_head {p : Char → Bool} {rest : List Char}
    (h : ∀ c ∈ rest.head?, p c = false) (text : List Char) :
    (text ++ rest).takeWhile p = text.takeWhile p := by
  have hrest : rest.takeWhile p = [] := by
    cases rest with
    | nil => rfl
    | cons c rest => exact List.takeWhile_cons_of_neg (by simp [h c rfl])
  induction text with
  | nil => exact hrest
  | cons c text ih => by_cases hc : p c = true <;> simp [hc, ih]

theorem dropWhile_append_of_head {p : Char → Bool} {rest : List Char}
    (h : ∀ c ∈ rest.head?, p c = false) (text : List Char) :
    (text ++ rest).dropWhile p = text.dropWhile p ++ rest := by
  have hrest : rest.dropWhile p = rest := by
    cases rest with
    | nil => rfl
    | cons c rest => exact List.dropWhile_cons_of_neg (by simp [h c rfl])
  induction text with
  | nil => exact hrest
  | cons c text ih => by_cases hc : p c = true <;> simp [hc, ih]

theorem unquote_append {quote : Char} {text body more rest : List Char}
    (h : unquote? quote text = some (body, more))
    (hrest : ∀ c ∈ rest.head?, c ≠ quote) :
    unquote? quote (text ++ rest) = some (body, more ++ rest) := by
  fun_induction unquote? quote text generalizing body more with
  | case1 => simp at h
  | case2 =>
    obtain ⟨rfl, rfl⟩ := Prod.mk.inj (Option.some.inj h)
    cases rest with
    | nil => simp [unquote?]
    | cons d rest => simp [unquote?, hrest d rfl]
  | case3 => simp at h
  | case4 text ih =>
    obtain ⟨⟨body', more'⟩, hmore, heq⟩ := Option.map_eq_some_iff.mp h
    obtain ⟨rfl, rfl⟩ := Prod.mk.inj heq
    simp [unquote?, ih hmore]
  | case5 d text hne =>
    obtain ⟨rfl, rfl⟩ := Prod.mk.inj (Option.some.inj h)
    simp [unquote?, hne]
  | case6 c d text hne ih =>
    obtain ⟨⟨body', more'⟩, hmore, heq⟩ := Option.map_eq_some_iff.mp h
    obtain ⟨rfl, rfl⟩ := Prod.mk.inj heq
    have hnext := ih hmore
    rw [List.cons_append] at hnext
    simp [unquote?, hne, hnext]

/-- A text with every quote written twice. -/
def doubled (quote : Char) (body : List Char) : List Char :=
  body.flatMap fun c => if c = quote then [quote, quote] else [c]

theorem unquote_doubled (quote : Char) (body : List Char) {rest : List Char}
    (hrest : ∀ c ∈ rest.head?, c ≠ quote) :
    unquote? quote (doubled quote body ++ quote :: rest) = some (body, rest) := by
  induction body with
  | nil =>
    cases rest with
    | nil => simp [doubled, unquote?]
    | cons d rest => simp [doubled, unquote?, hrest d rfl]
  | cons c body ih =>
    by_cases hc : c = quote
    · subst hc
      simpa [doubled, unquote?] using ih
    · obtain ⟨d, more, hmore⟩ := List.exists_cons_of_ne_nil
        (show doubled quote body ++ quote :: rest ≠ [] by simp)
      calc
        unquote? quote (doubled quote (c :: body) ++ quote :: rest) =
            unquote? quote (c :: d :: more) := by simp [doubled, hc, ← hmore]
        _ = (unquote? quote (doubled quote body ++ quote :: rest)).map
              fun found => (c :: found.1, found.2) := by
          rw [unquote?, if_neg hc, hmore]
        _ = some (c :: body, rest) := by rw [ih]; rfl

theorem symbol_append {text more rest : List Char} {s : Symbol}
    (h : symbol? text = some (s, more))
    (hrest : ∀ c ∈ rest.head?, c ≠ '=' ∧ c ≠ '>') :
    symbol? (text ++ rest) = some (s, more ++ rest) := by
  cases rest with
  | nil => simpa using h
  | cons d rest =>
    obtain ⟨heq, hgt⟩ := hrest d rfl
    unfold symbol? at h
    split at h <;> simp_all [symbol?]
    -- What follows a single angle bracket decides which comparison it is.
    · cases more <;> simp_all
    · cases more <;> simp_all

theorem number_append {sign text more rest : List Char} {t : Token}
    (h : number sign text = .ok (t, more))
    (hrest : ∀ c ∈ rest.head?, Text.isDigit c = false ∧ c ≠ '.') :
    number sign (text ++ rest) = .ok (t, more ++ rest) := by
  have hdigit : ∀ c ∈ rest.head?, Text.isDigit c = false :=
    fun c hc => (hrest c hc).1
  unfold number at h ⊢
  rw [takeWhile_append_of_head hdigit, dropWhile_append_of_head hdigit]
  dsimp only at h ⊢
  split at h
  · next d fraction hafter =>
    rw [hafter]
    simp only [List.cons_append]
    by_cases hd : Text.isDigit d = true
    · rw [if_pos hd] at h ⊢
      rw [← List.cons_append, takeWhile_append_of_head hdigit,
        dropWhile_append_of_head hdigit]
      split at h <;> simp_all
    · rw [if_neg hd] at h ⊢
      split at h
      · obtain ⟨rfl, rfl⟩ := Prod.mk.inj (Except.ok.inj h)
        simp_all
      · simp at h
  · next hafter =>
    -- A whole number; a point at its end is not followed by a digit of the rest
    -- either.
    split
    · next d fraction hjoined =>
      have hd : Text.isDigit d = false := by
        cases htail : text.dropWhile Text.isDigit with
        | nil =>
          rw [htail, List.nil_append] at hjoined
          exact absurd rfl (hrest '.' (by simp [hjoined])).2
        | cons c tail =>
          rw [htail, List.cons_append] at hjoined
          obtain ⟨rfl, htail'⟩ := List.cons.inj hjoined
          cases tail with
          | nil =>
            rw [List.nil_append] at htail'
            exact hdigit d (by rw [htail']; rfl)
          | cons e tail => exact absurd htail (hafter e tail)
      simp only [hd, Bool.false_eq_true, if_false]
      split at h <;> simp_all
    · split at h <;> simp_all

/-- The first token of a text stays what it is when a text that begins with a
seam comes behind. -/
theorem next_append {text more rest : List Char} {t : Token}
    (h : next text = .ok (t, more)) (hrest : Seam rest) :
    next (text ++ rest) = .ok (t, more ++ rest) := by
  cases text with
  | nil => simp [next] at h
  | cons c text =>
    rw [List.cons_append]
    simp only [next] at h ⊢
    split at h
    · next hstart =>
      have hname : ∀ d ∈ rest.head?, isNameChar d = false :=
        fun d hd => (hrest d hd).1
      obtain ⟨rfl, rfl⟩ := Prod.mk.inj (Except.ok.inj h)
      rw [if_pos hstart, ← List.cons_append, takeWhile_append_of_head hname,
        dropWhile_append_of_head hname]
    · next hstart =>
      rw [if_neg hstart]
      have hdigit : ∀ d ∈ rest.head?, Text.isDigit d = false ∧ d ≠ '.' :=
        fun d hd => by
          have hnot := (hrest d hd).1
          simp only [isNameChar, Bool.or_eq_false_iff] at hnot
          exact ⟨hnot.2, (hrest d hd).2.2.2.1⟩
      split at h
      · next hc =>
        rw [if_pos hc, ← List.cons_append]
        exact number_append h hdigit
      · next hc =>
        rw [if_neg hc]
        split at h
        · next hquote =>
          rw [if_pos hquote]
          split at h
          · next hbody =>
            obtain ⟨rfl, rfl⟩ := Prod.mk.inj (Except.ok.inj h)
            rw [unquote_append hbody fun d hd => (hrest d hd).2.1]
          · simp at h
        · next hquote =>
          rw [if_neg hquote]
          split at h
          · next hquote' =>
            rw [if_pos hquote']
            split at h
            · next hbody =>
              obtain ⟨rfl, rfl⟩ := Prod.mk.inj (Except.ok.inj h)
              rw [unquote_append hbody fun d hd => (hrest d hd).2.2.1]
            · simp at h
          · next hquote' =>
            rw [if_neg hquote']
            split at h
            · next hminus =>
              rw [if_pos hminus]
              cases text with
              | nil => simp at h
              | cons d text =>
                dsimp only [List.cons_append] at h ⊢
                split at h
                · next hd =>
                  rw [if_pos hd, ← List.cons_append]
                  exact number_append h hdigit
                · simp at h
            · next hminus =>
              rw [if_neg hminus]
              split at h
              · next hsymbol =>
                obtain ⟨rfl, rfl⟩ := Prod.mk.inj (Except.ok.inj h)
                rw [← List.cons_append,
                  symbol_append hsymbol fun d hd => (hrest d hd).2.2.2.2]
              · simp at h

/-- Leading blanks do not count. -/
theorem Lexes.congr_blank {text other : List Char} {tokens : List Token}
    (h : Lexes text tokens)
    (hsame : text.dropWhile isBlank = other.dropWhile isBlank) :
    Lexes other tokens := by
  cases h with
  | done hdone => exact .done (hsame ▸ hdone)
  | token hnext hrest => exact .token (hsame ▸ hnext) hrest

/-- Texts are lexed one after the other if the second begins with a seam. -/
theorem Lexes.append {first second : List Char} {ts us : List Token}
    (hfirst : Lexes first ts) (hsecond : Lexes second us) (hseam : Seam second) :
    Lexes (first ++ second) (ts ++ us) := by
  induction hfirst with
  | done hdone =>
    refine hsecond.congr_blank ?_
    rw [List.dropWhile_append, hdone]
    simp
  | token hnext _ ih =>
    refine .token ?_ ih
    have hsome := length_next_lt hnext
    rw [List.dropWhile_append,
      if_neg (by rw [List.isEmpty_iff]; rintro hnil; simp [hnil] at hsome)]
    exact next_append hnext hseam

/-- A text that is cut into the given tokens whatever comes behind it. -/
def Closed (text : List Char) (tokens : List Token) : Prop :=
  ∀ ⦃rest : List Char⦄ ⦃more : List Token⦄, Lexes rest more →
    Lexes (text ++ rest) (tokens ++ more)

/-- A text is closed by a blank. -/
theorem Lexes.closed_blank {text : List Char} {tokens : List Token}
    (h : Lexes text tokens) : Closed (text ++ [' ']) tokens :=
  fun rest more hrest => by
  have hblank : Lexes (' ' :: rest) more := hrest.congr_blank rfl
  simpa using h.append hblank (seam_cons_iff.mpr (by decide))

/-- A text is closed by a mark that is a token on its own. -/
theorem Lexes.closed_mark {text : List Char} {tokens : List Token} {s : Symbol}
    (h : Lexes text tokens) (c : Char) (hc : c ∈ ['(', ')', ',', '?'])
    (hs : symbol? [c] = some (s, [])) :
    Closed (text ++ [c]) (tokens ++ [.symbol s]) := fun rest more hrest => by
  simp only [List.mem_cons, List.not_mem_nil, or_false] at hc
  have hnext : next ((c :: rest).dropWhile isBlank) = .ok (.symbol s, rest) ∧
      EndsToken c := by
    obtain rfl | rfl | rfl | rfl := hc
    all_goals
      obtain ⟨rfl, -⟩ := Prod.mk.inj (Option.some.inj hs)
      exact ⟨rfl, by decide⟩
  have hmark : Lexes (c :: rest) (.symbol s :: more) := .token hnext.1 hrest
  simpa using h.append hmark (seam_cons_iff.mpr hnext.2)

/-- A text that may stand behind any other. It may be empty. -/
structure Tail (text : List Char) (tokens : List Token) : Prop where
  lexes : Lexes text tokens
  seam : Seam text

theorem tail_nil : Tail [] [] := ⟨.done rfl, seam_nil⟩

theorem Lexes.tail {first second : List Char} {ts us : List Token}
    (hfirst : Lexes first ts) (hsecond : Tail second us) :
    Lexes (first ++ second) (ts ++ us) :=
  hfirst.append hsecond.lexes hsecond.seam

theorem Tail.append {first second : List Char} {ts us : List Token}
    (hfirst : Tail first ts) (hsecond : Tail second us) :
    Tail (first ++ second) (ts ++ us) :=
  ⟨hfirst.lexes.tail hsecond, hfirst.seam.append hsecond.seam⟩

/-- A closed text that begins with a seam, so that it may stand between any two
texts. -/
structure Joint (text : List Char) (tokens : List Token) : Prop where
  closed : Closed text tokens
  seam : Seam text
  nonempty : text ≠ []

theorem Joint.tail {first second : List Char} {ts us : List Token}
    (hfirst : Joint first ts) (hsecond : Lexes second us) :
    Tail (first ++ second) (ts ++ us) := by
  refine ⟨hfirst.closed hsecond, ?_⟩
  obtain ⟨c, rest, hcons⟩ := List.exists_cons_of_ne_nil hfirst.nonempty
  have hseam := hfirst.seam
  rw [hcons] at hseam ⊢
  exact seam_cons_iff.mpr (hseam c rfl)

/-! ## Fixed texts -/

theorem lexes_of_read {text : String} {spanned : List SpannedToken}
    (h : read text = .ok spanned) :
    Lexes text.toList (spanned.map SpannedToken.token) :=
  read_eq_ok_iff.mp ⟨spanned, h, rfl⟩

/-- A fixed text that ends in a blank. -/
theorem closed_word {text : String} {spanned : List SpannedToken}
    (h : read text = .ok spanned) :
    Closed (text.toList ++ [' ']) (spanned.map SpannedToken.token) :=
  (lexes_of_read h).closed_blank

/-- A fixed text between blanks. -/
theorem joint_word {text : String} {spanned : List SpannedToken}
    (h : read text = .ok spanned) :
    Joint (' ' :: text.toList ++ [' ']) (spanned.map SpannedToken.token) := by
  have hblank : Lexes (' ' :: text.toList) (spanned.map SpannedToken.token) :=
    (lexes_of_read h).congr_blank rfl
  exact ⟨hblank.closed_blank, seam_cons_iff.mpr (by decide), by simp⟩

end EntityMapper.Token
