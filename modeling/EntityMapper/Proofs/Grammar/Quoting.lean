import EntityMapper.Proofs.Grammar.Names

/-!
# Written names stay apart from what follows

A name is written as one token whatever characters it holds, and what is written
behind it is read as if it stood alone, only further on. So no name can change
how a command is cut, and the one question left is whether the token stands for
a name. It does in the relational dialect. The partitioned dialect leaves plain
names bare, so there a name that spells a keyword of the language is that
keyword: it is refused where a name is expected, and never taken for another
name.
-/

namespace EntityMapper

/-! ## Tokens further on -/

/-- The span further on by some bytes. -/
def Span.shift (bytes : Nat) (span : Span) : Span :=
  ⟨bytes + span.start, bytes + span.stop⟩

/-- The token further on by some bytes. -/
def SpannedToken.shift (bytes : Nat) (t : SpannedToken) : SpannedToken :=
  ⟨t.token, t.span.shift bytes⟩

namespace Token

/-- A text that is read is read further on as well, and with any fuel that is
enough for it. -/
theorem readFrom_shift {fuel more offset : Nat} {text : List Char}
    {spanned : List SpannedToken} (bytes : Nat) (hfuel : text.length < fuel)
    (hmore : text.length < more) (h : readFrom fuel offset text = .ok spanned) :
    readFrom more (bytes + offset) text =
      .ok (spanned.map (SpannedToken.shift bytes)) := by
  induction fuel generalizing more offset text spanned with
  | zero => omega
  | succ fuel ih =>
    obtain ⟨more, rfl⟩ : ∃ n, more = n + 1 := ⟨more - 1, by omega⟩
    rw [readFrom] at h ⊢
    cases hblanks : text.dropWhile isBlank with
    | nil =>
      rw [hblanks] at h
      obtain rfl := Except.ok.inj h
      rfl
    | cons c tail =>
      rw [hblanks] at h
      dsimp only at h ⊢
      cases hnext : next (c :: tail) with
      | error bad => simp [hnext] at h
      | ok result =>
        obtain ⟨t, rest⟩ := result
        rw [hnext] at h
        dsimp only at h ⊢
        have hlength : rest.length < (c :: tail).length := length_next_lt hnext
        have hsuffix := (List.dropWhile_suffix isBlank (l := text)).length_le
        rw [hblanks] at hsuffix
        split at h
        · next others hothers =>
          obtain rfl := Except.ok.inj h
          have hrestMore : rest.length < more := by omega
          have hrest := ih (by omega) hrestMore hothers
          rw [← Nat.add_assoc, ← Nat.add_assoc] at hrest
          rw [hrest]
          simp only [List.map_cons, SpannedToken.shift, Span.shift, Nat.add_assoc]
        · cases h

/-- A token at the front of a text, then the tokens of what follows it. -/
theorem readFrom_of_next {fuel offset : Nat} {front rest : List Char}
    {t : Token} {spanned : List SpannedToken}
    (hblanks : (front ++ rest).dropWhile isBlank = front ++ rest)
    (hnext : next (front ++ rest) = .ok (t, rest))
    (hrest : readFrom fuel (offset + Text.byteSize front) rest = .ok spanned) :
    readFrom (fuel + 1) offset (front ++ rest) =
      .ok (⟨t, ⟨offset, offset + Text.byteSize front⟩⟩ :: spanned) := by
  have hnone : (front ++ rest).takeWhile isBlank = [] := by
    have hsplit :=
      List.takeWhile_append_dropWhile (p := isBlank) (l := front ++ rest)
    rw [hblanks] at hsplit
    exact List.append_left_eq_self.mp hsplit
  have hfront :
      (front ++ rest).take ((front ++ rest).length - rest.length) = front := by
    rw [List.length_append, Nat.add_sub_cancel, List.take_left]
  rw [readFrom, hblanks, hnone]
  cases hcons : front ++ rest with
  | nil => simp [hcons, next] at hnext
  | cons c tail =>
    rw [hcons] at hnext hfront
    simp only [hnext, hfront, Text.byteSize, List.foldr_nil, Nat.add_zero]
    rw [← Text.byteSize, hrest]

end Token

/-! ## Keywords -/

theorem Keyword.ofText_text (k : Keyword) : Keyword.ofText? k.text = some k := by
  cases k <;> rfl

namespace Grammar

variable {g : Grammar}

/-- Every keyword is a plain name, so that the partitioned dialect leaves it
bare. -/
theorem isPlainName_keyword (k : Keyword) : isPlainName k.text.toList = true := by
  cases k <;> decide

/-- A name that is no word is a keyword that the partitioned dialect writes
bare, and that is read as the keyword. -/
theorem segmentToken_eq_keyword {segment : List Char} (h : ¬ g.Word segment) :
    ∃ k : Keyword, g.dialect = .cql ∧ k.isSoft = false ∧ k.text.toList = segment ∧
      g.segmentToken segment = .keyword k := by
  simp only [Word, Classical.not_imp, Classical.not_forall] at h
  obtain ⟨hdialect, k, rfl, hsoft⟩ := h
  have hplain := isPlainName_keyword k
  refine ⟨k, hdialect, Bool.eq_false_iff.mpr hsoft, rfl, ?_⟩
  calc
    g.segmentToken k.text.toList = Token.ofWord k.text.toList := by
      rw [segmentToken, hdialect]
      exact if_pos hplain
    _ = .keyword k := by
      rw [Token.ofWord, map_asciiLower_of_isPlainName hplain,
        String.ofList_toList, Keyword.ofText_text]

/-- Such a keyword stands for no name. -/
theorem nameOf_segmentToken_eq_none {segment : List Char} (h : ¬ g.Word segment) :
    Parser.nameOf? (g.segmentToken segment) = none := by
  obtain ⟨k, -, hsoft, -, htoken⟩ := segmentToken_eq_keyword h
  rw [htoken, Parser.nameOf?, hsoft]
  rfl

/-! ## Written names -/

theorem toList_quoteName (g : Grammar) (name : String) :
    (g.quoteName name).toList = g.segmentChars name.toList := String.toList_ofList

/-- Where a name is expected, the next token decides alone. -/
theorem run_expectName (t : Token) (span : Span) (rest : List SpannedToken)
    (n size : Nat) :
    Parser.expectName.run ⟨⟨t, span⟩ :: rest, n, size⟩ = match Parser.nameOf? t with
      | some name => .ok (name, ⟨rest, n, size⟩)
      | none => .error ⟨.expectedName t, span⟩ := by
  have hnext : Parser.nextToken.run ⟨⟨t, span⟩ :: rest, n, size⟩ =
      .ok (⟨t, span⟩, ⟨rest, n, size⟩) := rfl
  rw [Parser.expectName, StateT.run_bind, hnext]
  cases hname : Parser.nameOf? t with
  | some name =>
    simp only [bind, Except.bind, hname]
    rfl
  | none =>
    simp only [bind, Except.bind, hname]
    rfl

/-- A written name with nothing or a text behind it that does not make it
longer: its own token, then those of the text, further on by the bytes of the
name. -/
theorem read_quoteName_append (g : Grammar) (name rest : String)
    {spanned : List SpannedToken} (hhead : ∀ c ∈ rest.toList.head?, EndsSegment c)
    (hrest : Token.read rest = .ok spanned) :
    Token.read (g.quoteName name ++ rest) =
      .ok (⟨g.segmentToken name.toList, ⟨0, (g.quoteName name).utf8ByteSize⟩⟩ ::
        spanned.map (SpannedToken.shift (g.quoteName name).utf8ByteSize)) := by
  have hsize : Text.byteSize (g.segmentChars name.toList) =
      (g.quoteName name).utf8ByteSize :=
    Text.byteSize_eq _
  have htext : (g.quoteName name ++ rest).toList =
      g.segmentChars name.toList ++ rest.toList := by
    rw [String.toList_append, toList_quoteName]
  have hnext := next_segmentChars g name.toList hhead
  have hshorter : rest.toList.length < (g.quoteName name ++ rest).length := by
    rw [← String.length_toList, htext]
    exact Token.length_next_lt hnext
  have hfuel : rest.toList.length < rest.length + 1 := by
    rw [String.length_toList]
    exact Nat.lt_succ_self _
  have hshift :=
    Token.readFrom_shift (g.quoteName name).utf8ByteSize hfuel hshorter hrest
  rw [Nat.add_comm _ 0, ← hsize] at hshift
  rw [Token.read, htext,
    Token.readFrom_of_next (dropWhile_segmentChars ..) hnext hshift,
    hsize, Nat.zero_add]

theorem read_quoteName (g : Grammar) (name : String) :
    Token.read (g.quoteName name) =
      .ok [⟨g.segmentToken name.toList, ⟨0, (g.quoteName name).utf8ByteSize⟩⟩] := by
  have hread := read_quoteName_append g name "" (by simp) rfl
  rwa [String.append_empty] at hread

/-- A written name is one token that covers it. Where a name is expected the
token is the name, unless the partitioned dialect wrote a keyword bare that
stands for no name: then the token is that keyword, and it is refused. And
behind the name a blank, a dot, a comma or a closing bracket begins a text whose
tokens are its own. -/
theorem quoteName_faithful (g : Grammar) (name : String) :
    ∃ token, Token.read (g.quoteName name) =
        .ok [⟨token, ⟨0, (g.quoteName name).utf8ByteSize⟩⟩] ∧
      (∀ span rest n size, Parser.expectName.run ⟨⟨token, span⟩ :: rest, n, size⟩ =
        if g.Word name.toList then .ok (name, ⟨rest, n, size⟩)
        else .error ⟨.expectedName token, span⟩) ∧
      (¬ g.Word name.toList → ∃ k : Keyword, g.dialect = .cql ∧ k.isSoft = false ∧
        k.text = name ∧ token = .keyword k) ∧
      ∀ rest spanned, (∃ c ∈ [' ', '.', ',', ')'], rest.toList.head? = some c) →
        Token.read rest = .ok spanned →
        Token.read (g.quoteName name ++ rest) =
          .ok (⟨token, ⟨0, (g.quoteName name).utf8ByteSize⟩⟩ ::
            spanned.map (SpannedToken.shift (g.quoteName name).utf8ByteSize)) := by
  refine ⟨g.segmentToken name.toList, read_quoteName g name,
    fun span rest n size => ?_, fun hword => ?_,
    fun rest spanned hhead hrest => read_quoteName_append g name rest ?_ hrest⟩
  · rw [run_expectName]
    by_cases hword : g.Word name.toList
    · rw [nameOf_segmentToken hword, String.ofList_toList, if_pos hword]
    · rw [nameOf_segmentToken_eq_none hword, if_neg hword]
  · obtain ⟨k, hdialect, hsoft, htext, htoken⟩ := segmentToken_eq_keyword hword
    exact ⟨k, hdialect, hsoft, String.toList_inj.mp htext, htoken⟩
  · have hends : ∀ c ∈ [' ', '.', ',', ')'], EndsSegment c := by
      intro c hc
      simp only [List.mem_cons, List.not_mem_nil, or_false] at hc
      rcases hc with rfl | rfl | rfl | rfl <;> exact ⟨rfl, by decide⟩
    obtain ⟨c, hc, hfirst⟩ := hhead
    rw [hfirst]
    rintro d ⟨rfl⟩
    exact hends c hc

/-- A name with a quote, a comma, a placeholder and a keyword in it, before the
rest of a condition. -/
theorem quoteName_faithful_hostileName :
    ∃ token, Token.read ((⟨.cql, none⟩ : Grammar).quoteName "a\" = ?, order") =
        .ok [⟨token, ⟨0, 16⟩⟩] ∧
      Parser.expectName.run ⟨[⟨token, ⟨0, 16⟩⟩], 0, 16⟩ =
        .ok ("a\" = ?, order", ⟨[], 0, 16⟩) ∧
      Token.read ((⟨.cql, none⟩ : Grammar).quoteName "a\" = ?, order" ++ " = ?") =
        .ok [⟨token, ⟨0, 16⟩⟩, ⟨.symbol .eq, ⟨17, 18⟩⟩,
          ⟨.symbol .param, ⟨19, 20⟩⟩] := by
  obtain ⟨token, hone, hname, -, hrest⟩ :=
    quoteName_faithful ⟨.cql, none⟩ "a\" = ?, order"
  have hword : (⟨.cql, none⟩ : Grammar).Word "a\" = ?, order".toList := by decide
  refine ⟨token, hone, ?_, ?_⟩
  · rw [hname, if_pos hword]
  · exact hrest " = ?" [⟨.symbol .eq, ⟨1, 2⟩⟩, ⟨.symbol .param, ⟨3, 4⟩⟩]
      ⟨' ', by decide, rfl⟩ rfl

/-- The partitioned dialect writes this name bare. It is read as the keyword,
which is refused where a name is expected. -/
theorem quoteName_order_refused :
    (⟨.cql, none⟩ : Grammar).quoteName "order" = "order" ∧
      Token.read ((⟨.cql, none⟩ : Grammar).quoteName "order") =
        .ok [⟨.keyword .order, ⟨0, 5⟩⟩] ∧
      Parser.expectName.run ⟨[⟨.keyword .order, ⟨0, 5⟩⟩], 0, 5⟩ =
        .error ⟨.expectedName (.keyword .order), ⟨0, 5⟩⟩ :=
  ⟨rfl, rfl, rfl⟩

end Grammar

end EntityMapper
