import EntityMapper.Proofs.Statement.Statements

/-!
# Where a syntax error points

A span counts bytes, and a character may have several, so not every span is a
piece of the text. The spans of tokens are: the lexer counts off whole
characters, those of a token as well as those that are none. The parser makes no
spans of its own. It *blames* a token, whose span it takes over, or the end of
the command. So the text under the span of an error is what the message is
about.
-/

namespace EntityMapper

/-- The span is the place of `marked` in the text, right behind `before`. -/
structure Span.Marks (span : Span) (text before marked : List Char) : Prop where
  isPrefix : before ++ marked <+: text
  start_eq : span.start = Text.byteSize before
  stop_eq : span.stop = Text.byteSize (before ++ marked)

theorem Span.Marks.place {text before marked : List Char}
    (h : before ++ marked <+: text) :
    Span.Marks ⟨Text.byteSize before, Text.byteSize (before ++ marked)⟩ text
      before marked :=
  ⟨h, rfl, rfl⟩

/-! ## Spans of the lexer -/

namespace Token

theorem prefix_of_number_error {sign text bad : List Char}
    (h : number sign text = .error bad) : bad <+: sign ++ text := by
  have hsplit := List.takeWhile_append_dropWhile (p := Text.isDigit) (l := text)
  have hdigits : sign ++ text.takeWhile Text.isDigit <+: sign ++ text :=
    (List.prefix_append_right_inj sign).mpr (List.takeWhile_prefix _)
  unfold number at h
  dsimp only at h
  split at h
  · next d more hafter =>
    split at h
    · split at h
      · cases h
      · obtain rfl := Except.error.inj h
        rw [hafter] at hsplit
        have hfraction : '.' :: (d :: more).takeWhile Text.isDigit <+:
            '.' :: d :: more :=
          (List.prefix_cons_inj '.').mpr (List.takeWhile_prefix _)
        have hpoint :=
          (List.prefix_append_right_inj (text.takeWhile Text.isDigit)).mpr hfraction
        rw [hsplit] at hpoint
        rw [List.append_assoc]
        exact (List.prefix_append_right_inj sign).mpr hpoint
    · split at h
      · cases h
      · exact Except.error.inj h ▸ hdigits
  · split at h
    · cases h
    · exact Except.error.inj h ▸ hdigits

/-- What is no token stands at the front of the text. -/
theorem prefix_of_next_error {text bad : List Char} (h : next text = .error bad) :
    bad <+: text := by
  cases text with
  | nil =>
    obtain rfl := Except.error.inj h
    exact List.nil_prefix
  | cons c text =>
    have hfirst : [c] <+: c :: text := List.prefix_append [c] text
    simp only [next] at h
    split at h
    · cases h
    · split at h
      · exact prefix_of_number_error h
      · split at h
        · split at h
          · cases h
          · exact Except.error.inj h ▸ List.prefix_rfl
        · split at h
          · split at h
            · cases h
            · exact Except.error.inj h ▸ List.prefix_rfl
          · split at h
            · next hminus =>
              subst hminus
              split at h
              · split at h
                · exact prefix_of_number_error h
                · exact Except.error.inj h ▸ hfirst
              · exact Except.error.inj h ▸ hfirst
            · split at h
              · cases h
              · exact Except.error.inj h ▸ hfirst

/-- The characters of a token, which the lexer counts from what is left behind
them. -/
theorem exists_piece {c : Char} {more rest : List Char} {t : Token}
    (h : next (c :: more) = .ok (t, rest)) : ∃ piece, c :: more = piece ++ rest ∧
      (c :: more).take ((c :: more).length - rest.length) = piece := by
  obtain ⟨piece, hpiece⟩ := (next_suffix h).trans (List.suffix_cons c more)
  refine ⟨piece, hpiece.symm, ?_⟩
  rw [← hpiece, List.length_append, Nat.add_sub_cancel, List.take_left]

/-- Tokens stand at pieces of the text, and so does what the lexer complains
about. -/
def Placed (text : List Char) : Except SyntaxError (List SpannedToken) → Prop
  | .ok spanned => ∀ t ∈ spanned, ∃ before marked, t.span.Marks text before marked
  | .error e => ∃ before marked, e.span.Marks text before marked ∧
    e.fault = .unknownText (String.ofList marked)

theorem placed_readFrom (fuel : Nat) (front text : List Char) :
    Placed (front ++ text) (readFrom fuel (Text.byteSize front) text) := by
  induction fuel generalizing front text with
  | zero => exact List.forall_mem_nil _
  | succ fuel ih =>
    have hblanks := List.takeWhile_append_dropWhile (p := isBlank) (l := text)
    rw [readFrom, ← Text.byteSize_append]
    cases hrest : text.dropWhile isBlank with
    | nil => exact List.forall_mem_nil _
    | cons c more =>
      rw [hrest] at hblanks
      have hwhole :
          front ++ text = front ++ text.takeWhile isBlank ++ (c :: more) := by
        rw [List.append_assoc, hblanks]
      dsimp only
      cases hnext : next (c :: more) with
      | error bad =>
        have hbad : front ++ text.takeWhile isBlank ++ bad <+: front ++ text := by
          rw [hwhole, List.prefix_append_right_inj]
          exact prefix_of_next_error hnext
        dsimp only
        rw [← Text.byteSize_append]
        exact ⟨_, bad, .place hbad, rfl⟩
      | ok result =>
        obtain ⟨t, rest⟩ := result
        obtain ⟨piece, hpiece, htake⟩ := exists_piece hnext
        have hsame : front ++ text =
            front ++ text.takeWhile isBlank ++ piece ++ rest := by
          rw [hwhole, hpiece, List.append_assoc _ piece]
        have hplace : front ++ text.takeWhile isBlank ++ piece <+: front ++ text :=
          hsame ▸ List.prefix_append _ rest
        have hplaced := ih (front ++ text.takeWhile isBlank ++ piece) rest
        rw [← hsame] at hplaced
        dsimp only
        rw [htake, ← Text.byteSize_append]
        cases hread : readFrom fuel
            (Text.byteSize (front ++ text.takeWhile isBlank ++ piece)) rest with
        | ok others =>
          rw [hread] at hplaced
          exact List.forall_mem_cons.mpr ⟨⟨_, piece, .place hplace⟩, hplaced⟩
        | error e =>
          rw [hread] at hplaced
          exact hplaced

theorem placed_read (source : String) : Placed source.toList (read source) :=
  placed_readFrom (source.length + 1) [] source.toList

/-- The lexer has one complaint, with the text that it is about. -/
theorem fault_of_read {source : String} {e : SyntaxError}
    (h : read source = .error e) :
    ∃ before marked, e.span.Marks source.toList before marked ∧
      e.fault = .unknownText (String.ofList marked) := by
  have hplaced := placed_read source
  rwa [h] at hplaced

end Token

/-! ## Blame -/

/-- The token that a fault is about: the one that was found, or the bracket
behind the values of an insert that has too many or too few. -/
def SyntaxFault.token? : SyntaxFault → Option Token
  | .unknownText _ | .endOfInput => none
  | .columnCount _ _ => some (.symbol .rightParen)
  | .expectedStatement found | .trailing found | .expected _ found |
      .expectedPredicate found
  | .expectedComparison found | .expectedValue found | .expectedName found
  | .expectedCount found => some found

/-- The error is about one of the tokens and points at it, or it points at the
end behind them. -/
def SyntaxError.Blames (e : SyntaxError) (tokens : List SpannedToken)
    (size : Nat) : Prop :=
  e = ⟨.endOfInput, ⟨size, size⟩⟩ ∨
    ∃ t ∈ tokens, e.span = t.span ∧ e.fault.token? = some t.token

/-- Only some of the tokens are ahead, and the end is as given. -/
structure Cursor.Within (c : Cursor) (tokens : List SpannedToken) (size : Nat) :
    Prop where
  subset : c.tokens ⊆ tokens
  size_eq : c.size = size

namespace Parser

variable {α β : Type} {tokens : List SpannedToken} {size : Nat}

/-- Wherever only some of the tokens are ahead, a run that fails blames one of
them or the end, and a run that succeeds stays among them, with a result as `Q`
says. -/
def Blames (p : Parser α) (tokens : List SpannedToken) (size : Nat)
    (Q : α → Prop) : Prop :=
  ∀ c : Cursor, c.Within tokens size →
    (∀ e, p.run c = .error e → e.Blames tokens size) ∧
      ∀ a d, p.run c = .ok (a, d) → d.Within tokens size ∧ Q a

/-- A parser that blames tokens, whatever its result. -/
def Fair (p : Parser α) (tokens : List SpannedToken) (size : Nat) : Prop :=
  p.Blames tokens size fun _ => True

/-! ## Steps -/

variable {p : Parser α} {f : α → Parser β} {Q : α → Prop} {R : β → Prop}

/-- Of two steps the first fails, or the second one behind it. -/
theorem error_of_run_bind {c : Cursor} {e : SyntaxError}
    (h : (p >>= f).run c = .error e) :
    p.run c = .error e ∨ ∃ a d, p.run c = .ok (a, d) ∧ (f a).run d = .error e := by
  rw [StateT.run_bind] at h
  cases hp : p.run c with
  | error fault =>
    rw [hp] at h
    exact .inl (congrArg Except.error (Except.error.inj h))
  | ok result =>
    rw [hp] at h
    exact .inr ⟨result.1, result.2, rfl, h⟩

theorem Blames.bind (hp : p.Blames tokens size Q)
    (hf : ∀ a, Q a → (f a).Blames tokens size R) :
    (p >>= f).Blames tokens size R := by
  intro c hc
  constructor
  · intro e hrun
    rcases error_of_run_bind hrun with hfirst | ⟨a, d, hfirst, hsecond⟩
    · exact (hp c hc).1 e hfirst
    · obtain ⟨hd, hQ⟩ := (hp c hc).2 a d hfirst
      exact (hf a hQ d hd).1 e hsecond
  · intro b e hrun
    obtain ⟨a, d, hfirst, hsecond⟩ := exists_of_run_bind hrun
    obtain ⟨hd, hQ⟩ := (hp c hc).2 a d hfirst
    exact (hf a hQ d hd).2 b e hsecond

theorem Fair.bind (hp : p.Fair tokens size) (hf : ∀ a, (f a).Blames tokens size R) :
    (p >>= f).Blames tokens size R :=
  Blames.bind hp fun a _ => hf a

theorem Blames.fair (h : p.Blames tokens size Q) : p.Fair tokens size :=
  fun c hc => ⟨(h c hc).1, fun a d hrun => ⟨((h c hc).2 a d hrun).1, trivial⟩⟩

/-- A step that never fails. -/
theorem blames_of_run
    (h : ∀ c : Cursor, c.Within tokens size → ∃ a d, p.run c = .ok (a, d) ∧
      d.Within tokens size ∧ Q a) : p.Blames tokens size Q := by
  intro c hc
  obtain ⟨a, d, hrun, hd, hQ⟩ := h c hc
  rw [hrun]
  refine ⟨fun e herror => (by cases herror), fun b k hok => ?_⟩
  obtain ⟨rfl, rfl⟩ := Prod.mk.inj (Except.ok.inj hok)
  exact ⟨hd, hQ⟩

theorem blames_pure {a : α} (h : Q a) : (pure a : Parser α).Blames tokens size Q :=
  blames_of_run fun c hc => ⟨a, c, rfl, hc, h⟩

theorem fair_pure (a : α) : (pure a : Parser α).Fair tokens size :=
  blames_pure trivial

theorem run_fail (fault : SyntaxFault) (span : Span) (c : Cursor) :
    (fail fault span : Parser α).run c = .error ⟨fault, span⟩ := rfl

theorem blames_of_error {fault : SyntaxFault} {span : Span}
    (h : (SyntaxError.mk fault span).Blames tokens size) :
    (fail fault span : Parser α).Blames tokens size Q := by
  intro c _
  rw [run_fail]
  refine ⟨fun e herror => ?_, fun a d hok => (by cases hok)⟩
  obtain rfl := Except.error.inj herror
  exact h

/-- Complaints are made about tokens that were ahead. -/
theorem blames_fail {fault : SyntaxFault} {next : SpannedToken}
    (hnext : next ∈ tokens) (hfault : fault.token? = some next.token) :
    (fail fault next.span : Parser α).Blames tokens size Q :=
  blames_of_error (.inr ⟨next, hnext, rfl, hfault⟩)

theorem blames_end :
    (fail .endOfInput ⟨size, size⟩ : Parser α).Blames tokens size Q :=
  blames_of_error (.inl rfl)

theorem blames_get {f : Cursor → Parser β}
    (h : ∀ c : Cursor, c.Within tokens size → (f c).Blames tokens size R) :
    (get >>= f).Blames tokens size R :=
  fun c hc => h c hc c hc

theorem blames_ite {b : Bool} {p q : Parser α} (hp : p.Blames tokens size Q)
    (hq : q.Blames tokens size Q) :
    (if b = true then p else q).Blames tokens size Q := by
  cases b with
  | true => exact hp
  | false => exact hq

theorem blames_next : nextToken.Blames tokens size (· ∈ tokens) := by
  intro c hc
  rcases htokens : c.tokens with _ | ⟨next, rest⟩
  · have hrun : nextToken.run c = .error ⟨.endOfInput, ⟨size, size⟩⟩ := by
      simp only [StateT.run, nextToken, htokens, hc.size_eq]
    rw [hrun]
    exact ⟨fun e herror => .inl (Except.error.inj herror).symm,
      fun a d hok => (by cases hok)⟩
  · have hrun : nextToken.run c = .ok (next, { c with tokens := rest }) := by
      simp only [StateT.run, nextToken, htokens]
    obtain ⟨hnext, hrest⟩ := List.cons_subset.mp (htokens ▸ hc.subset)
    rw [hrun]
    refine ⟨fun e herror => (by cases herror), fun a d hok => ?_⟩
    obtain ⟨rfl, rfl⟩ := Prod.mk.inj (Except.ok.inj hok)
    exact ⟨⟨hrest, hc.size_eq⟩, hnext⟩

theorem fair_eat (t : Token) : (eat t).Fair tokens size := by
  refine blames_of_run fun c hc => ?_
  rcases htokens : c.tokens with _ | ⟨next, rest⟩
  · exact ⟨false, c, by simp only [StateT.run, eat, htokens], hc, trivial⟩
  · have hrest : rest ⊆ tokens := (List.cons_subset.mp (htokens ▸ hc.subset)).2
    by_cases hnext : next.token = t
    · exact ⟨true, { c with tokens := rest },
        by simp only [StateT.run, eat, htokens, if_pos hnext],
        ⟨hrest, hc.size_eq⟩, trivial⟩
    · exact ⟨false, c, by simp only [StateT.run, eat, htokens, if_neg hnext],
        hc, trivial⟩

theorem fair_check (t : Token) : (check t).Fair tokens size := by
  refine blames_of_run fun c hc => ?_
  rcases htokens : c.tokens with _ | ⟨next, rest⟩
  · exact ⟨false, c, by simp only [StateT.run, check, htokens], hc, trivial⟩
  · exact ⟨_, c, by simp only [StateT.run, check, htokens]; rfl, hc, trivial⟩

theorem fair_atCount : atCount.Fair tokens size := by
  refine blames_of_run fun c hc => ?_
  rcases htokens : c.tokens with _ | ⟨first, _ | ⟨second, rest⟩⟩
  · exact ⟨false, c, by simp only [StateT.run, atCount, htokens], hc, trivial⟩
  · exact ⟨false, c, by simp only [StateT.run, atCount, htokens], hc, trivial⟩
  · exact ⟨_, c, by simp only [StateT.run, atCount, htokens]; rfl, hc, trivial⟩

theorem blames_expect (t : Token) :
    (expect t).Blames tokens size fun next => next ∈ tokens ∧ next.token = t := by
  refine blames_next.bind fun next hmem => ?_
  split
  · next hnext => exact blames_pure ⟨hmem, hnext⟩
  · exact blames_fail hmem rfl

theorem Fair.discard (h : p.Fair tokens size) : (discard p).Fair tokens size := by
  rw [discard_eq]
  exact h.bind fun _ => fair_pure _

theorem fair_expectSymbol (s : Symbol) : (expectSymbol s).Fair tokens size :=
  (blames_expect _).fair.discard

theorem fair_expectKeyword (k : Keyword) : (expectKeyword k).Fair tokens size :=
  (blames_expect _).fair.discard

theorem fair_expectName : expectName.Fair tokens size := by
  refine blames_next.bind fun next hnext => ?_
  split
  · exact fair_pure _
  · exact blames_fail hnext rfl

theorem fair_expectCount : expectCount.Fair tokens size := by
  refine blames_next.bind fun next hnext => ?_
  split
  · split
    · exact fair_pure _
    · exact blames_fail hnext rfl
  · exact blames_fail hnext rfl

/-! ## Lists and names -/

theorem Fair.moreItems (h : p.Fair tokens size) (separator : Token) (fuel : Nat) :
    (moreItems separator p fuel).Fair tokens size := by
  induction fuel with
  | zero => exact fair_pure _
  | succ fuel ih =>
    refine (fair_eat separator).bind fun found => blames_ite ?_ (fair_pure _)
    exact h.bind fun first => ih.bind fun rest => fair_pure _

theorem Fair.separated (h : p.Fair tokens size) (separator : Token) :
    (separated separator p).Fair tokens size := by
  refine h.bind fun first => blames_get fun c _ => ?_
  exact (h.moreItems separator _).bind fun rest => fair_pure _

theorem fair_tableTail (fuel : Nat) (name : String) :
    (tableTail fuel name).Fair tokens size := by
  induction fuel generalizing name with
  | zero => exact fair_pure name
  | succ fuel ih =>
    refine (fair_eat _).bind fun found => blames_ite ?_ (fair_pure name)
    exact fair_expectName.bind ih

theorem fair_tableName : tableName.Fair tokens size :=
  fair_expectName.bind fun name => blames_get fun _ _ => fair_tableTail _ name

theorem fair_columnTail (fuel : Nat) (name : String) :
    (columnTail fuel name).Fair tokens size := by
  induction fuel generalizing name with
  | zero => exact fair_pure name
  | succ fuel ih =>
    refine (fair_eat _).bind fun found => blames_ite ?_ (fair_pure name)
    refine (fair_eat _).bind fun star => blames_ite (fair_pure _) ?_
    exact fair_expectName.bind ih

theorem fair_columnName : columnName.Fair tokens size := by
  refine (fair_eat _).bind fun star => blames_ite (fair_pure _) ?_
  exact fair_expectName.bind
    fun name => blames_get fun _ _ => fair_columnTail _ name

theorem fair_columnList : columnList.Fair tokens size := fair_columnName.separated _

/-! ## Filters -/

theorem fair_operand : operand.Fair tokens size := by
  refine blames_next.bind fun next hnext => ?_
  cases htoken : next.token with
  | int _ | float _ | string _ => exact fair_pure _
  | name _ | quotedName _ => exact blames_fail hnext (congrArg some htoken.symm)
  | keyword k =>
    cases k with
    | trueLiteral | falseLiteral | null => exact fair_pure _
    | _ => exact blames_fail hnext (congrArg some htoken.symm)
  | symbol s =>
    cases s with
    | param =>
      refine blames_get fun c hc => ?_
      have hset : (set { c with placeholders := c.placeholders + 1 } :
            Parser PUnit).Fair tokens size :=
        blames_of_run fun _ _ => ⟨(), _, rfl, ⟨hc.subset, hc.size_eq⟩, trivial⟩
      exact hset.bind fun _ => fair_pure _
    | _ => exact blames_fail hnext (congrArg some htoken.symm)

theorem fair_operandList : operandList.Fair tokens size := fair_operand.separated _

theorem fair_comparison : comparison.Fair tokens size := by
  refine blames_next.bind fun next hnext => ?_
  split
  · exact fair_pure _
  · exact blames_fail hnext rfl

theorem fair_memberList (column : String) (negated : Bool) :
    (memberList column negated).Fair tokens size := by
  refine (fair_expectSymbol _).bind fun _ => (fair_check _).bind fun closed => ?_
  rw [← ite_bind]
  refine Fair.bind (blames_ite (fair_pure _) fair_operandList) fun operands => ?_
  exact (fair_expectSymbol _).bind fun _ => fair_pure _

theorem fair_tokenFilter : tokenFilter.Fair tokens size := by
  refine (fair_expectSymbol _).bind fun _ => fair_columnList.bind fun columns => ?_
  refine (fair_expectSymbol _).bind fun _ => fair_comparison.bind fun operator => ?_
  refine (fair_expectKeyword _).bind fun _ => (fair_expectSymbol _).bind fun _ => ?_
  refine fair_operandList.bind fun operands => ?_
  exact (fair_expectSymbol _).bind fun _ => fair_pure _

theorem fair_columnFilter : columnFilter.Fair tokens size := by
  refine fair_columnName.bind fun column => blames_next.bind fun next hnext => ?_
  split
  · exact fair_operand.bind fun o => fair_pure _
  · exact (fair_eat _).bind fun found => fair_operand.bind fun o => fair_pure _
  · exact fair_memberList column false
  · exact (fair_expectKeyword _).bind fun _ => fair_memberList column true
  · refine (fair_eat _).bind fun negated => ?_
    exact (fair_expectKeyword _).bind fun _ => fair_pure _
  · split
    · exact fair_operand.bind fun o => fair_pure _
    · exact blames_fail hnext rfl

theorem Fair.term {inner : Parser Filter} (h : inner.Fair tokens size) :
    (term inner).Fair tokens size := by
  refine (fair_eat _).bind fun bracket => blames_ite ?_ ?_
  · exact h.bind fun f => (fair_expectSymbol _).bind fun _ => fair_pure _
  · exact (fair_eat _).bind
      fun word => blames_ite fair_tokenFilter fair_columnFilter

theorem fair_filterWithin (fuel : Nat) : (filterWithin fuel).Fair tokens size := by
  induction fuel with
  | zero =>
    refine blames_get fun c hc => ?_
    rw [hc.size_eq]
    exact blames_end
  | succ fuel ih =>
    have hblock : (conjunctionWithin fuel).Fair tokens size :=
      (ih.term.separated _).bind fun terms => fair_pure _
    rw [filterWithin_succ]
    exact (hblock.separated _).bind fun alternatives => fair_pure _

theorem fair_filterAfter (k : Keyword) : (filterAfter k).Fair tokens size := by
  refine (fair_eat _).bind fun found => blames_ite ?_ (fair_pure none)
  have hfilter : filter.Fair tokens size :=
    blames_get fun _ _ => fair_filterWithin _
  exact hfilter.bind fun f => fair_pure _

/-! ## Statements -/

theorem fair_countAfter (k : Keyword) : (countAfter k).Fair tokens size := by
  refine (fair_eat _).bind fun found => blames_ite ?_ (fair_pure none)
  exact fair_expectCount.bind fun n => fair_pure _

theorem fair_ttl : ttl.Fair tokens size := by
  refine (fair_eat _).bind fun found => blames_ite ?_ (fair_pure none)
  exact (fair_expectKeyword _).bind
    fun _ => fair_expectCount.bind fun n => fair_pure _

theorem fair_projectedColumn : projectedColumn.Fair tokens size := by
  refine fair_columnName.bind fun name => ?_
  split
  · exact fair_pure none
  · refine (fair_eat _).bind fun found => ?_
    rw [← ite_bind]
    refine Fair.bind (blames_ite ?_ (fair_pure none)) fun label => fair_pure _
    rw [map_eq_pure_bind]
    exact fair_expectName.bind fun label => fair_pure _

theorem fair_projection : projection.Fair tokens size := by
  refine (fair_eat _).bind fun star => blames_ite (fair_pure _) ?_
  refine fair_atCount.bind fun count => blames_ite ?_ ?_
  · refine (fair_expectKeyword _).bind
      fun _ => (fair_expectSymbol _).bind fun _ => ?_
    refine (fair_expectSymbol _).bind fun _ => ?_
    exact (fair_expectSymbol _).bind fun _ => fair_pure _
  · refine (fair_projectedColumn.separated _).bind fun columns => ?_
    exact blames_ite (fair_pure _) (fair_pure _)

theorem fair_orderItem : orderItem.Fair tokens size := by
  refine fair_columnName.bind fun column => ?_
  refine (fair_eat _).bind fun down => blames_ite (fair_pure _) ?_
  exact (fair_eat _).discard.bind fun _ => fair_pure _

theorem fair_groupColumns : groupColumns.Fair tokens size := by
  refine (fair_eat _).bind fun found => blames_ite ?_ (fair_pure _)
  exact (fair_expectKeyword _).bind fun _ => fair_columnList

theorem fair_orderItems : orderItems.Fair tokens size := by
  refine (fair_eat _).bind fun found => blames_ite ?_ (fair_pure _)
  exact (fair_expectKeyword _).bind fun _ => fair_orderItem.separated _

theorem fair_filteringAllowed : filteringAllowed.Fair tokens size := by
  refine (fair_eat _).bind fun found => blames_ite ?_ (fair_pure _)
  exact (fair_expectKeyword _).bind fun _ => fair_pure true

theorem fair_select : select.Fair tokens size := by
  rw [select_eq]
  refine fair_projection.bind
    fun projection => (fair_expectKeyword _).bind fun _ => ?_
  refine fair_tableName.bind fun table => (fair_filterAfter _).bind fun filter => ?_
  refine fair_groupColumns.bind
    fun groupBy => fair_orderItems.bind fun orderBy => ?_
  refine (fair_countAfter _).bind
    fun limit => (fair_countAfter _).bind fun offset => ?_
  exact fair_filteringAllowed.bind fun allow => fair_pure _

theorem fair_ifAbsent : ifAbsent.Fair tokens size := by
  refine (fair_eat _).bind fun found => blames_ite ?_ ?_
  · refine (fair_expectKeyword _).bind fun _ => ?_
    exact (fair_expectKeyword _).bind fun _ => fair_pure true
  · refine (fair_eat _).bind fun found => blames_ite ?_ (fair_pure false)
    refine (fair_expectKeyword _).bind
      fun _ => (fair_expectKeyword _).bind fun _ => ?_
    exact (fair_expectKeyword _).bind fun _ => fair_pure true

theorem fair_insert : insert.Fair tokens size := by
  refine (fair_expectKeyword _).bind fun _ => fair_tableName.bind fun table => ?_
  refine (fair_expectSymbol _).bind fun _ => fair_columnList.bind fun columns => ?_
  refine (fair_expectSymbol _).bind fun _ => (fair_expectKeyword _).bind fun _ => ?_
  refine (fair_expectSymbol _).bind fun _ => fair_operandList.bind fun values => ?_
  refine (blames_expect _).bind fun close ⟨hclose, hbracket⟩ => ?_
  have hend : (do
      let ifNotExists ← ifAbsent
      let ttl ← ttl
      return { table, columns, values, ifNotExists, ttl } :
        Parser InsertStatement).Fair tokens size :=
    fair_ifAbsent.bind fun ifNotExists => fair_ttl.bind fun ttl => fair_pure _
  split
  · exact Blames.bind (Q := fun _ => False)
      (blames_fail hclose (by rw [hbracket]; rfl)) fun _ => False.elim
  · exact hend

theorem fair_assignment : assignment.Fair tokens size := by
  refine fair_columnName.bind fun column => (fair_expectSymbol _).bind fun _ => ?_
  exact fair_operand.bind fun o => fair_pure _

theorem fair_update : update.Fair tokens size := by
  refine fair_tableName.bind fun table => fair_ttl.bind fun ttl => ?_
  refine (fair_expectKeyword _).bind fun _ => ?_
  refine (fair_assignment.separated _).bind fun assignments => ?_
  refine (fair_filterAfter _).bind fun filter => ?_
  exact (fair_filterAfter _).bind fun conditions => fair_pure _

theorem fair_deletedColumns : deletedColumns.Fair tokens size :=
  (fair_check _).bind fun _ => blames_ite (fair_pure []) fair_columnList

theorem fair_delete : delete.Fair tokens size := by
  rw [delete_eq]
  refine fair_deletedColumns.bind
    fun columns => (fair_expectKeyword _).bind fun _ => ?_
  refine fair_tableName.bind fun table => (fair_filterAfter _).bind fun filter => ?_
  exact (fair_filterAfter _).bind fun conditions => fair_pure _

theorem fair_statement : statement.Fair tokens size := by
  refine blames_next.bind fun first hfirst => ?_
  split
  · exact fair_select.bind fun s => fair_pure _
  · exact fair_insert.bind fun s => fair_pure _
  · exact fair_update.bind fun s => fair_pure _
  · exact fair_delete.bind fun s => fair_pure _
  · exact blames_fail hfirst rfl

theorem fair_finish : finish.Fair tokens size := by
  refine (fair_eat _).discard.bind fun _ => blames_get fun c hc => ?_
  rcases htokens : c.tokens with _ | ⟨next, rest⟩
  · exact fair_pure ()
  · have hnext : next ∈ tokens := (List.cons_subset.mp (htokens ▸ hc.subset)).1
    exact blames_fail hnext rfl

theorem fair_command : command.Fair tokens size := by
  refine fair_statement.bind fun s => fair_finish.bind fun _ => ?_
  exact blames_get fun c _ => fair_pure _

end Parser

/-! ## Whole commands -/

namespace ParsedCommand

variable {source : String} {e : SyntaxError}

/-- A command that is refused has a text in it that is no token, or it is blamed
on one of its tokens or on its end. -/
theorem blames_of_parse (h : parse source = .error e) :
    Token.read source = .error e ∨ ∃ tokens, Token.read source = .ok tokens ∧
      e.Blames tokens source.utf8ByteSize := by
  cases hread : Token.read source with
  | error fault =>
    simp only [parse, hread, bind, Except.bind] at h
    exact .inl (congrArg Except.error (Except.error.inj h))
  | ok tokens =>
    refine .inr ⟨tokens, rfl, ?_⟩
    have hstart : Cursor.Within ⟨tokens, 0, source.utf8ByteSize⟩ tokens
        source.utf8ByteSize :=
      ⟨List.Subset.refl tokens, rfl⟩
    cases hrun : Parser.command.run ⟨tokens, 0, source.utf8ByteSize⟩ with
    | error fault =>
      simp only [parse, hread, hrun, bind, Except.bind] at h
      obtain rfl := Except.error.inj h
      exact (Parser.fair_command _ hstart).1 fault hrun
    | ok result =>
      simp [parse, hread, hrun, bind, Except.bind, pure, Except.pure] at h

/-- The span of a syntax error is a piece of the command. -/
theorem marks_of_parse (h : parse source = .error e) :
    ∃ before marked, e.span.Marks source.toList before marked ∧
      ∀ text, e.fault = .unknownText text → text = String.ofList marked := by
  rcases blames_of_parse h with hread | ⟨tokens, hread, hblames⟩
  · obtain ⟨before, marked, hmarks, hfault⟩ := Token.fault_of_read hread
    refine ⟨before, marked, hmarks, fun text htext => ?_⟩
    exact (SyntaxFault.unknownText.inj (hfault.symm.trans htext)).symm
  · rcases hblames with rfl | ⟨t, ht, hspan, hfault⟩
    · have hsize : Text.byteSize source.toList = source.utf8ByteSize := by
        rw [Text.byteSize_eq, String.ofList_toList]
      have hfront : source.toList ++ [] <+: source.toList := ⟨[], by simp⟩
      refine ⟨source.toList, [], ⟨hfront, hsize.symm, ?_⟩,
        fun text htext => by cases htext⟩
      rw [List.append_nil, hsize]
    · have hplaced := Token.placed_read source
      rw [hread] at hplaced
      obtain ⟨before, marked, hmarks⟩ := hplaced t ht
      refine ⟨before, marked, hspan ▸ hmarks, fun text htext => ?_⟩
      rw [htext] at hfault
      cases hfault

end ParsedCommand

end EntityMapper
