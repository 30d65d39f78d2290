import EntityMapper.Proofs.Statement.Acceptance
import EntityMapper.Proofs.Statement.Statements

/-!
# What is known of an accepted text

A parser that succeeds on given tokens tells something about them. Here this is
followed forwards: from the tokens ahead of a parser to the tokens that it
leaves. A part that is not what the parser expects is not always refused on the
spot, since a name may end early; the parser then *halts* in front of a token
that nothing behind it can take, and the command as a whole is refused. Fuel
that runs out has the same effect: a list halts in front of a separator.
-/

namespace EntityMapper.Parser

variable {α β : Type} {p : Parser α} {before after rest stops : List Token}
  {P R : Prop}

/-- From the given tokens the parser fails, or it gives a result and leaves
tokens as `Q` says. -/
def Leaves (p : Parser α) (before : List Token) (Q : α → List Token → Prop) :
    Prop :=
  ∀ c a d, c.ahead = before → p.run c = .ok (a, d) → Q a d.ahead

/-- What was taken is as `P` says and the tokens that are left are the given
ones, or a token that stops the parser is in front of them. -/
def Halts (P : Prop) (rest stops left : List Token) : Prop :=
  (P ∧ left = rest) ∨ ∃ t ∈ stops, left.head? = some t

theorem Halts.imp {left more : List Token} (h : Halts P rest stops left)
    (himp : P → R) (hstops : stops ⊆ more) : Halts R rest more left :=
  Or.imp (fun hdone => ⟨himp hdone.1, hdone.2⟩)
    (fun ⟨t, ht, hhead⟩ => ⟨t, hstops ht, hhead⟩) h

/-! ## Steps -/

theorem Leaves.imp {Q R : α → List Token → Prop} (h : p.Leaves before Q)
    (himp : ∀ a left, Q a left → R a left) : p.Leaves before R :=
  fun c a d hahead hrun => himp a d.ahead (h c a d hahead hrun)

theorem Leaves.bind {f : α → Parser β} {Q : α → List Token → Prop}
    {R : β → List Token → Prop} (hp : p.Leaves before Q)
    (hf : ∀ a left, Q a left → (f a).Leaves left R) :
    (p >>= f).Leaves before R := by
  intro c b e hahead hrun
  rw [StateT.run_bind] at hrun
  cases hfirst : p.run c with
  | error fault => simp [hfirst, Bind.bind, Except.bind] at hrun
  | ok result =>
    obtain ⟨a, d⟩ := result
    rw [hfirst] at hrun
    exact hf a d.ahead (hp c a d hahead hfirst) d b e rfl hrun

theorem leaves_pure {a : α} {Q : α → List Token → Prop} (h : Q a before) :
    (pure a : Parser α).Leaves before Q := by
  rintro c b d rfl hrun
  obtain ⟨rfl, rfl⟩ := Prod.mk.inj (Except.ok.inj hrun)
  exact h

/-- The result may be put into another form. -/
theorem Leaves.then_pure {Q : List Token → Prop} (h : p.Leaves before fun _ => Q)
    (f : α → β) : (p >>= fun a => pure (f a)).Leaves before fun _ => Q :=
  h.bind fun _ _ hleft => leaves_pure hleft

theorem leaves_get {f : Cursor → Parser β} {Q : β → List Token → Prop}
    (h : ∀ c : Cursor, c.ahead = before → (f c).Leaves before Q) :
    (get >>= f).Leaves before Q :=
  fun c b d hahead hrun => h c hahead c b d hahead hrun

theorem leaves_fail (fault : SyntaxFault) (span : Span) (before : List Token)
    (Q : α → List Token → Prop) : (fail fault span : Parser α).Leaves before Q := by
  intro c a d _ hrun
  simp [StateT.run, fail, throw, throwThe, MonadExceptOf.throw, StateT.lift,
    Bind.bind, Except.bind] at hrun

theorem leaves_ite {b : Bool} {q : Parser α} {Q : α → List Token → Prop}
    (hp : b = true → p.Leaves before Q) (hq : b = false → q.Leaves before Q) :
    (if b = true then p else q).Leaves before Q := by
  cases b with
  | true => exact hp rfl
  | false => exact hq rfl

/-- A fact that holds anyway holds behind every parser. -/
theorem leaves_of (p : Parser α) (before : List Token) (h : P) :
    p.Leaves before fun _ _ => P := fun _ _ _ _ _ => h

/-- What is known of the tokens that a parser takes. -/
theorem leaves_of_inverts {Q : List Token → α → Prop} (h : Inverts [] p Q)
    (before : List Token) :
    p.Leaves before fun a left => ∃ used, before = used ++ left ∧ Q used a :=
  fun c a d hahead hrun => hahead ▸ h c a d (List.forall_mem_nil _) hrun

/-- A parser that takes some tokens leaves the others. -/
theorem leaves_of_takes (h : ∀ n, ∃ a m, p.Takes before n a after m) :
    p.Leaves before fun _ left => left = after := by
  intro c a d hahead hrun
  obtain ⟨b, m, htakes⟩ := h c.placeholders
  obtain ⟨e, hsame, hafter, -⟩ := htakes c hahead rfl
  obtain ⟨rfl, rfl⟩ := Prod.mk.inj (Except.ok.inj (hrun.symm.trans hsame))
  exact hafter

theorem leaves_next :
    nextToken.Leaves before fun next left => before = next.token :: left := by
  refine (leaves_of_inverts inverts_next before).imp ?_
  rintro next left ⟨used, hused, rfl, -⟩
  exact hused

theorem leaves_eat (t : Token) :
    (eat t).Leaves before
      fun found left => before = if found then t :: left else left := by
  refine (leaves_of_inverts (inverts_eat t) before).imp ?_
  rintro found left ⟨used, hused, rfl⟩
  cases found <;> exact hused

theorem leaves_eat_some (t : Token) (rest : List Token) :
    (eat t).Leaves (t :: rest) fun found left => found = true ∧ left = rest := by
  intro c found d hahead hrun
  obtain ⟨e, hsame, hafter, -⟩ := takes_eat t rest c.placeholders c hahead rfl
  obtain ⟨rfl, rfl⟩ := Prod.mk.inj (Except.ok.inj (hrun.symm.trans hsame))
  exact ⟨rfl, hafter⟩

/-- A token that is not in front is not taken. -/
theorem leaves_eat_none {t : Token} (h : before.head? ≠ some t) :
    (eat t).Leaves before fun found left => found = false ∧ left = before := by
  refine (leaves_eat t).imp ?_
  rintro found left hbefore
  cases found with
  | true => exact absurd (hbefore ▸ rfl) h
  | false => exact ⟨rfl, hbefore.symm⟩

theorem leaves_expectSymbol (s : Symbol) :
    (expectSymbol s).Leaves before fun _ left => before = .symbol s :: left := by
  refine (leaves_of_inverts (inverts_expectSymbol s) before).imp ?_
  rintro _ left ⟨used, hused, rfl⟩
  exact hused

theorem leaves_expectKeyword (k : Keyword) :
    (expectKeyword k).Leaves before fun _ left => before = .keyword k :: left := by
  refine (leaves_of_inverts (inverts_expectKeyword k) before).imp ?_
  rintro _ left ⟨used, hused, rfl⟩
  exact hused

/-- Behind a parser that has halted, an expected token is there only if the
parser went on. -/
theorem Halts.expected {left more : List Token} {t : Token}
    (h : Halts P (t :: rest) stops left) (ht : t ∉ stops)
    (hleft : left = t :: more) : P ∧ more = rest := by
  rcases h with ⟨hP, hrest⟩ | ⟨stop, hstop, hhead⟩
  · exact ⟨hP, (List.cons.inj (hleft.symm.trans hrest)).2⟩
  · rw [hleft] at hhead
    obtain rfl := Option.some.inj hhead
    exact absurd hstop ht

/-- Neither what stops a parser nor what it goes on to is another token. -/
theorem Halts.head_ne {left : List Token} {t : Token} (h : Halts P rest stops left)
    (hrest : rest.head? ≠ some t) (ht : t ∉ stops) : left.head? ≠ some t := by
  rcases h with ⟨-, rfl⟩ | ⟨stop, hstop, hhead⟩
  · exact hrest
  · rw [hhead]
    rintro ⟨⟩
    exact ht hstop

/-! ## Lists -/

variable {separator : Token} {tokens : β → List Token} {holds : β → Prop}
  {items : List β}

theorem leaves_moreItems_none (p : Parser α) (fuel : Nat)
    (h : before.head? ≠ some separator) :
    (moreItems separator p fuel).Leaves before fun _ left => left = before := by
  cases fuel with
  | zero => exact leaves_pure rfl
  | succ fuel =>
    refine (leaves_eat_none h).bind ?_
    rintro found left ⟨rfl, rfl⟩
    exact leaves_pure rfl

/-- The items of a list behind the first. -/
theorem leaves_moreItems (hsep : separator ∉ stops)
    (h : ∀ x ∈ items,
      ∀ more : List Token, more = rest ∨ more.head? = some separator →
        p.Leaves (tokens x ++ more) fun _ => Halts (holds x) more stops)
    (hrest : rest.head? ≠ some separator) (fuel : Nat) :
    (moreItems separator p fuel).Leaves
      (items.flatMap (fun x => separator :: tokens x) ++ rest)
      fun _ => Halts (∀ x ∈ items, holds x) rest (separator :: stops) := by
  have hstay {items : List β} :
      Halts (∀ x ∈ items, holds x) rest (separator :: stops)
        (items.flatMap (fun x => separator :: tokens x) ++ rest) := by
    cases items with
    | nil => exact .inl ⟨List.forall_mem_nil _, rfl⟩
    | cons x items => exact .inr ⟨separator, List.mem_cons_self .., rfl⟩
  induction fuel generalizing items with
  | zero => exact leaves_pure hstay
  | succ fuel ih =>
    refine (leaves_eat separator).bind ?_
    intro found left hbefore
    refine leaves_ite ?_ ?_
    · rintro rfl
      cases items with
      | nil => exact absurd (congrArg List.head? hbefore) hrest
      | cons x items =>
        obtain ⟨hx, hitems⟩ := List.forall_mem_cons.mp h
        rw [List.flatMap_cons, List.cons_append, List.cons_append,
          List.append_assoc] at hbefore
        obtain rfl := (List.cons.inj hbefore).2
        have hmore : items.flatMap (fun x => separator :: tokens x) ++ rest = rest ∨
            (items.flatMap (fun x => separator :: tokens x) ++ rest).head? =
              some separator := by
          cases items with
          | nil => exact .inl rfl
          | cons y items => exact .inr rfl
        refine (hx _ hmore).bind ?_
        rintro _ left (⟨hholds, rfl⟩ | ⟨t, ht, hhead⟩)
        · refine (ih hitems).bind ?_
          intro others left hleft
          exact leaves_pure
            (hleft.imp (fun hothers => List.forall_mem_cons.mpr ⟨hholds, hothers⟩)
              (List.Subset.refl _))
        · have hnone : left.head? ≠ some separator := by
            rw [hhead]
            rintro ⟨⟩
            exact hsep ht
          refine (leaves_moreItems_none p fuel hnone).bind ?_
          rintro others _ rfl
          exact leaves_pure (.inr ⟨t, List.mem_cons_of_mem _ ht, hhead⟩)
    · rintro rfl
      rw [if_neg Bool.false_ne_true] at hbefore
      subst hbefore
      exact leaves_pure hstay

/-- Items with separators between them. -/
theorem intercalate_cons (x : β) (items : List β) :
    [separator].intercalate ((x :: items).map tokens) =
      tokens x ++ items.flatMap fun y => separator :: tokens y := by
  induction items generalizing x with
  | nil => simp [List.intercalate]
  | cons y items ih =>
    have hnext := ih y
    simp only [List.intercalate, List.map_cons, List.intersperse_cons_cons,
      List.flatten_cons, List.flatMap_cons] at hnext ⊢
    rw [hnext]
    simp

/-- A list whose items each halt halts as a whole, also in front of a separator. -/
theorem leaves_separated (hsome : items ≠ []) (hsep : separator ∉ stops)
    (h : ∀ x ∈ items,
      ∀ more : List Token, more = rest ∨ more.head? = some separator →
        p.Leaves (tokens x ++ more) fun _ => Halts (holds x) more stops)
    (hrest : rest.head? ≠ some separator) :
    (separated separator p).Leaves
      ([separator].intercalate (items.map tokens) ++ rest)
      fun _ => Halts (∀ x ∈ items, holds x) rest (separator :: stops) := by
  obtain ⟨x, items, rfl⟩ := List.exists_cons_of_ne_nil hsome
  obtain ⟨hx, hitems⟩ := List.forall_mem_cons.mp h
  have hmore : items.flatMap (fun y => separator :: tokens y) ++ rest = rest ∨
      (items.flatMap (fun y => separator :: tokens y) ++ rest).head? =
        some separator := by
    cases items with
    | nil => exact .inl rfl
    | cons y items => exact .inr rfl
  rw [intercalate_cons, List.append_assoc]
  refine (hx _ hmore).bind ?_
  rintro first left (⟨hholds, rfl⟩ | ⟨t, ht, hhead⟩)
  · refine leaves_get fun c _ => (leaves_moreItems hsep hitems hrest _).bind ?_
    intro others left hleft
    exact leaves_pure
      (hleft.imp (fun hothers => List.forall_mem_cons.mpr ⟨hholds, hothers⟩)
        (List.Subset.refl _))
  · have hnone : left.head? ≠ some separator := by
      rw [hhead]
      rintro ⟨⟩
      exact hsep ht
    refine leaves_get fun c _ => (leaves_moreItems_none p _ hnone).bind ?_
    rintro others _ rfl
    exact leaves_pure (.inr ⟨t, List.mem_cons_of_mem _ ht, hhead⟩)

/-! ## Commands -/

theorem leaves_statement_insert {Q : List Token → Prop}
    (h : insert.Leaves before fun _ => Q) :
    statement.Leaves (.keyword .insert :: before) fun _ => Q := by
  refine leaves_next.bind ?_
  rintro ⟨_, _⟩ _ ⟨⟩
  exact h.then_pure _

theorem leaves_statement_update {Q : List Token → Prop}
    (h : update.Leaves before fun _ => Q) :
    statement.Leaves (.keyword .update :: before) fun _ => Q := by
  refine leaves_next.bind ?_
  rintro ⟨_, _⟩ _ ⟨⟩
  exact h.then_pure _

theorem leaves_statement_delete {Q : List Token → Prop}
    (h : delete.Leaves before fun _ => Q) :
    statement.Leaves (.keyword .delete :: before) fun _ => Q := by
  refine leaves_next.bind ?_
  rintro ⟨_, _⟩ _ ⟨⟩
  exact h.then_pure _

/-- A clause that is not there takes nothing. -/
theorem leaves_filterAfter_none {k : Keyword}
    (h : before.head? ≠ some (.keyword k)) :
    (filterAfter k).Leaves before fun _ left => left = before := by
  refine (leaves_eat_none h).bind ?_
  rintro found left ⟨rfl, rfl⟩
  exact leaves_pure rfl

theorem leaves_ttl_none (h : before.head? ≠ some (.keyword .using)) :
    ttl.Leaves before fun _ left => left = before := by
  refine (leaves_eat_none h).bind ?_
  rintro found left ⟨rfl, rfl⟩
  exact leaves_pure rfl

/-- A parser that has halted in front of another token than the keyword of a
clause stays there. -/
theorem Halts.leaves_filterAfter {k : Keyword} {left : List Token}
    (h : Halts P [] stops left) (hk : .keyword k ∉ stops) :
    (filterAfter k).Leaves left fun _ => Halts P [] stops := by
  refine (leaves_filterAfter_none (h.head_ne (by simp) hk)).imp ?_
  rintro _ _ rfl
  exact h

/-- A command whose statement ends in front of a token that does not end it is
refused. -/
theorem leaves_command {tokens : List Token}
    (h : statement.Leaves tokens fun _ left => P ∨ ∃ t ∈ stops, left.head? = some t)
    (hstops : .symbol .semicolon ∉ stops) : command.Leaves tokens fun _ _ => P := by
  refine h.bind ?_
  rintro s left (hP | ⟨t, ht, hhead⟩)
  · exact leaves_of _ _ hP
  have hsemicolon : left.head? ≠ some (.symbol .semicolon) := by
    rw [hhead]
    rintro ⟨⟩
    exact hstops ht
  have hfinish : finish.Leaves left fun _ _ => P := by
    have hdiscard :
        (discard (eatSymbol .semicolon) : Parser PUnit).Leaves left fun _ more =>
        more = left := by
      rw [discard_eq]
      refine (leaves_eat_none hsemicolon).bind ?_
      rintro _ _ ⟨-, rfl⟩
      exact leaves_pure rfl
    refine hdiscard.bind ?_
    rintro _ _ rfl
    refine leaves_get fun c hahead => ?_
    split
    · next hnil =>
      rw [Cursor.ahead, hnil] at hahead
      rw [← hahead] at hhead
      cases hhead
    · exact leaves_fail _ _ _ _
  refine hfinish.bind ?_
  rintro _ _ hP
  exact leaves_of _ _ hP

end EntityMapper.Parser

/-- What is known of the tokens of an accepted command is known of an accepted
text. -/
theorem EntityMapper.ParsedCommand.of_parse {text : String}
    {tokens stops : List Token} {P : Prop} {parsed : ParsedCommand}
    (hlexes : Token.Lexes text.toList tokens)
    (h : Parser.statement.Leaves tokens fun _ left => P ∨
      ∃ t ∈ stops, left.head? = some t) (hstops : .symbol .semicolon ∉ stops)
    (hparse : ParsedCommand.parse text = .ok parsed) : P := by
  obtain ⟨spanned, hread, htokens⟩ := Token.read_eq_ok_iff.mpr hlexes
  obtain ⟨tokens, d, hsame, hrun⟩ := ParsedCommand.exists_of_parse hparse
  obtain rfl := Except.ok.inj (hread.symm.trans hsame)
  exact Parser.leaves_command h hstops
    ⟨spanned, 0, text.utf8ByteSize⟩ parsed d htokens hrun
