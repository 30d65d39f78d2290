import EntityMapper.Proofs.Query.Folding
import EntityMapper.Proofs.Session.Commands
import EntityMapper.Session.ModelQuery

/-!
# Finding a record by its key

To find a record among those of a query, the key is put behind the predicates of
the query with an AND, and the text of a query is never bracketed. The AND binds
the key to the last alternative of the predicates: a row that passes an earlier
alternative is found whatever its key is. Without such an alternative the record
that is found comes from a stored row with the key that was asked for.

The rows that are found are followed from the stored ones in the order in which
a query is run: those that pass the filter, sorted, the first ones skipped, one
of them taken, and its columns selected.
-/

namespace EntityMapper

/-! ## Queries with a key behind their predicates -/

namespace Grammar

variable {g : Grammar} {q : Intent} {c : Command} {column : String} {key : Value}

/-- A query whose names are read back and whose predicates stand on their own,
raw text included. Its number of rows is left out: who looks for one record sets
it. -/
structure ReadsFrom (g : Grammar) (q : Intent) : Prop where
  joins : q.joins = []
  havings : q.havings = []
  table : g.ReadsBackTable q.table
  selection : ∀ name ∈ q.selection.names, g.ReadableSelected name
  wheres : ∀ p ∈ q.wheres, g.Stands p.condition
  groups : ∀ column ∈ q.groups, g.ReadablePath column
  orders : ∀ o ∈ q.orders, g.ReadablePath o.column
  offset : ∀ count ∈ q.offset, count.toNat < Nat.pow 2 63

/-- The predicate that asks for a key. -/
def keyPredicate (column : String) (key : Value) : Predicate :=
  ⟨.and, .basic column .eq key⟩

theorem stands_of_expresses {condition : Condition} (h : g.Expresses condition)
    (hraw : condition.rawText? = none) : g.Stands condition := ⟨h, by simp [hraw]⟩

theorem stands_keyPredicate (hcolumn : g.ReadablePath column) (key : Value) :
    g.Stands (keyPredicate column key).condition :=
  stands_of_expresses
    ⟨fun _ hname => List.mem_singleton.mp hname ▸ hcolumn, trivial⟩ rfl

theorem wheresTokens_concat {predicates : List Predicate}
    (hsome : predicates ≠ []) (p : Predicate) :
    g.wheresTokens (predicates ++ [p]) =
      g.wheresTokens predicates ++ p.connector.token ::
        g.conditionTokens p.condition := by
  have hmore (rest : List Predicate) : g.moreTokens (rest ++ [p]) =
      g.moreTokens rest ++ p.connector.token :: g.conditionTokens p.condition := by
    induction rest with
    | nil => simp [moreTokens]
    | cons r rest ih => simp [moreTokens, ih]
  obtain ⟨first, rest, rfl⟩ := List.exists_cons_of_ne_nil hsome
  simp [wheresTokens, hmore]

/-- How a key behind predicates narrows them: the filter passes the rows with
the key that pass an alternative, and besides these all that pass an alternative
before the last one. -/
structure KeyedFilter (g : Grammar) (predicates : List Predicate) (column : String)
    (key : Value) (f : Filter) (alternatives : List Filter) : Prop where
  reads : Parser.filter.Reads [.keyword .or, .keyword .and]
    (g.wheresTokens (predicates ++ [keyPredicate column key])) 0 f
    (0 + placeholderSum (predicates ++ [keyPredicate column key]))
  readAlternatives : g.alternativesAlone? predicates = some alternatives
  keyed_eq : ∀ row, Store.evaluate row
      (Predicate.allBindings (predicates ++ [keyPredicate column key])) f =
    (alternatives.any (Store.evaluate row (g.wheres predicates).params) &&
        Store.valuesEqual (Store.cell row (columnOf column)) key ||
      alternatives.dropLast.any (Store.evaluate row (g.wheres predicates).params))

theorem keyedFilter_of_stands {predicates : List Predicate}
    (h : ∀ p ∈ predicates, g.Stands p.condition)
    (hcolumn : g.ReadablePath column) (key : Value) :
    ∃ f alternatives, g.KeyedFilter predicates column key f alternatives := by
  have hkey := stands_keyPredicate hcolumn key
  have hterms (n : Nat) :
      Parser.Blocks 0 (g.conditionTokens (keyPredicate column key).condition)
        n [(keyPredicate column key).condition.terms n] (n + 1) :=
    ((hkey.expresses.conveys rfl).terms n).blocks
  have hvalue (row : Row) {bound : List Value} {n : Nat}
      (hbound : BoundAt bound n [key]) :
      Store.blockValues row bound [(keyPredicate column key).condition.terms n] =
        [Store.valuesEqual (Store.cell row (columnOf column)) key] :=
    congrArg (fun value => [value])
      (Store.all_terms (c := (keyPredicate column key).condition) rfl hbound)
  by_cases hsome : predicates = []
  · subst hsome
    refine ⟨Parser.filterOf [(keyPredicate column key).condition.terms 0],
      [.all []], ?_, rfl, fun row => ?_⟩
    · simpa [wheresTokens, moreTokens, placeholderSum, keyPredicate,
        Predicate.placeholderCount, Condition.placeholderCount]
        using Parser.reads_filter (hterms 0) (Nat.zero_le _)
    · have hbound : BoundAt [key] 0 [key] := ⟨[], [], rfl, rfl⟩
      have hbindings :
          Predicate.allBindings ([] ++ [keyPredicate column key]) = [key] := rfl
      rw [hbindings, Store.evaluate_filterOf_blockValues, hvalue row hbound]
      simp [Store.evaluate, Store.evaluateAll]
  · obtain ⟨blocks, values, hblocks⟩ := blocks_standing hsome h
    have hjoined := (hblocks 0).1.and ((hterms _).mono (Nat.zero_le _))
    have htokens := wheresTokens_concat (g := g) hsome (keyPredicate column key)
    have hbindings :
        Predicate.allBindings (predicates ++ [keyPredicate column key]) =
          Predicate.allBindings predicates ++ [key] := by
      simp [Predicate.allBindings, keyPredicate, Predicate.bindings,
        Condition.bindings]
    refine ⟨Parser.filterOf (Parser.glue (blocks 0) [(keyPredicate column
          key).condition.terms (0 + (Predicate.allBindings predicates).length)]),
      _, ?_, (alone_of_blocks hsome h (hblocks 0).1).2, fun row => ?_⟩
    · rw [htokens, ← length_allBindings, hbindings, List.length_append]
      exact Parser.reads_filter hjoined (by simp)
    · have hall : BoundAt (Predicate.allBindings predicates ++ [key]) 0
          (Predicate.allBindings predicates ++ [key]) := ⟨[], [], by simp, rfl⟩
      obtain ⟨hfirst, hsecond⟩ := Store.boundAt_append hall
      have hown : ((blocks 0).map Parser.conjunction).map
          (Store.evaluate row (g.wheres predicates).params) = values row := by
        rw [Store.map_evaluate_conjunction]
        exact (hblocks 0).2 row _ ⟨[], [], by simp, rfl⟩
      have hvalues := (hblocks 0).2 row _ hfirst
      have hglue := Store.evaluate_glue false
        (Parser.Chain.values_ne_nil (hblocks 0).1) (hvalue row hsecond)
      rw [Bool.not_false, Bool.true_and, hvalues] at hglue
      rw [hbindings, any_eq_any_map, any_dropLast, hown]
      exact hglue

/-- Predicates without raw text and without an OR between them. -/
def Conjunctive (predicates : List Predicate) : Prop :=
  (∀ p ∈ predicates, p.condition.rawText? = none) ∧
    ∀ p ∈ predicates.tail, p.connector = .and

/-- They have no alternative but the last one. -/
theorem dropLast_alternatives {predicates : List Predicate}
    {alternatives : List Filter} (h : ∀ p ∈ predicates, g.Stands p.condition)
    (hand : Conjunctive predicates)
    (halternatives : g.alternativesAlone? predicates = some alternatives) :
    alternatives.dropLast = [] := by
  cases predicates with
  | nil =>
    obtain rfl : [Filter.all []] = alternatives := Option.some.inj halternatives
    rfl
  | cons p rest =>
    have hexpressed : ∀ r ∈ p :: rest, g.Expresses r.condition ∧
        r.condition.rawText? = none :=
      fun r hr => ⟨(h r hr).expresses, hand.1 r hr⟩
    have hblocks := (blocks_whereBlocks (List.cons_ne_nil p rest) hexpressed 0).mono
      (Nat.zero_le (g.wheresTokens (p :: rest)).length)
    have hwhole : cutBefore (fun x => x.2.startsBlock) (numbered 0 (p :: rest)) =
        [numbered 0 (p :: rest)] := by
      refine cutBefore_whole fun x hx => ?_
      have hmem : x.2 ∈ rest := by
        rw [← map_snd_numbered (0 + p.placeholderCount) rest]
        exact List.mem_map_of_mem hx
      rw [Predicate.startsBlock, hand.2 x.2 hmem]
      rfl
    rw [(alone_of_blocks (List.cons_ne_nil p rest) h hblocks).2, whereBlocks,
      hwhole] at halternatives
    obtain rfl := Option.some.inj halternatives
    rfl

/-- A query for the record of a key. -/
def keyedQuery (q : Intent) (column : String) (key : Value) : Intent :=
  (q.whereEq column key).withLimit 1

/-- A query for the record of a key is read back with the filter of its
predicates and the key. -/
theorem parse_keyedQuery (h : g.ReadsFrom q) (hcolumn : g.ReadablePath column)
    {f : Filter} {alternatives : List Filter}
    (hfilter : g.KeyedFilter q.wheres column key f alternatives)
    (hc : g.select (keyedQuery q column key) = .ok c) :
    ParsedCommand.parse c.text = .ok ⟨.select
      { g.selectImage (selectionImage q.selection) (keyedQuery q column key) with
        filter := some f }, c.params.length⟩ := by
  have hstands : ∀ p ∈ (keyedQuery q column key).wheres, g.Stands p.condition := by
    intro p hp
    rcases List.mem_append.mp hp with hp | hp
    · exact h.wheres p hp
    · exact List.mem_singleton.mp hp ▸ stands_keyPredicate hcolumn key
  have hlexes := lexes_standing hstands
  have hsome : g.wheresTokens (keyedQuery q column key).wheres ≠ [] := by
    obtain ⟨p, rest, hwheres⟩ :=
      List.exists_cons_of_ne_nil (l := (keyedQuery q column key).wheres) (by
        simp [keyedQuery, Intent.whereEq, Intent.whereOp, Intent.addWhere,
          Intent.withLimit])
    rw [hwheres] at hstands ⊢
    exact wheresTokens_ne_nil (hstands p (List.mem_cons_self ..)).tokens_ne_nil rest
  have hwritten := written_filter joint_where hlexes hfilter.reads
  refine parse_select_written (q := keyedQuery q column key) h.joins h.havings
    h.table (written_selection h.selection) ?_ h.groups h.orders
    (fun count hcount => ?_) h.offset hc
  · rw [Fragment.text_headed (isEmpty_of_lexes hlexes hsome),
      String.toList_append]
    exact hwritten
  · obtain rfl := Option.some.inj hcount
    decide

end Grammar

/-! ## The record that is found -/

namespace Session

variable {s : Session LocalStore} {store after : LocalStore} {q : ModelQuery}
  {key : Value} {record : Record}

open Effect Grammar

/-- Without relations to load, the record that is found is the first row of its
query. -/
theorem find_apply (s : Session LocalStore) (heager : q.eager = [])
    (key : Value) (store : LocalStore) :
    s.find q key store =
      ((s.selectRows (keyedQuery q.intent q.entity.primaryKey key) store).1.map
        fun rows =>
          rows.head?.map (Record.hydrate q.entity),
        (s.selectRows (keyedQuery q.intent q.entity.primaryKey key) store).2) := by
  rcases hselect :
      s.selectRows (keyedQuery q.intent q.entity.primaryKey key) store with
    ⟨e | rows, after⟩
  · exact bind_error (bind_error (bind_error hselect))
  · have hrecords : s.selectRecords q.entity
          (keyedQuery q.intent q.entity.primaryKey key) store =
        (.ok (rows.map (Record.hydrate q.entity)), after) := bind_ok hselect
    have hfetch :
        s.fetchAll ((q.withKey key).filter fun intent => intent.withLimit 1) store =
          (.ok (rows.map (Record.hydrate q.entity)), after) := by
      refine (bind_ok hrecords).trans ?_
      rw [if_pos (by simp [ModelQuery.filter, ModelQuery.withKey, heager])]
      rfl
    rw [find, fetchFirst, bind_ok hfetch, pure_apply, List.head?_map]
    rfl

/-- The rows of a query for the record of a key come from stored rows that pass
the filter of the query and the key. -/
theorem mem_rows_keyedQuery (hlocal : s.backend = LocalStore.backend)
    {q : Intent} {column : String} (h : s.grammar.ReadsFrom q)
    (hcolumn : s.grammar.ReadablePath column) {f : Filter}
    {alternatives : List Filter}
    (hfilter : s.grammar.KeyedFilter q.wheres column key f alternatives)
    {rows : List Row}
    (hrows : s.selectRows (keyedQuery q column key) store = (.ok rows, after))
    {row : Row} (hrow : row ∈ rows) :
    ∃ t, store.database.tables.get? (columnOf q.table) = some t ∧
      ∃ stored ∈ t.rows, row = Store.shownRow (selectionImage q.selection) stored ∧
        Store.evaluate stored
            (Predicate.allBindings (q.wheres ++ [keyPredicate column key])) f =
          true := by
  obtain ⟨c, _, hcommand, hran⟩ := bind_eq_ok.mp hrows
  obtain ⟨hcompiled, rfl⟩ := orThrow_eq_ok.mp hcommand
  have hc := compiled_eq_ok.mp hcompiled
  have hparse := parse_keyedQuery h hcolumn hfilter hc
  obtain ⟨result, _, hrun, hresult⟩ := bind_eq_ok.mp hran
  obtain ⟨rfl, rfl⟩ := pure_eq_ok.mp hresult
  obtain ⟨tables, hevaluate, -⟩ := (run_eq_ok hlocal).mp hrun
  rw [Database.evaluate_of_parse _ hparse, Store.execute] at hevaluate
  have hparams : c.params =
      Predicate.allBindings (q.wheres ++ [keyPredicate column key]) := by
    rcases select_eq_ok hc with ⟨-, -, -, -, rfl⟩ | ⟨-, rfl⟩
    · simp [Fragment.command, keyedQuery, keyPredicate, Intent.withLimit,
        Intent.whereEq, Intent.whereOp, Intent.addWhere]
    · have hhavings := h.havings
      simp [Fragment.command, keyedQuery, keyPredicate, Intent.withLimit,
        Intent.whereEq, Intent.whereOp, Intent.addWhere, hhavings,
        Predicate.allBindings]
  have hcount : selectionImage q.selection ≠ .count := by
    unfold selectionImage
    split <;> simp
  cases hselect : Store.select store.database.tables
      { s.grammar.selectImage (selectionImage q.selection)
          (keyedQuery q column key) with filter := some f } c.params with
  | error e => simp [hselect, Except.map] at hevaluate
  | ok shown =>
    obtain ⟨rfl, -⟩ : shown = result ∧ store.database.tables = tables := by
      simpa [hselect, Except.map] using hevaluate
    obtain ⟨t, htable, rfl⟩ := Store.select_eq_ok hcount hselect
    obtain ⟨stored, hchosen, rfl⟩ := List.mem_map.mp hrow
    obtain ⟨hstored, hpasses⟩ := Store.mem_chosen hchosen
    rw [hparams] at hpasses
    exact ⟨t, htable, stored, hstored, rfl, hpasses⟩

/-- A record that is found comes from a stored row that passes an alternative of
the query before the last one, or that passes one and has the key that was asked
for. It has the key if the predicates are joined by AND only. -/
theorem find_from_row (s : Session LocalStore)
    (hlocal : s.backend = LocalStore.backend) (q : ModelQuery) (key : Value)
    (store after : LocalStore) (record : Record) (h : s.grammar.ReadsFrom q.intent)
    (hkey : s.grammar.ReadablePath q.entity.primaryKey) (heager : q.eager = [])
    (hfind : s.find q key store = (.ok (some record), after)) :
    ∃ t alternatives, store.database.tables.get? (columnOf q.intent.table) =
        some t ∧ s.grammar.alternativesAlone? q.intent.wheres = some alternatives ∧
      ∃ row ∈ t.rows, record = .hydrate q.entity
          (Store.shownRow (selectionImage q.intent.selection) row) ∧
        (alternatives.dropLast.any
            (Store.evaluate row (s.grammar.wheres q.intent.wheres).params) = true ∨
          alternatives.any (Store.evaluate row
              (s.grammar.wheres q.intent.wheres).params) = true ∧
            Store.valuesEqual (Store.cell row (columnOf q.entity.primaryKey)) key =
              true) ∧
        (Conjunctive q.intent.wheres →
          Store.valuesEqual (Store.cell row (columnOf q.entity.primaryKey)) key =
            true) := by
  obtain ⟨f, alternatives, hfilter⟩ := keyedFilter_of_stands h.wheres hkey key
  rw [find_apply s heager] at hfind
  rcases hselect :
      s.selectRows (keyedQuery q.intent q.entity.primaryKey key) store with
    ⟨e | rows, next⟩
  · rw [hselect] at hfind
    cases hfind
  obtain ⟨shown, hshown, rfl⟩ : ∃ row, rows.head? = some row ∧
      .hydrate q.entity row = record := by
    simpa [hselect, Except.map] using And.left (Prod.mk.inj hfind)
  obtain ⟨t, htable, row, hrow, rfl, hpasses⟩ :=
    mem_rows_keyedQuery hlocal h hkey hfilter hselect (List.mem_of_mem_head? hshown)
  rw [hfilter.keyed_eq, Bool.or_eq_true, Bool.and_eq_true] at hpasses
  refine ⟨t, alternatives, htable, hfilter.readAlternatives, row, hrow, rfl,
    hpasses.symm, ?_⟩
  intro hand
  rw [dropLast_alternatives h.wheres hand hfilter.readAlternatives] at hpasses
  rcases hpasses with ⟨-, hequal⟩ | hearly
  · exact hequal
  · simp at hearly

/-! ## A key behind an OR -/

def userEntity : EntityType := { name := "User", table := "users" }

/-- Two users. -/
def usersStore : LocalStore where
  database := { tables := (∅ : Tables).insert "users" ⟨["id"],
    [.ofList [("id", .int 1), ("name", .text "ada")],
      .ofList [("id", .int 2), ("name", .text "bob")]]⟩ }

def usersSession : Session LocalStore := .new {} LocalStore.backend

/-- A query for the users of either name. -/
def adaOrBob : ModelQuery :=
  (ModelQuery.new userEntity).filter fun q =>
    (q.whereEq "name" (.text "ada")).orWhereEq "name" (.text "bob")

theorem readsFrom_adaOrBob : usersSession.grammar.ReadsFrom adaOrBob.intent where
  joins := rfl
  havings := rfl
  table := Grammar.ReadableTable.readsBack (by decide)
  selection := by decide
  wheres p hp := by
    have hexpresses : ∀ p ∈ adaOrBob.intent.wheres,
        usersSession.grammar.Expresses p.condition ∧
          p.condition.rawText? = none := by decide
    exact stands_of_expresses (hexpresses p hp).1 (hexpresses p hp).2
  groups := by decide
  orders := by decide
  offset := by
    simp [adaOrBob, ModelQuery.filter, ModelQuery.new, Intent.new, Intent.whereEq,
      Intent.orWhereEq, Intent.whereOp, Intent.orWhereOp, Intent.addWhere]

/-- The query for the second user among them selects the row of the first. -/
theorem selectRows_adaOrBob : ∃ after, usersSession.selectRows
    (keyedQuery adaOrBob.intent adaOrBob.entity.primaryKey (.int 2)) usersStore =
      (.ok [.ofList [("id", .int 1), ("name", .text "ada")]], after) := by
  have hreads : usersSession.grammar.ReadsQuery
      (keyedQuery adaOrBob.intent adaOrBob.entity.primaryKey (.int 2)) :=
    ⟨rfl, rfl, readsFrom_adaOrBob.table, Grammar.conveys_expressed (by decide),
      by decide, by decide, by simp [keyedQuery, Intent.withLimit],
      readsFrom_adaOrBob.offset⟩
  have hlocal : usersSession.backend = LocalStore.backend := rfl
  have hlist :
      Grammar.WrittenList (usersSession.grammar.selection .all).toList .all :=
    Grammar.written_selection (List.forall_mem_nil _)
  have htable : usersStore.database.tables.get? (columnOf "users") = some ⟨["id"],
      [.ofList [("id", .int 1), ("name", .text "ada")],
        .ofList [("id", .int 2), ("name", .text "bob")]]⟩ := rfl
  obtain ⟨c, hselect⟩ :=
    selectRows_ok hlocal hreads rfl rfl rfl hlist (by simp) htable
  exact ⟨_, hselect⟩

/-- The first user, as it is loaded. -/
def ada : Record :=
  .hydrate userEntity (.ofList [("id", .int 1), ("name", .text "ada")])

theorem find_ada : ∃ after, usersSession.find adaOrBob (.int 2) usersStore =
    (.ok (some ada), after) := by
  obtain ⟨after, hselect⟩ := selectRows_adaOrBob
  refine ⟨after, ?_⟩
  rw [find_apply usersSession rfl, hselect]
  rfl

theorem find_from_row_ada : ∃ after, usersSession.find adaOrBob
      (.int 2) usersStore = (.ok (some ada), after) ∧
    ∃ t alternatives,
      usersStore.database.tables.get? (columnOf adaOrBob.intent.table) = some t ∧
        usersSession.grammar.alternativesAlone? adaOrBob.intent.wheres =
          some alternatives ∧
        ∃ row ∈ t.rows, ada = .hydrate adaOrBob.entity
            (Store.shownRow (selectionImage adaOrBob.intent.selection) row) ∧
          (alternatives.dropLast.any (Store.evaluate row
              (usersSession.grammar.wheres adaOrBob.intent.wheres).params) = true ∨
            alternatives.any (Store.evaluate row (usersSession.grammar.wheres
                  adaOrBob.intent.wheres).params) = true ∧
              Store.valuesEqual (Store.cell row
                  (columnOf adaOrBob.entity.primaryKey)) (.int 2) = true) ∧
          (Conjunctive adaOrBob.intent.wheres →
            Store.valuesEqual (Store.cell row (columnOf adaOrBob.entity.primaryKey))
                (.int 2) = true) := by
  obtain ⟨after, hfind⟩ := find_ada
  have hkey : usersSession.grammar.ReadablePath adaOrBob.entity.primaryKey := by
    decide
  exact ⟨after, hfind, find_from_row usersSession rfl adaOrBob
    (.int 2) usersStore after ada readsFrom_adaOrBob hkey rfl hfind⟩

/-- The first user is found where the second one was asked for, although the
second one is among the users of the query. -/
theorem find_other_record : (∃ after,
      usersSession.find adaOrBob (.int 2) usersStore = (.ok (some ada), after)) ∧
    (∀ row, ada = .hydrate userEntity row →
      Store.valuesEqual (Store.cell row "id") (.int 2) = false) ∧
    (usersStore.database.rows "users").toOption.map
        (List.filter (selects adaOrBob.intent.wheres)) =
      some [.ofList [("id", .int 1), ("name", .text "ada")],
        .ofList [("id", .int 2), ("name", .text "bob")]] := by
  refine ⟨find_ada, fun row hrow => ?_, rfl⟩
  obtain rfl : NameMap.ofList [("id", .int 1), ("name", .text "ada")] = row :=
    congrArg Record.attributes hrow
  rfl

end Session

end EntityMapper
