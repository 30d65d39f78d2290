import EntityMapper.Proofs.Grammar.Counting
import EntityMapper.Proofs.Session.Commands
import EntityMapper.Proofs.Store.Containment
import EntityMapper.Session.ModelQuery

/-!
# Counting the records of a query

A count is a command of its own, with a select list of its own and its result in
the first cell. It counts the rows that pass the filter of its query, and these
are the rows that the query shows if nothing limits it. So a count gives the
number of records of the query without its limits. It does so for every query
that is accepted, but for one whose conditions end inside of a quote that the
order closes.
-/

namespace EntityMapper

namespace Store

variable {tables : Tables} {s : SelectStatement} {params : List Value}
  {table : Table}

/-- Without limits a query shows every row that passes its filter. -/
theorem length_chosen (s : SelectStatement) (hlimit : s.limit = none)
    (hoffset : s.offset = none) (params : List Value) (rows : List Row) :
    (chosen s params rows).length =
      (rows.filter (passes params s.filter)).length := by
  calc
    (chosen s params rows).length =
        (sortRows s.orderBy (rows.filter (passes params s.filter))).length := by
      rw [chosen, hlimit, hoffset, limited, Option.getD_none, List.drop_zero]
    _ = (rows.filter (passes params s.filter)).length :=
      (perm_sortRows ..).length_eq

/-- The result of a count, which has the number in its first cell. -/
def countResult (n : Nat) : ResultSet :=
  .ofRows [(∅ : Row).insert countColumn (.int (Int64.ofNat n))]

/-- A count gives the number of rows that pass its filter. -/
theorem select_count (htable : tables.get? s.table = some table)
    (hgroup : s.groupBy = []) (hcount : s.projection = .count) :
    select tables s params =
      .ok (countResult (table.rows.filter (passes params s.filter)).length) := by
  rw [select, hgroup, hcount, Tables.table, htable]
  rfl

end Store

namespace Session

open Effect Grammar

variable {s : Session LocalStore} {store after : LocalStore} {q : Intent}

/-- If a query is run without its limits, its count is run on the same rows. -/
theorem evaluate_count {g : Grammar} (h : q.Ungrouped) (hraws : RawsParse q.wheres)
    (hcut : g.CutApart q) {all : Command} (hselect : g.select q.unlimited = .ok all)
    {tables left : Tables} {result : ResultSet}
    (hall : Database.evaluate tables all = .ok (result, left)) :
    left = tables ∧ ∃ c, g.count q = .ok c ∧ Database.evaluate tables c =
        .ok (Store.countResult result.rows.length, tables) := by
  obtain ⟨statement, hparse, hexecute⟩ := Database.evaluate_eq_ok hall
  obtain ⟨filter, orderBy, allowFiltering, c, hstatement, hcount,
      hparams, hcounting⟩ :=
    parse_count h hraws hcut hselect hparse
  obtain rfl : statement = _ := hstatement
  rw [Store.execute] at hexecute
  cases hrows : Store.select tables ⟨columnOf q.table, .all, filter, [],
        orderBy, none, none, allowFiltering⟩ all.params with
  | error e => simp [hrows, Except.map] at hexecute
  | ok shown =>
    obtain ⟨rfl, rfl⟩ : shown = result ∧ tables = left := by
      simpa [hrows, Except.map] using hexecute
    obtain ⟨table, htable, rfl⟩ := Store.select_eq_ok (by simp) hrows
    have hcounted : Store.select tables ⟨columnOf q.table, .count, filter, [],
          [], none, none, g.permits q⟩ c.params =
        .ok (Store.countResult
          (table.rows.filter (Store.passes c.params filter)).length) :=
      Store.select_count htable rfl rfl
    refine ⟨rfl, c, hcount, ?_⟩
    rw [← hparams] at hcounting ⊢
    calc
      Database.evaluate tables c = .ok (Store.countResult
          (table.rows.filter (Store.passes c.params filter)).length, tables) := by
        rw [Database.evaluate_of_parse tables hcounting, Store.execute, hcounted]
        rfl
      _ = _ := by
        rw [ResultSet.ofRows, List.length_map, Store.length_chosen _ rfl rfl]

/-- The number that is counted is read from the first cell. -/
theorem countOf_countResult {n : Nat} (h : n < 2 ^ 63) :
    countOf (Store.countResult n) = .ok n := by
  have hcell : (Int64.ofNat n).toInt = n := Int64.toInt_ofNat_of_lt h
  change (if (Int64.ofNat n).toInt < 0 then Except.error (CountFault.negative _)
    else Except.ok (Int64.ofNat n).toInt.toNat) = Except.ok n
  rw [hcell, if_neg (Int.not_lt.mpr (Int.natCast_nonneg n)), Int.toNat_natCast]

theorem countRows_ok (hlocal : s.backend = LocalStore.backend) {q : ModelQuery}
    {c : Command} (hcount : s.grammar.count q.intent = .ok c) {n : Nat}
    (hn : n < 2 ^ 63) {tables : Tables}
    (hcounted : Database.evaluate store.database.tables c =
      .ok (Store.countResult n, tables)) :
    s.countRows q store = (.ok n, store.ran c tables) := by
  rw [countRows, bind_compiled hcount, bind_ok (run_ok hlocal hcounted),
    countOf_countResult hn]
  rfl

/-- **A count gives the number of records of its query**, run without its limits
and with every column, whatever the query selects, orders, limits and skips;
before the records are fetched and behind it. -/
theorem countRows_eq_length (s : Session LocalStore)
    (hlocal : s.backend = LocalStore.backend) (q : ModelQuery)
    (store after : LocalStore) (records : List Record) (h : q.intent.Ungrouped)
    (hraws : RawsParse q.intent.wheres) (hcut : s.grammar.CutApart q.intent)
    (hfetch : s.fetchAll ⟨q.entity, q.intent.unlimited, []⟩ store =
      (.ok records, after)) (hfew : records.length < 2 ^ 63) :
    (∃ counted, s.countRows q store = (.ok records.length, counted)) ∧
      ∃ counted, s.countRows q after = (.ok records.length, counted) := by
  obtain ⟨_, _, hrecords, hdone⟩ := bind_eq_ok.mp hfetch
  rw [if_pos (by simp)] at hdone
  obtain ⟨rfl, rfl⟩ := pure_eq_ok.mp hdone
  obtain ⟨rows, _, hrows, hhydrated⟩ := bind_eq_ok.mp hrecords
  obtain ⟨rfl, rfl⟩ := pure_eq_ok.mp hhydrated
  obtain ⟨all, _, hcommand, hran⟩ := bind_eq_ok.mp hrows
  obtain ⟨hcompiled, rfl⟩ := orThrow_eq_ok.mp hcommand
  obtain ⟨result, _, hrun, hresult⟩ := bind_eq_ok.mp hran
  obtain ⟨rfl, rfl⟩ := pure_eq_ok.mp hresult
  obtain ⟨tables, hall, rfl⟩ := (run_eq_ok hlocal).mp hrun
  -- The query is only logged, so the tables that its count is run on are the
  -- same behind it.
  obtain ⟨rfl, c, hcount, hcounted⟩ :=
    evaluate_count h hraws hcut (compiled_eq_ok.mp hcompiled) hall
  rw [List.length_map] at hfew ⊢
  exact ⟨⟨_, countRows_ok hlocal hcount hfew hcounted⟩,
    ⟨_, countRows_ok hlocal hcount hfew hcounted⟩⟩

/-! ## Counts of two notes -/

def noteEntity : EntityType := { name := "Note", table := "notes" }

/-- Two notes. -/
def notesStore : LocalStore where
  database := { tables := (∅ : Tables).insert "notes" ⟨["id"],
    [.ofList [("id", .int 1), ("text", .text "a")], .ofList [("id", .int 2)]]⟩ }

def notesSession : Session LocalStore := .new {} LocalStore.backend

/-- The last note with a text or a large number, from which all but one column
are left out. -/
def lastNote : ModelQuery :=
  (ModelQuery.new noteEntity).filter fun q =>
    ((((q.whereNotNull "text").orWhereRaw "id > 1").orderBy "id" .desc).withLimit
      1).select ["text"]

theorem exists_fetched (s : Session LocalStore) (q : ModelQuery)
    (store : LocalStore) {n : Nat}
    (h : (s.fetchAll q store).1.toOption.map List.length = some n) :
    ∃ records after, s.fetchAll q store = (.ok records, after) ∧
      records.length = n := by
  rcases hfetch : s.fetchAll q store with ⟨e | records, after⟩
  · simp [hfetch, Except.toOption] at h
  · exact ⟨records, after, rfl, by simpa [hfetch, Except.toOption] using h⟩

/-- The query is for one note, and its count is for both. -/
theorem countRows_eq_length_lastNote : ∃ records after,
    notesSession.fetchAll ⟨noteEntity, lastNote.intent.unlimited, []⟩ notesStore =
        (.ok records, after) ∧
      (∃ counted, notesSession.countRows lastNote notesStore =
        (.ok records.length, counted)) ∧
      ∃ counted, notesSession.countRows lastNote after =
        (.ok records.length, counted) := by
  have hraws : RawsParse lastNote.intent.wheres := by decide +kernel
  have hcut : notesSession.grammar.CutApart lastNote.intent := by decide +kernel
  obtain ⟨records, after, hfetch, hlength⟩ : ∃ records after,
      notesSession.fetchAll ⟨noteEntity, lastNote.intent.unlimited, []⟩ notesStore =
          (.ok records, after) ∧ records.length = 2 :=
    exists_fetched _ _ _ (by decide +kernel)
  exact ⟨records, after, hfetch, countRows_eq_length notesSession rfl lastNote
    notesStore after records ⟨rfl, rfl, rfl⟩ hraws hcut hfetch (by omega)⟩

/-- A query of which the condition opens a quote that its order closes. -/
def straddlingNotes : ModelQuery :=
  (ModelQuery.new noteEntity).filter fun q =>
    (q.whereNull "\"(").orderBy "(\" IS NULL ORDER BY id" .asc

/-- The query is accepted, and its count is refused. -/
theorem countRows_straddling :
    straddlingNotes.intent.Ungrouped ∧ RawsParse straddlingNotes.intent.wheres ∧
      (∃ records after, notesSession.fetchAll
          ⟨noteEntity, straddlingNotes.intent.unlimited, []⟩ notesStore =
          (.ok records, after) ∧ records.length = 2) ∧
      (notesSession.countRows straddlingNotes notesStore).1.isOk = false :=
  ⟨⟨rfl, rfl, rfl⟩, by decide, exists_fetched _ _ _ (by decide +kernel),
    by decide +kernel⟩

end Session

end EntityMapper
