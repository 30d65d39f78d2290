import EntityMapper.Proofs.Grammar.Refused
import EntityMapper.Proofs.Session.PivotChanges
import EntityMapper.Proofs.Session.ReadOnly
import EntityMapper.Proofs.Store.Containment

/-!
# Rows of other parents

The operations on a many-to-many relation of one parent leave the rows of other
parents alone: they are the same rows, in the same order. A deletion and an
update ask for the parent's key, and an insertion carries it. But an insertion
gives way to the values it is given: the equalities of the relation and the
extra columns are written over the two keys, so they must not put another key in
the place of the parent's. And the pivot table has to be keyed by the column of
the parent's key, or an insertion finds the row of another parent in the place
of its own.

Names need not be read back. A command with a name that is not is refused,
unless the name is one of a function call, which is passed on as it is and can
say anything.
-/

namespace EntityMapper

theorem filter_map_of_forall {α : Type} {write : α → α}
    {test : α → Bool} {xs : List α}
    (h : ∀ x ∈ xs, write x = x ∨ test x = false ∧ test (write x) = false) :
    (xs.map write).filter test = xs.filter test := by
  induction xs with
  | nil => rfl
  | cons x rest ih =>
    obtain ⟨hx, hrest⟩ := List.forall_mem_cons.mp h
    rw [List.map_cons, List.filter_cons, List.filter_cons, ih hrest]
    rcases hx with hsame | ⟨hbefore, hafter⟩
    · rw [hsame]
    · simp [hbefore, hafter]

namespace Store

variable {column : String} {key : Value} {row other : Row}

theorem holdsKey_of_get_eq (h : row.get? column = other.get? column) :
    holdsKey column key row = holdsKey column key other := by
  rw [holdsKey, cell, h]
  rfl

/-- Rows that agree in a column hold the same keys there. -/
theorem holdsKey_of_get_beq (h : (row.get? column == other.get? column) = true) :
    holdsKey column key row = holdsKey column key other := by
  rw [holdsKey, holdsKey, cell, cell]
  cases hrow : row.get? column with
  | none =>
    cases hother : other.get? column with
    | none => rfl
    | some value => simp [hrow, hother] at h
  | some value =>
    cases hother : other.get? column with
    | none => simp [hrow, hother] at h
    | some stored =>
      rw [hrow, hother] at h
      exact valuesEqual_congr_left h key

end Store

namespace Pivot

open Session Store
open Grammar (PlainTests)

/-! ## Rows and tables -/

/-- The column of the pivot table that holds the parent's key. -/
def ownerColumn (p : Pivot) : String := columnOf p.table.foreignPivotKey

/-- Whether a row holds another key than the parent's. -/
def ofOthers (p : Pivot) (key : Value) (row : Row) : Bool :=
  !holdsKey p.ownerColumn key row

/-- Pairs of columns that are no function calls, of which none puts another key
than the parent's into its column. -/
def Keeps (p : Pivot) (key : Value) (pairs : Pairs) : Prop :=
  ∀ pair ∈ pairs, NoCall pair.1 ∧
    (columnOf pair.1 = p.ownerColumn → valuesEqual pair.2 key = true)

/-- A relation whose commands stay with the rows of its parent. -/
structure Confined (p : Pivot) (key : Value) : Prop where
  parentKey : p.parentKey? = some key
  self : valuesEqual key key = true
  foreign : NoCall p.table.foreignPivotKey
  related : NoCall p.table.relatedPivotKey
  apart : columnOf p.table.relatedPivotKey ≠ p.ownerColumn
  wheres : p.Keeps key p.table.pivotWheres

/-- What becomes of the tables: if the pivot table is keyed by the column of the
parent's key, then it still is, by the same columns, and the rows of others are
the same. -/
def Spares (p : Pivot) (key : Value) (before after : Tables) : Prop :=
  ∀ t, before.get? (columnOf p.table.table) = some t → p.ownerColumn ∈ t.keys →
    ∃ left, after.get? (columnOf p.table.table) = some left ∧ left.keys = t.keys ∧
      left.rows.filter (p.ofOthers key) = t.rows.filter (p.ofOthers key)

variable {p : Pivot} {key id : Value} {extra : Pairs}
  {tables next after : Tables} {row : Row}

theorem spares_refl (p : Pivot) (key : Value) (tables : Tables) :
    p.Spares key tables tables :=
  fun t htable _ => ⟨t, htable, rfl, rfl⟩

theorem Spares.trans (h : p.Spares key tables next)
    (hnext : p.Spares key next after) : p.Spares key tables after := by
  intro t htable hkeyed
  obtain ⟨middle, hmiddle, hkeys, hrows⟩ := h t htable hkeyed
  obtain ⟨left, hleft, hkeys', hrows'⟩ := hnext middle hmiddle (hkeys ▸ hkeyed)
  exact ⟨left, hleft, hkeys'.trans hkeys, hrows'.trans hrows⟩

/-- A write to the pivot table spares the rows of others if it does so on the
table. -/
theorem spares_write {run : Table → Except StoreError (ResultSet × Table)}
    {result : ResultSet}
    (hwrite : write tables (columnOf p.table.table) run = .ok (result, after))
    (hrun : ∀ t left, run t = .ok (result, left) → p.ownerColumn ∈ t.keys →
      left.keys = t.keys ∧
        left.rows.filter (p.ofOthers key) = t.rows.filter (p.ofOthers key)) :
    p.Spares key tables after := by
  intro t htable hkeyed
  obtain ⟨left, hleft, rfl⟩ := write_eq_ok htable hwrite
  exact ⟨left, NameMap.get?_insert_self .., hrun t left hleft hkeyed⟩

/-! ## Insertions -/

/-- No value of an inserted row puts another key in the place of the parent's. -/
theorem Confined.keeps_pivotValues (h : p.Confined key) (hextra : p.Keeps key extra)
    (id : Value) : p.Keeps key (pivotValues p key id extra) := by
  intro pair hpair
  rcases mem_pivotValues hpair with rfl | rfl | hwhere | hmem
  · exact ⟨h.foreign, fun _ => h.self⟩
  · exact ⟨h.related, fun hsame => absurd hsame h.apart⟩
  · exact h.wheres pair hwhere
  · exact hextra pair hmem

/-- A row that takes over pairs holds in the parent's column what it did, or the
parent's key. -/
theorem Keeps.get?_overwritten (h : p.Keeps key extra) (row : Row) :
    (overwritten row extra).get? p.ownerColumn = row.get? p.ownerColumn ∨
      p.ofOthers key (overwritten row extra) = false := by
  refine (NameMap.get?_extend_cases row _ p.ownerColumn).imp_right ?_
  rintro ⟨value, hmem, hvalue⟩
  obtain ⟨pair, hpair, heq⟩ := List.mem_map.mp hmem
  obtain ⟨hcolumn, rfl⟩ := Prod.mk.inj heq
  rw [ofOthers, holdsKey, cell, overwritten, hvalue]
  simpa using (h pair hpair).2 hcolumn

/-- An insertion into a table that is keyed by the parent's column spares the
rows of others. -/
theorem filter_upsert (h : p.Keeps key extra) {name : String} {t left : Table}
    (hkeyed : p.ownerColumn ∈ t.keys)
    (hupsert : t.upsert name
        (.ofList (extra.map fun pair => (columnOf pair.1, pair.2))) = .ok left) :
    left.keys = t.keys ∧
      left.rows.filter (p.ofOthers key) = t.rows.filter (p.ofOthers key) := by
  unfold Table.upsert at hupsert
  split at hupsert
  · next values hvalues =>
    obtain rfl := Except.ok.inj hupsert
    -- The table has a key for the row only if the row has a value in the
    -- parent's column.
    have hrow : p.ofOthers key
          (.ofList (extra.map fun pair => (columnOf pair.1, pair.2))) = false := by
      obtain ⟨value, hvalue, -⟩ := Table.filled_of_keyOf hvalues _ hkeyed
      rcases h.get?_overwritten ∅ with hnone | howned
      · cases hvalue.symm.trans hnone
      · exact howned
    refine ⟨rfl, Table.filter_upsertRows hrow fun old _ hkey => ?_⟩
    rw [Table.hasKey_eq_agree hvalues] at hkey
    have hagree := Table.agree_iff.mp hkey _ hkeyed
    obtain ⟨value, hvalue, -⟩ := Table.filled_of_keyOf hvalues _ hkeyed
    have hextend := NameMap.get?_extend old (NameMap.wellFormed_ofList
        (extra.map fun pair => (columnOf pair.1, pair.2))) p.ownerColumn
    rw [hvalue, Option.some_or, ← hvalue] at hextend
    rw [ofOthers] at hrow
    rw [ofOthers, ofOthers, holdsKey_of_get_beq hagree, holdsKey_of_get_eq hextend]
    exact ⟨hrow, hrow⟩
  · cases hupsert

/-! ## Updates and deletions -/

theorem plainTests_intent (h : p.Confined key) {more : List Predicate}
    (hmore : PlainTests more) : PlainTests ((p.intent key).wheres ++ more) := by
  rw [intent_eq]
  intro w hw
  rcases List.mem_append.mp hw with hown | hw
  · rcases List.mem_cons.mp hown with rfl | hown
    · exact ⟨rfl, _, h.foreign, .basic ..⟩
    · obtain ⟨pair, hpair, rfl⟩ := List.mem_map.mp hown
      exact ⟨rfl, _, (h.wheres pair hpair).1, .basic ..⟩
  · exact hmore w hw

/-- The intent asks for the parent's key, whatever else it asks for. -/
theorem not_ofOthers_of_selects (h : p.Confined key) {more : List Predicate}
    (hmore : PlainTests more)
    (hrow : selects ((p.intent key).wheres ++ more) row = true) :
    p.ofOthers key row = false := by
  rw [selects_and fun w hw => (plainTests_intent h hmore w hw).1] at hrow
  have hown : (⟨.and, .basic p.table.foreignPivotKey .eq key⟩ : Predicate) ∈
      (p.intent key).wheres ++ more := by
    rw [intent_eq]
    exact List.mem_cons_self ..
  have hkey : holdsKey p.ownerColumn key row = true :=
    List.all_eq_true.mp hrow _ hown
  rw [ofOthers, hkey]
  rfl

/-- A write to rows of the parent spares those of others, if it leaves the
parent its rows. -/
theorem filter_written {q : Intent} {r : Request} {t : Table} {on : Row → Bool}
    (hon : ∀ row, on row = true → p.ofOthers key row = false)
    (hassigned : p.Keeps key r.assigned) :
    (written (r.bindings q) t r on).filter (p.ofOthers key) =
      t.rows.filter (p.ofOthers key) := by
  have hkept : (t.rows.filter fun row => !on row).filter (p.ofOthers key) =
      t.rows.filter (p.ofOthers key) := by
    rw [List.filter_filter]
    refine List.filter_congr fun row _ => ?_
    cases hrow : on row with
    | true => rw [hon row hrow, Bool.false_and]
    | false => rw [Bool.not_false, Bool.and_true]
  cases r with
  | update values =>
    refine filter_map_of_forall fun row _ => ?_
    cases hrow : on row with
    | false => exact .inl (if_neg Bool.false_ne_true)
    | true =>
      have hbefore := hon row hrow
      simp only [Request.bindings, List.append_assoc, assign_params, if_pos]
      refine .inr ⟨hbefore, ?_⟩
      rcases Keeps.get?_overwritten hassigned row with hsame | howned
      · exact (congrArg not (holdsKey_of_get_eq hsame)).trans hbefore
      · exact howned
  | delete => exact hkept
  | select => exact hkept
  | count => exact hkept
  | insert values => exact hkept

/-! ## Effects -/

/-- An effect that spares the rows of other parents, whether it fails or not. -/
def SparesOthers (p : Pivot) (key : Value) {α : Type} (x : Effect LocalStore α) :
    Prop :=
  ∀ store, p.Spares key store.database.tables (x store).2.database.tables

section Effects

variable {α β : Type} {x : Effect LocalStore α} {f : α → Effect LocalStore β}

theorem sparesOthers_pure (a : α) :
    p.SparesOthers key (pure a : Effect LocalStore α) :=
  fun _ => spares_refl _ _ _

theorem SparesOthers.bind (hx : p.SparesOthers key x)
    (hf : ∀ a, p.SparesOthers key (f a)) : p.SparesOthers key (x >>= f) := by
  intro store
  have hfirst := hx store
  rw [Effect.bind_apply]
  rcases hrun : x store with ⟨_ | a, next⟩
  · rwa [hrun] at hfirst
  · rw [hrun] at hfirst
    exact hfirst.trans (hf a next)

theorem SparesOthers.discard (hx : p.SparesOthers key x) :
    p.SparesOthers key (discard x : Effect LocalStore PUnit) := by
  intro store
  rw [Effect.discard_apply]
  exact hx store

theorem sparesOthers_of_reads {property : α → Prop} (h : Effect.Reads x property) :
    p.SparesOthers key x := by
  intro store
  rw [h.run]
  exact spares_refl _ _ _

theorem sparesOthers_compiled {result : Except CompileError α}
    (hf : ∀ a, result = .ok a → p.SparesOthers key (f a)) :
    p.SparesOthers key (Effect.orThrow (compiled result) >>= f) := by
  intro store
  cases hresult : result with
  | error e => exact spares_refl _ _ _
  | ok a =>
    rw [Effect.bind_compiled rfl]
    exact hf a hresult store

variable {s : Session LocalStore} {c : Command} {operation : Operation}

theorem sparesOthers_run (hlocal : s.backend = LocalStore.backend)
    (h : ∀ tables result after, Database.evaluate tables c = .ok (result, after) →
      p.Spares key tables after) : p.SparesOthers key (s.run operation c) := by
  intro store
  cases hevaluate : Database.evaluate store.database.tables c with
  | error e =>
    rw [run_error hlocal hevaluate]
    exact spares_refl _ _ _
  | ok made =>
    rw [run_ok hlocal hevaluate]
    exact h _ _ _ hevaluate

end Effects

end Pivot

namespace Session

open Pivot Store
open Grammar (PlainTests)

variable {s : Session LocalStore} {p : Pivot} {key id : Value} {extra : Pairs}
  {ids : List Value}

/-! ## Single commands -/

theorem sparesOthers_insertPivot (hlocal : s.backend = LocalStore.backend)
    (h : p.Confined key) (hextra : p.Keeps key extra) (id : Value) :
    p.SparesOthers key (s.insertPivot p key id extra) := by
  have hkeeps := h.keeps_pivotValues hextra id
  refine sparesOthers_compiled
    fun c hc => SparesOthers.discard (sparesOthers_run hlocal ?_)
  intro tables result after hevaluate
  obtain ⟨_, hparse, -⟩ := Database.evaluate_eq_ok hevaluate
  obtain ⟨(htable : s.grammar.ReadsBackTable p.table.table), hnames⟩ :=
    Grammar.readsBack_of_parse_insert
      (fun pair hpair => (hkeeps pair hpair).1) hc hparse
  obtain ⟨written, hwritten, hwrite⟩ :=
    Grammar.evaluate_insert htable (pivotValues_ne_nil p key id extra) hnames
  obtain rfl := Except.ok.inj (hc.symm.trans hwritten)
  rw [hwrite] at hevaluate
  refine spares_write hevaluate fun t left hleft hkeyed => ?_
  cases hupsert : t.upsert (columnOf p.table.table) (.ofList
      ((pivotValues p key id extra).map fun pair => (columnOf pair.1, pair.2))) with
  | error e =>
    rw [hupsert] at hleft
    cases hleft
  | ok made =>
    rw [hupsert] at hleft
    obtain rfl : made = left := congrArg Prod.snd (Except.ok.inj hleft)
    exact filter_upsert hkeeps hkeyed hupsert

/-- A write to rows of the parent, which may ask for more than its key. -/
theorem sparesOthers_pivotWrite (hlocal : s.backend = LocalStore.backend)
    (h : p.Confined key) {q : Intent} {more : List Predicate}
    (hq : q = { p.intent key with wheres := (p.intent key).wheres ++ more })
    (hmore : PlainTests more) {r : Request} (hwhole : WholeWrite q r)
    (hassigned : p.Keeps key r.assigned) {c : Command}
    (hc : s.grammar.compile q r = .ok c) (operation : Operation) :
    p.SparesOthers key (s.run operation c) := by
  have htable : q.table = p.table.table := by rw [hq, intent_eq]
  have hwheres : q.wheres = (p.intent key).wheres ++ more := by rw [hq]
  have hfree : q.ifConditions = [] := by rw [hq, intent_eq]
  have hplain : Grammar.PlainWrite q r := by
    refine ⟨?_, hwheres ▸ plainTests_intent h hmore, hfree,
      fun pair hpair => (hassigned pair hpair).1⟩
    rw [hwheres, intent_eq]
    exact List.cons_ne_nil _ _
  refine sparesOthers_run hlocal fun tables result after hevaluate => ?_
  obtain ⟨_, hparse, -⟩ := Database.evaluate_eq_ok hevaluate
  have hreads := Grammar.readsWrite_of_parse hwhole hplain hc hparse
  obtain ⟨written, hwritten, hwrite⟩ := Grammar.evaluate_write hwhole hreads hfree
  obtain rfl := Except.ok.inj (hc.symm.trans hwritten)
  rw [hwrite, htable, hwheres] at hevaluate
  refine spares_write hevaluate fun t left hleft _ => ?_
  obtain rfl := congrArg Prod.snd (Except.ok.inj hleft)
  exact ⟨rfl,
    filter_written (fun row hrow => not_ofOthers_of_selects h hmore hrow) hassigned⟩

theorem sparesOthers_deletePivotRows (hlocal : s.backend = LocalStore.backend)
    (h : p.Confined key) {q : Intent} {more : List Predicate}
    (hq : q = { p.intent key with wheres := (p.intent key).wheres ++ more })
    (hmore : PlainTests more) : p.SparesOthers key (s.deletePivotRows q) := by
  have hselection : q.selection.names = [] := by
    rw [hq, intent_eq]
    rfl
  refine sparesOthers_compiled
    fun c hc => SparesOthers.bind ?_ fun _ => sparesOthers_pure _
  exact sparesOthers_pivotWrite hlocal h hq hmore (r := .delete) hselection
    (List.forall_mem_nil _) hc .delete

theorem sparesOthers_deletePivot (hlocal : s.backend = LocalStore.backend)
    (h : p.Confined key) (ids : List Value) :
    p.SparesOthers key (s.deletePivot p key ids) := by
  unfold deletePivot
  cases ids.isEmpty with
  | true => exact sparesOthers_pure 0
  | false =>
    exact sparesOthers_deletePivotRows hlocal h
      (q := (p.intent key).whereIn p.table.relatedPivotKey ids) rfl
      (List.forall_mem_singleton.mpr ⟨rfl, _, h.related, .isIn ids⟩)

theorem sparesOthers_requireKey (h : p.Confined key) (action : RelationAction)
    {α : Type} {f : Value → Effect LocalStore α} (hf : p.SparesOthers key (f key)) :
    p.SparesOthers key (Effect.orThrow (requireKey p action) >>= f) := by
  intro store
  rw [bind_requireKey h.parentKey]
  exact hf store

theorem sparesOthers_updatePivot (hlocal : s.backend = LocalStore.backend)
    (h : p.Confined key) (hvalues : p.Keeps key extra) (id : Value) :
    p.SparesOthers key (s.updatePivot p id extra) := by
  refine sparesOthers_requireKey h .updatePivot ?_
  cases hempty : extra.isEmpty with
  | true => exact sparesOthers_pure 0
  | false =>
    have hsome : extra ≠ [] := by simpa using hempty
    refine sparesOthers_compiled
      fun c hc => SparesOthers.bind ?_ fun _ => sparesOthers_pure _
    exact sparesOthers_pivotWrite hlocal h
      (q := (p.intent key).whereEq p.table.relatedPivotKey id) rfl
      (List.forall_mem_singleton.mpr ⟨rfl, _, h.related, .basic ..⟩)
      (r := .update extra) ⟨hsome, by rw [intent_eq]; rfl⟩ hvalues hc .update

/-! ## Lists of keys -/

theorem sparesOthers_insertPivots (hlocal : s.backend = LocalStore.backend)
    (h : p.Confined key) (hextra : p.Keeps key extra) (ids : List Value) :
    p.SparesOthers key (s.insertPivots p key extra ids) := by
  induction ids with
  | nil => exact sparesOthers_pure ()
  | cons id rest ih =>
    exact (sparesOthers_insertPivot hlocal h hextra id).bind fun _ => ih

/-- Each entry of a synchronisation is inserted, updated or passed over. -/
theorem sparesOthers_syncEntries (hlocal : s.backend = LocalStore.backend)
    (h : p.Confined key) {entries : List (Value × Pairs)}
    (hentries : ∀ entry ∈ entries, p.Keeps key entry.2)
    (current requested : List Value) (changes : SyncChanges) :
    p.SparesOthers key (s.syncEntries p key current requested changes entries) := by
  induction entries generalizing requested changes with
  | nil => exact sparesOthers_pure _
  | cons entry rest ih =>
    obtain ⟨hextra, hrest⟩ := List.forall_mem_cons.mp hentries
    have ih := ih hrest
    rw [syncEntries]
    split
    · exact ih _ _
    · dsimp only
      split
      · exact (sparesOthers_insertPivot hlocal h hextra _).bind fun _ => ih _ _
      · split
        · exact (sparesOthers_updatePivot hlocal h hextra _).discard.bind
            fun _ => ih _ _
        · exact ih _ _

theorem sparesOthers_currentIds (hlocal : s.backend = LocalStore.backend)
    (p : Pivot) (key : Value) : p.SparesOthers key (s.currentIds p) := by
  unfold currentIds
  cases p.parentKey? with
  | none => exact sparesOthers_pure _
  | some owner =>
    have hreads := reads_selectRows (s := s) (by rw [hlocal]; rfl)
    exact (sparesOthers_of_reads (hreads _)).bind fun _ => sparesOthers_pure _

/-! ## The operations -/

theorem sparesOthers_sync (hlocal : s.backend = LocalStore.backend)
    (h : p.Confined key) {entries : List (Value × Pairs)}
    (hentries : ∀ entry ∈ entries, p.Keeps key entry.2) (detaching : Bool) :
    p.SparesOthers key (s.sync p entries detaching) := by
  refine sparesOthers_requireKey h .sync ?_
  refine (sparesOthers_currentIds hlocal p key).bind fun current => ?_
  refine (sparesOthers_syncEntries hlocal h hentries current [] {}).bind
    fun outcome => ?_
  dsimp only
  split
  · exact sparesOthers_pure _
  · split
    · exact sparesOthers_pure _
    · exact (sparesOthers_deletePivot hlocal h _).discard.bind
        fun _ => sparesOthers_pure _

theorem sparesOthers_toggle (hlocal : s.backend = LocalStore.backend)
    (h : p.Confined key) (ids : List Value) :
    p.SparesOthers key (s.toggle p ids) := by
  refine sparesOthers_requireKey h .toggle ?_
  refine (sparesOthers_currentIds hlocal p key).bind fun current => ?_
  refine (sparesOthers_deletePivot hlocal h _).discard.bind fun _ => ?_
  exact (sparesOthers_insertPivots hlocal h (List.forall_mem_nil _) _).bind fun _ =>
    sparesOthers_pure _

end Session

/-! ## Calls one after another -/

/-- A call that changes a many-to-many relation. -/
inductive PivotCall
  | attach (ids : List Value) (extra : Pairs)
  | detach (ids : List Value)
  | detachAll
  | sync (ids : List Value)
  | syncValues (entries : List (Value × Pairs))
  | syncKeeping (ids : List Value)
  | toggle (ids : List Value)
  | update (id : Value) (values : Pairs)

namespace PivotCall

open Session Pivot Store

/-- The columns that a call is given with values. -/
def pairs : PivotCall → Pairs
  | attach _ extra => extra
  | syncValues entries => entries.flatMap Prod.snd
  | update _ values => values
  | _ => []

/-- Make a call, whatever it gives. -/
def perform (s : Session LocalStore) (p : Pivot) :
    PivotCall → Effect LocalStore Unit
  | attach ids extra => s.attach p ids extra
  | detach ids => discard (s.detach p ids)
  | detachAll => discard (s.detachAll p)
  | sync ids => discard (s.sync p (plainEntries ids) true)
  | syncValues entries => discard (s.sync p entries true)
  | syncKeeping ids => discard (s.sync p (plainEntries ids) false)
  | toggle ids => discard (s.toggle p ids)
  | update id values => discard (s.updatePivot p id values)

/-- The store after calls, some of which may fail. -/
def performAll (s : Session LocalStore) (p : Pivot) (calls : List PivotCall)
    (store : LocalStore) : LocalStore :=
  calls.foldl (fun store call => (call.perform s p store).2) store

variable {s : Session LocalStore} {p : Pivot} {key : Value}

theorem keeps_plainEntries (p : Pivot) (key : Value) (ids : List Value) :
    ∀ entry ∈ plainEntries ids, p.Keeps key entry.2 :=
  List.forall_mem_map.mpr fun _ _ => List.forall_mem_nil _

/-- Every call spares the rows of other parents. -/
theorem sparesOthers_perform (hlocal : s.backend = LocalStore.backend)
    (h : p.Confined key) (call : PivotCall) (hpairs : p.Keeps key call.pairs) :
    p.SparesOthers key (call.perform s p) := by
  cases call with
  | attach ids extra =>
    exact sparesOthers_requireKey h .attach
      (sparesOthers_insertPivots hlocal h hpairs ids)
  | detach ids =>
    exact (sparesOthers_requireKey h .detach
        (sparesOthers_deletePivot hlocal h ids)).discard
  | detachAll =>
    have hdelete := sparesOthers_deletePivotRows hlocal h (q := p.intent key)
      (by rw [List.append_nil]) (List.forall_mem_nil _)
    exact (sparesOthers_requireKey h .detach hdelete).discard
  | sync ids =>
    exact (sparesOthers_sync hlocal h (keeps_plainEntries p key ids) true).discard
  | syncValues entries =>
    have hentries : ∀ entry ∈ entries, p.Keeps key entry.2 :=
      fun entry hentry pair hpair =>
        hpairs pair (List.mem_flatMap.mpr ⟨entry, hentry, hpair⟩)
    exact (sparesOthers_sync hlocal h hentries true).discard
  | syncKeeping ids =>
    exact (sparesOthers_sync hlocal h (keeps_plainEntries p key ids) false).discard
  | toggle ids => exact (sparesOthers_toggle hlocal h ids).discard
  | update id values => exact (sparesOthers_updatePivot hlocal h hpairs id).discard

theorem spares_performAll (hlocal : s.backend = LocalStore.backend)
    (h : p.Confined key) {calls : List PivotCall}
    (hcalls : ∀ call ∈ calls, p.Keeps key call.pairs) (store : LocalStore) :
    p.Spares key store.database.tables
      (performAll s p calls store).database.tables := by
  induction calls generalizing store with
  | nil => exact spares_refl _ _ _
  | cons call rest ih =>
    obtain ⟨hcall, hrest⟩ := List.forall_mem_cons.mp hcalls
    exact (sparesOthers_perform hlocal h call hcall store).trans (ih hrest _)

/-- After any calls that change a relation of one parent, the rows of the pivot
table that do not hold the key of the parent are the same rows, in the same
order. The calls may come with any keys and any values, they may fail, and the
table may hold any rows. It is keyed by the column of the parent's key, possibly
among others; the parent's key is equal to itself; and neither the equalities of
the relation nor the columns of the calls name a function or put another key in
the place of the parent's. -/
theorem pivot_calls_spare_other_parents (s : Session LocalStore)
    (hlocal : s.backend = LocalStore.backend) (p : Pivot) (key : Value)
    (h : p.Confined key) (calls : List PivotCall)
    (hcalls : ∀ call ∈ calls, p.Keeps key call.pairs)
    (store : LocalStore) (t : Table)
    (htable : store.database.tables.get? (columnOf p.table.table) = some t)
    (hkeyed : p.ownerColumn ∈ t.keys) :
    ∃ left, (performAll s p calls store).database.tables.get?
        (columnOf p.table.table) = some left ∧ left.keys = t.keys ∧
      left.rows.filter (p.ofOthers key) = t.rows.filter (p.ofOthers key) :=
  spares_performAll hlocal h hcalls store t htable hkeyed

/-- Roles of the first user are attached, replaced, toggled and changed; the
other user keeps the role. One of the changes writes the key of the first user
over itself. -/
theorem pivot_calls_spare_other_parents_roles :
    ∃ left, (performAll rolesSession userRoles [.attach [.int 10, .int 12]
          [("level", .int 3)], .sync [.int 12, .int 13], .toggle [.int 10, .int 12],
          .update (.int 10) [("user_id", .int 1), ("level", .int 7)], .detachAll]
        rolesStore).database.tables.get? "role_user" = some left ∧
      left.keys = ["user_id", "role_id"] ∧
      left.rows.filter (userRoles.ofOthers (.int 1)) =
        [.ofList [("user_id", .int 2), ("role_id", .int 12),
          ("active", .bool true)]] := by
  have hconfined : userRoles.Confined (.int 1) := by
    refine ⟨rfl, by decide, by decide, by decide, by decide, ?_⟩
    unfold Keeps
    decide
  have hcalls : ∀ call ∈ ([.attach [.int 10, .int 12] [("level", .int 3)],
      .sync [.int 12, .int 13], .toggle [.int 10, .int 12],
      .update (.int 10) [("user_id", .int 1), ("level", .int 7)],
      .detachAll] : List PivotCall), userRoles.Keeps (.int 1) call.pairs := by
    unfold Keeps
    decide
  exact pivot_calls_spare_other_parents rolesSession rfl userRoles (.int 1)
    hconfined _ hcalls rolesStore ⟨["user_id", "role_id"], roleRows⟩ rfl (by decide)

/-! ### Calls that reach other parents -/

/-- The roles of a user, under names for the columns of the two keys. -/
def rolesBy (foreign related : String) (user : Value) (wheres : Pairs) : Pivot where
  parent := (Record.new { name := "User", table := "users" }).put "id" user
  name := "roles"
  table :=
    { related := "Role", table := "role_user", foreignPivotKey := foreign
      relatedPivotKey := related, pivotWheres := wheres }

def firstRoles : Pivot := rolesBy "user_id" "role_id" (.int 1) []

/-- A user with a role of a level. -/
def roleRow (user role level : Int64) : Row :=
  .ofList [("user_id", .int user), ("role_id", .int role), ("level", .int level)]

def storeOf (t : Table) : LocalStore where
  database := { tables := (∅ : Tables).insert "role_user" t }

/-- A call on a parent that changes the rows of others. -/
def Disturbs (p : Pivot) (key : Value) (call : PivotCall) (t : Table) : Prop :=
  p.parentKey? = some key ∧ ∃ left,
      (call.perform rolesSession p (storeOf t)).2.database.tables.get? "role_user" =
          some left ∧
        left.rows.filter (p.ofOthers key) ≠ t.rows.filter (p.ofOthers key)

variable {id : Value} {extra : Pairs} {t left : Table}

theorem rows_ne {rows others : List Row} (test : Row → Bool)
    (h : rows.any test = true) (hother : others.any test = false) :
    rows ≠ others := by
  rintro rfl
  cases h.symm.trans hother

theorem disturbs_attach (hkey : p.parentKey? = some key) {after : LocalStore}
    (hinsert : rolesSession.insertPivot p key id extra (storeOf t) =
      (.ok (), after)) (hafter : after.database.tables.get? "role_user" = some left)
    (hrows : left.rows.filter (p.ofOthers key) ≠ t.rows.filter (p.ofOthers key)) :
    Disturbs p key (.attach [id] extra) t := by
  have hattach : (attach [id] extra).perform rolesSession p (storeOf t) =
      (.ok (), after) :=
    (bind_requireKey hkey _ _ _).trans (Effect.bind_ok hinsert)
  refine ⟨hkey, left, ?_, hrows⟩
  rwa [hattach]

theorem disturbs_attach_readable (hkey : p.parentKey? = some key)
    (htable : p.table.table = "role_user")
    (hnames : ∀ pair ∈ pivotValues p key id extra,
      rolesSession.grammar.ReadablePath pair.1)
    (hupsert : t.upsert "role_user"
      (.ofList ((pivotValues p key id extra).map fun pair =>
      (columnOf pair.1, pair.2))) = .ok left)
    (hrows : left.rows.filter (p.ofOthers key) ≠ t.rows.filter (p.ofOthers key)) :
    Disturbs p key (.attach [id] extra) t := by
  have hcolumn : columnOf p.table.table = "role_user" := by rw [htable]; decide
  have hstored :
      (storeOf t).database.tables.get? (columnOf p.table.table) = some t := by
    rw [hcolumn]
    rfl
  obtain ⟨after, hinsert, hafter⟩ := insertPivot_upsert (s := rolesSession) rfl
    (htable ▸ Grammar.ReadableTable.readsBack (by decide))
    (fun pair hpair => (hnames pair hpair).readsBack) hstored
    (by rw [hcolumn]; exact hupsert)
  rw [hcolumn] at hafter
  exact disturbs_attach hkey hinsert hafter hrows

/-- An extra column with the key of another user. -/
theorem disturbs_extra : Disturbs firstRoles (.int 1)
    (.attach [.int 5] [("user_id", .int 2), ("level", .int 9)])
    ⟨["user_id", "role_id"], [roleRow 2 5 1]⟩ :=
  disturbs_attach_readable rfl rfl (by decide) rfl
    (rows_ne (holdsKey "level" (.int 9)) (by decide) (by decide))

/-- An equality with the key of another user. -/
theorem disturbs_equality :
    Disturbs (rolesBy "user_id" "role_id" (.int 1) [("user_id", .int 2)])
      (.int 1) (.attach [.int 5] [("level", .int 9)])
      ⟨["user_id", "role_id"], [roleRow 2 5 1]⟩ :=
  disturbs_attach_readable rfl rfl (by decide) rfl
    (rows_ne (holdsKey "level" (.int 9)) (by decide) (by decide))

/-- One column for both keys. -/
theorem disturbs_sameColumn :
    Disturbs (rolesBy "user_id" "user_id" (.int 1) []) (.int 1)
      (.attach [.int 2] [("level", .int 9)]) ⟨["user_id"], [roleRow 2 5 1]⟩ :=
  disturbs_attach_readable rfl rfl (by decide) rfl
    (rows_ne (holdsKey "level" (.int 9)) (by decide) (by decide))

/-- A table that is keyed by the other column only. -/
theorem disturbs_keys : Disturbs firstRoles (.int 1)
    (.attach [.int 5] []) ⟨["role_id"], [roleRow 2 5 1]⟩ :=
  disturbs_attach_readable rfl rfl (by decide) rfl
    (Ne.symm (rows_ne (holdsKey "level" (.int 1)) (by decide) (by decide)))

/-- A key that is not equal to itself. -/
theorem disturbs_nan :
    Disturbs (rolesBy "user_id" "role_id" (.float .nan) []) (.float .nan)
      (.attach [.int 5] [("level", .int 9)]) ⟨["user_id", "role_id"], []⟩ :=
  disturbs_attach_readable rfl rfl (by decide) rfl
    (rows_ne (holdsKey "level" (.int 9)) (by decide) (by decide))

/-- An update of the key itself. -/
theorem disturbs_update :
    Disturbs firstRoles (.int 1) (.update (.int 5) [("user_id", .int 2)])
      ⟨["user_id", "role_id"], [roleRow 1 5 9]⟩ := by
  have hnames : ∀ name ∈ ["user_id", "role_id"],
      rolesSession.grammar.NamesColumn name := by
    have hreadable : ∀ name ∈ ["user_id", "role_id"],
        rolesSession.grammar.ReadablePath name := by decide
    have hsingle : ∀ name ∈ ["user_id", "role_id"], columnOf name = name := by
      decide
    exact fun name hname => ⟨(hreadable name hname).readsBack, hsingle name hname⟩
  have hreadable : firstRoles.Readable rolesSession.grammar :=
    ⟨Grammar.ReadableTable.readsBack (by decide), hnames, by decide,
      List.forall_mem_nil _⟩
  have hvalues : ∀ pair ∈ [("user_id", Value.int 2)],
      rolesSession.grammar.ReadsBack pair.1 :=
    List.forall_mem_singleton.mpr (hnames _ (by decide)).readsBack
  have hstored : (storeOf ⟨["user_id", "role_id"],
          [roleRow 1 5 9]⟩).database.tables.get? (columnOf "role_user") =
      some ⟨["user_id", "role_id"], [roleRow 1 5 9]⟩ := rfl
  have hkey : firstRoles.parentKey? = some (.int 1) := rfl
  obtain ⟨count, after, hupdate, hafter⟩ := updatePivot_rows rfl hreadable hkey
    (.int 5) (List.cons_ne_nil _ _) hvalues hstored
  have hperform : after = (perform rolesSession firstRoles
      (.update (.int 5) [("user_id", .int 2)])
      (storeOf ⟨["user_id", "role_id"], [roleRow 1 5 9]⟩)).2 := by
    rw [perform, Effect.discard_apply, hupdate]
  rw [hperform] at hafter
  exact ⟨hkey, _, hafter,
    rows_ne (holdsKey "level" (.int 9)) (by decide) (by decide)⟩

/-! ### Names that are passed on as they are -/

/-- The tokens of `column = ?`. -/
def equalTokens (column : String) : List Token :=
  [.name column, .symbol .eq, .symbol .param]

/-- The tokens of `column IN (2)`. -/
def twoTokens (column : String) : List Token :=
  [.name column, .keyword .in, .symbol .leftParen, .int 2, .symbol .rightParen]

/-- The tokens of `column IN (?)`. -/
def listTokens (column : String) : List Token :=
  [.name column, .keyword .in, .symbol .leftParen, .symbol .param,
    .symbol .rightParen]

theorem terms_equal {column : String}
    (h : Parser.ColumnPath [.name column] column) (n : Nat) :
    Parser.Terms 0
      (equalTokens column) n [.compare column .eq (.param n)] (n + 1) :=
  .one fun _ _ => Parser.reads_term_column h
    (Parser.reads_compare h .eq (Parser.operandAt_placeholder n))

theorem terms_two {column : String}
    (h : Parser.ColumnPath [.name column] column) (n : Nat) :
    Parser.Terms 0
      (twoTokens column) n [.member column false [.literal (.int 2)]] n := by
  have hvalue : Parser.OperandAt (.int 2) n (.literal (.int 2)) n :=
    ⟨fun rest => Parser.takes_next fun _ => Parser.takes_pure _ rest n,
      by simp, by simp⟩
  exact .one fun _ _ => Parser.reads_term_column h
    (Parser.reads_member h (.inr (.one ⟨_, rfl, hvalue⟩)))

theorem terms_list {column : String}
    (h : Parser.ColumnPath [.name column] column) (n : Nat) :
    Parser.Terms 0
      (listTokens column) n [.member column false [.param n]] (n + 1) :=
  .one fun _ _ => Parser.reads_term_column h
    (Parser.reads_member h (Parser.members_placeholders [()] n))

/-- What the text of a deletion says: on the pivot table, with a filter of
alternatives. -/
def deletion (blocks : List (List Filter)) : DeleteStatement where
  table := "role_user"
  columns := []
  filter := some (Parser.filterOf blocks)
  conditions := none

theorem parse_deletion {c : Command} {tokens : List Token}
    {blocks : List (List Filter)}
    (hlexes : Token.Lexes c.text.toList (.keyword .delete ::
        .keyword .from :: .name "role_user" :: .keyword .where :: tokens))
    (hblocks : Parser.Blocks 0 tokens 0 blocks c.params.length) :
    ParsedCommand.parse c.text =
      .ok ⟨.delete (deletion blocks), c.params.length⟩ := by
  have hnone : ∀ c ∈ ([] : List String), Parser.Path [.name c] c :=
    List.forall_mem_nil _
  have htable : Parser.Path [.name "role_user"] "role_user" := .last (by cbv)
  have hfilter := Parser.clause_filter (k := .where)
    (Parser.reads_filter hblocks (Nat.zero_le _))
  have htakes := Parser.takes_delete htable hnone hfilter
    (Parser.clause_noFilter .if c.params.length)
  rw [List.append_nil] at htakes
  exact ParsedCommand.parse_eq_ok hlexes (Parser.takes_statement_delete htakes)

theorem deletePivotRows_deletion {q : Intent} {c : Command}
    {blocks : List (List Filter)} (hc : rolesSession.grammar.delete q = .ok c)
    (hparse : ParsedCommand.parse c.text =
      .ok ⟨.delete (deletion blocks), c.params.length⟩) :
    (rolesSession.deletePivotRows q (storeOf t)).2.database.tables.get?
        "role_user" =
      some { t with
        rows := t.rows.filter fun row =>
          !passes c.params (some (Parser.filterOf blocks)) row } := by
  have hstored : (storeOf t).database.tables.get? "role_user" = some t := rfl
  have hevaluate := Database.evaluate_of_parse (storeOf t).database.tables hparse
  obtain ⟨after, hrun, hafter⟩ := run_write (s := rolesSession) rfl .delete
    (hevaluate.trans (write_ok hstored rfl))
  unfold deletePivotRows
  rw [Effect.bind_compiled hc, Effect.bind_ok hrun]
  exact hafter

theorem disturbs_deletion {call : PivotCall} {q : Intent} {c : Command}
    {blocks : List (List Filter)} (hkey : p.parentKey? = some key)
    (hcall : (call.perform rolesSession p (storeOf t)).2 =
      (rolesSession.deletePivotRows q (storeOf t)).2)
    (hc : rolesSession.grammar.delete q = .ok c)
    (hparse : ParsedCommand.parse c.text =
      .ok ⟨.delete (deletion blocks), c.params.length⟩)
    (hrows : (t.rows.filter fun row => !passes c.params
        (some (Parser.filterOf blocks)) row).filter (p.ofOthers key) ≠
      t.rows.filter (p.ofOthers key)) : Disturbs p key call t := by
  have hafter := deletePivotRows_deletion hc hparse (t := t)
  rw [← hcall] at hafter
  exact ⟨hkey, _, hafter, hrows⟩

theorem perform_detachAll (hkey : p.parentKey? = some key) (store : LocalStore) :
    (detachAll.perform rolesSession p store).2 =
      (rolesSession.deletePivotRows (p.intent key) store).2 := by
  rw [perform, Effect.discard_apply, Session.detachAll, bind_requireKey hkey]

theorem perform_detach (hkey : p.parentKey? = some key) (id : Value)
    (store : LocalStore) :
    ((detach [id]).perform rolesSession p store).2 = (rolesSession.deletePivotRows
        ((p.intent key).whereIn p.table.relatedPivotKey [id]) store).2 := by
  rw [perform, Effect.discard_apply, Session.detach, bind_requireKey hkey]
  rfl

/-- The column of the parent's key asks for the second user. -/
theorem disturbs_foreignCall : Disturbs
    (rolesBy "user_id IN (2) OR user_id" "role_id" (.int 1) []) (.int 1) .detachAll
    ⟨["user_id IN (2) OR user_id"],
      [(roleRow 2 5 9).insert "user_id IN (2) OR user_id" (.int 7)]⟩ := by
  have hlexes : Token.Lexes
      "DELETE FROM role_user WHERE user_id IN (2) OR user_id = ?".toList
      (.keyword .delete :: .keyword .from :: .name "role_user" :: .keyword .where ::
        (twoTokens "user_id" ++ .keyword .or :: equalTokens "user_id")) :=
    Token.lexes_of_read (rfl : Token.read
        "DELETE FROM role_user WHERE user_id IN (2) OR user_id = ?" = .ok _)
  have hcolumn : Parser.ColumnPath [.name "user_id"] "user_id" := .last (by cbv)
  have hc : rolesSession.grammar.delete ((rolesBy "user_id IN (2) OR user_id"
          "role_id" (.int 1) []).intent (.int 1)) =
      .ok ⟨"DELETE FROM role_user WHERE user_id IN (2) OR user_id = ?", [.int 1]⟩ :=
    rfl
  exact disturbs_deletion rfl (perform_detachAll rfl _) hc (parse_deletion hlexes
      ((terms_two hcolumn 0).blocks.or (terms_equal hcolumn 0).blocks))
    (Ne.symm (rows_ne (holdsKey "level" (.int 9)) (by decide) (by decide)))

/-- An equality asks for a level, whoever has it. -/
theorem disturbs_equalityCall : Disturbs
    (rolesBy "user_id" "role_id" (.int 1) [("level IN (2) OR level", .int 9)])
    (.int 1) .detachAll ⟨["user_id", "role_id"], [roleRow 2 5 9]⟩ := by
  have hlexes : Token.Lexes
      "DELETE FROM role_user WHERE user_id = ? AND level IN (2) OR level = ?".toList
      (.keyword .delete :: .keyword .from :: .name "role_user" :: .keyword .where ::
        ((equalTokens "user_id" ++ .keyword .and :: twoTokens "level") ++
          .keyword .or :: equalTokens "level")) :=
    Token.lexes_of_read (rfl : Token.read
        "DELETE FROM role_user WHERE user_id = ? AND level IN (2) OR level = ?" =
      .ok _)
  have hcolumn : Parser.ColumnPath [.name "user_id"] "user_id" := .last (by cbv)
  have hlevel : Parser.ColumnPath [.name "level"] "level" := .last (by cbv)
  have hc : rolesSession.grammar.delete ((rolesBy "user_id" "role_id"
          (.int 1) [("level IN (2) OR level", .int 9)]).intent (.int 1)) =
      .ok ⟨"DELETE FROM role_user WHERE user_id = ? AND level IN (2) OR level = ?",
        [.int 1, .int 9]⟩ := rfl
  exact disturbs_deletion rfl (perform_detachAll rfl _) hc
    (parse_deletion hlexes (((terms_equal hcolumn 0).and_blocks
          (terms_two hlevel 1).blocks).or (terms_equal hlevel 1).blocks))
    (Ne.symm (rows_ne (holdsKey "level" (.int 9)) (by decide) (by decide)))

/-- The column of the related keys asks for a role, whoever has it. -/
theorem disturbs_relatedCall :
    Disturbs (rolesBy "user_id" "role_id IN (2) OR role_id" (.int 1) []) (.int 1)
      (.detach [.int 5]) ⟨["user_id", "role_id"], [roleRow 2 5 9]⟩ := by
  have hlexes : Token.Lexes
      ("DELETE FROM role_user WHERE user_id = ? AND role_id IN (2) " ++
        "OR role_id IN (?)").toList
      (.keyword .delete :: .keyword .from :: .name "role_user" :: .keyword .where ::
        ((equalTokens "user_id" ++ .keyword .and :: twoTokens "role_id") ++
          .keyword .or :: listTokens "role_id")) :=
    Token.lexes_of_read (rfl : Token.read
        ("DELETE FROM role_user WHERE user_id = ? AND role_id IN (2) " ++
          "OR role_id IN (?)") = .ok _)
  have hcolumn : Parser.ColumnPath [.name "user_id"] "user_id" := .last (by cbv)
  have hrole : Parser.ColumnPath [.name "role_id"] "role_id" := .last (by cbv)
  have hc : rolesSession.grammar.delete
        (((rolesBy "user_id" "role_id IN (2) OR role_id" (.int 1) []).intent
            (.int 1)).whereIn "role_id IN (2) OR role_id" [.int 5]) =
      .ok ⟨"DELETE FROM role_user WHERE user_id = ? AND role_id IN (2) " ++
        "OR role_id IN (?)", [.int 1, .int 5]⟩ := rfl
  exact disturbs_deletion rfl (perform_detach rfl _ _) hc
    (parse_deletion hlexes
      (((terms_equal hcolumn 0).and_blocks (terms_two hrole 1).blocks).or
        (terms_list hrole 1).blocks))
    (Ne.symm (rows_ne (holdsKey "level" (.int 9)) (by decide) (by decide)))

/-- The columns of an insertion that names the column of the parent's key twice. -/
def columnsTwice : List (List Token × String) :=
  [([.name "user_id"], "user_id"), ([.name "role_id"], "role_id"),
    ([.quotedName "(", .symbol .dot, .name "USER_ID"], "user_id"),
    ([.name "level"], "level")]

def insertTwice : Command where
  text := "INSERT INTO role_user (user_id, role_id, \"(\".USER_ID, level) " ++
    "VALUES (?, ?, ?, ?)"
  params := [.int 1, .int 5, .int 2, .int 9]

def insertionTwice : InsertStatement where
  table := "role_user"
  columns := columnsTwice.map Prod.snd
  values := [.param 0, .param 1, .param 2, .param 3]
  ifNotExists := false
  ttl := none

theorem parse_insertTwice : ParsedCommand.parse insertTwice.text =
    .ok ⟨.insert insertionTwice, insertTwice.params.length⟩ := by
  have hlexes : Token.Lexes insertTwice.text.toList (.keyword .insert ::
      .keyword .into :: ([.name "role_user"] ++ .symbol .leftParen ::
        (Token.commas (columnsTwice.map Prod.fst) ++ .symbol .rightParen ::
          .keyword .values :: .symbol .leftParen ::
          (Token.placeholders insertTwice.params ++ .symbol .rightParen ::
            ([] ++ []))))) :=
    Token.lexes_of_read (rfl : Token.read
        ("INSERT INTO role_user (user_id, role_id, \"(\".USER_ID, level) " ++
          "VALUES (?, ?, ?, ?)") = .ok _)
  have htable : Parser.Path [.name "role_user"] "role_user" := .last (by cbv)
  have hcolumns : ∀ c ∈ columnsTwice, Parser.ColumnPath c.1 c.2 := by
    simp only [columnsTwice, List.forall_mem_cons]
    have hname : Parser.nameOf? (.name "USER_ID") = some "user_id" :=
      Grammar.nameOf_name (by decide)
    exact ⟨.last (by cbv), .last (by cbv), .qualified rfl (.last hname),
      .last (by cbv), List.forall_mem_nil _⟩
  exact ParsedCommand.parse_eq_ok hlexes (Parser.takes_statement_insert
    (Parser.takes_insert htable (List.cons_ne_nil _ _) hcolumns rfl
      (Parser.reads_ifAbsent_none 4) (Parser.clause_noTtl 4)))

/-- An extra column that is another way to write the column of the parent's key. -/
theorem disturbs_extraCall : Disturbs firstRoles (.int 1)
    (.attach [.int 5] [("\"(\".USER_ID", .int 2), ("level", .int 9)])
    ⟨["user_id", "role_id"], [roleRow 2 5 1]⟩ := by
  have hstored :
      (storeOf ⟨["user_id", "role_id"], [roleRow 2 5 1]⟩).database.tables.get?
          "role_user" = some ⟨["user_id", "role_id"], [roleRow 2 5 1]⟩ := rfl
  have hwrite : Store.insert ⟨["user_id", "role_id"], [roleRow 2 5 1]⟩
        insertionTwice insertTwice.params = .ok (_, _) := rfl
  have hevaluate := (Database.evaluate_of_parse
      (storeOf ⟨["user_id", "role_id"], [roleRow 2 5 1]⟩).database.tables
      parse_insertTwice).trans (write_ok hstored hwrite)
  have hc : rolesSession.grammar.insert (.new firstRoles.table.table)
        (pivotValues firstRoles (.int 1) (.int 5) [("\"(\".USER_ID", .int 2),
            ("level", .int 9)]) = .ok insertTwice := rfl
  obtain ⟨after, hinsert, hafter⟩ :=
    insertPivot_of_evaluate (s := rolesSession) rfl hc hevaluate
  exact disturbs_attach rfl hinsert hafter
    (rows_ne (holdsKey "level" (.int 9)) (by decide) (by decide))

/-- Calls that change rows of another user, each against one of the conditions:
an extra column, an updated column or an equality puts another key in the place
of the parent's, the two keys share a column, the table is keyed by the other
column, the key is not equal to itself, or a name of the relation or of the call
is passed on and asks for other rows or writes another key. -/
theorem pivot_calls_disturb_other_parents : Disturbs firstRoles (.int 1)
      (.attach [.int 5] [("user_id", .int 2), ("level", .int 9)])
      ⟨["user_id", "role_id"], [roleRow 2 5 1]⟩ ∧
    Disturbs firstRoles (.int 1) (.update (.int 5) [("user_id", .int 2)])
      ⟨["user_id", "role_id"], [roleRow 1 5 9]⟩ ∧
    Disturbs (rolesBy "user_id" "role_id" (.int 1) [("user_id", .int 2)])
      (.int 1) (.attach [.int 5] [("level", .int 9)])
      ⟨["user_id", "role_id"], [roleRow 2 5 1]⟩ ∧
    Disturbs (rolesBy "user_id" "user_id" (.int 1) []) (.int 1)
      (.attach [.int 2] [("level", .int 9)]) ⟨["user_id"], [roleRow 2 5 1]⟩ ∧
    Disturbs firstRoles (.int 1)
      (.attach [.int 5] []) ⟨["role_id"], [roleRow 2 5 1]⟩ ∧
    Disturbs (rolesBy "user_id" "role_id" (.float .nan) []) (.float .nan)
      (.attach [.int 5] [("level", .int 9)]) ⟨["user_id", "role_id"], []⟩ ∧
    Disturbs (rolesBy "user_id IN (2) OR user_id" "role_id" (.int 1) [])
      (.int 1) .detachAll ⟨["user_id IN (2) OR user_id"],
          [(roleRow 2 5 9).insert "user_id IN (2) OR user_id" (.int 7)]⟩ ∧
    Disturbs
      (rolesBy "user_id" "role_id" (.int 1) [("level IN (2) OR level", .int 9)])
      (.int 1) .detachAll ⟨["user_id", "role_id"], [roleRow 2 5 9]⟩ ∧
    Disturbs (rolesBy "user_id" "role_id IN (2) OR role_id" (.int 1) [])
      (.int 1) (.detach [.int 5]) ⟨["user_id", "role_id"], [roleRow 2 5 9]⟩ ∧
    Disturbs firstRoles (.int 1)
      (.attach [.int 5] [("\"(\".USER_ID", .int 2), ("level", .int 9)])
      ⟨["user_id", "role_id"], [roleRow 2 5 1]⟩ :=
  ⟨disturbs_extra, disturbs_update, disturbs_equality, disturbs_sameColumn,
    disturbs_keys, disturbs_nan, disturbs_foreignCall, disturbs_equalityCall,
    disturbs_relatedCall, disturbs_extraCall⟩

end PivotCall

end EntityMapper
