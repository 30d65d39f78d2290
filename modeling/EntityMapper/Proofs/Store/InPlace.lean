import EntityMapper.Proofs.Store.Writes

/-!
# Writes in place

The evaluators as programs that change a table where it stands. A program
changes its targets one after another and a target column by column, and where
it fails it leaves the table as it has changed it up to there, so the order of
its checks and its changes counts. Each program here ends as the evaluator of
its statement does (`Runs`). In particular it leaves the table that it was given
if it fails: all that a write checks it checks before its first change.
-/

namespace EntityMapper.Store

/-- A program that changes a table in place. A failure keeps the changes that
were made before. -/
abbrev Edit := EStateM StoreError Table

namespace Edit

/-! ## Programs -/

/-- Go on with a value, or fail. -/
def check {α : Type} : Except StoreError α → Edit α
  | .ok value => pure value
  | .error e => throw e

/-- Change the row at a position. -/
def changeRow (i : Nat) (change : Row → Row) : Edit Unit :=
  modify fun t => { t with rows := t.rows.modify i change }

/-- Put a row behind the others. -/
def push (row : Row) : Edit Unit :=
  modify fun t => { t with rows := t.rows ++ [row] }

/-- The position of the first row with a key. -/
def position? (t : Table) (key : List Value) : Option Nat :=
  t.rows.findIdx? fun row => Table.hasKey row t.keys key

/-- The positions of the rows that pass a test. -/
def positions (test : Row → Bool) (rows : List Row) : List Nat :=
  (rows.zipIdx.filter fun entry => test entry.1).map Prod.snd

def upsert (name : String) (row : Row) : Edit Unit := do
  let t ← get
  let key ← check (Table.keyOf name row t.keys)
  match position? t key with
  | some i => changeRow i (·.extend row)
  | none => push row

def insert (s : InsertStatement) (params : List Value) : Edit ResultSet := do
  let row := insertedRow s params
  if s.ifNotExists then
    let t ← get
    let key ← check (Table.keyOf s.table row t.keys)
    match position? t key with
    | some i => return appliedResult false t.rows[i]? 0
    | none =>
      push row
      return appliedResult true none 1
  else
    upsert s.table row
    return .affected 1

/-- Find the positions of the targets, check the conditions on the rows there
and only then change the table. -/
def guarded (filter conditions : Option Filter) (params : List Value)
    (change : List Nat → Edit Unit) : Edit ResultSet := do
  let t ← get
  let targets := positions (passes params filter) t.rows
  match conditions with
  | none =>
    change targets
    return .affected targets.length
  | some c =>
    let current := targets.filterMap (t.rows[·]?)
    if conditionsHold c current params then
      change targets
      return appliedResult true none targets.length
    else return appliedResult false current.head? 0

def update (s : UpdateStatement) (params : List Value) : Edit ResultSet :=
  guarded s.filter s.conditions params fun targets =>
    targets.forM fun i => s.assignments.forM fun (column, operand) =>
      changeRow i (·.insert column (resolve params operand))

/-- Key columns are looked for after the conditions have been checked. -/
def delete (s : DeleteStatement) (params : List Value) : Edit ResultSet :=
  guarded s.filter s.conditions params fun targets => do
    if s.columns.isEmpty then
      modify fun t =>
        { t with
          rows := (t.rows.zipIdx.filter fun entry =>
            !targets.contains entry.2).map Prod.fst }
    else
      let t ← get
      match s.columns.find? fun column => t.keys.contains column with
      | some column => throw (.clearedKey column)
      | none =>
        targets.forM fun i =>
          s.columns.forM fun column => changeRow i (·.erase column)

/-- Run a program on the table of its name. The table is put back however the
program ends. -/
def on (tables : Tables) (name : String) (edit : Edit ResultSet) :
    Except StoreError ResultSet × Tables :=
  match tables.get? name with
  | none => (.error (.unconfiguredTable name), tables)
  | some t =>
    match edit.run t with
    | .ok result after => (.ok result, NameMap.insert tables name after)
    | .error e after => (.error e, NameMap.insert tables name after)

/-- Run a statement in place. -/
def execute (tables : Tables) (statement : Statement) (params : List Value) :
    Except StoreError ResultSet × Tables :=
  match statement with
  | .select s => (select tables s params, tables)
  | .insert s => on tables s.table (insert s params)
  | .update s => on tables s.table (update s params)
  | .delete s => on tables s.table (delete s params)

/-! ## Runs of programs -/

variable {t after : Table} {rows : List Row} {params : List Value}
  {test : Row → Bool}

theorem run_bind {α β : Type} {edit : Edit α} {rest : α → Edit β} {value : α}
    (h : edit.run t = .ok value after) :
    (edit >>= rest).run t = (rest value).run after := by
  change EStateM.bind edit rest t = _
  rw [EStateM.bind, show edit t = _ from h]
  rfl

theorem run_bind_error {α β : Type} {edit : Edit α} {rest : α → Edit β}
    {e : StoreError} (h : edit.run t = .error e after) :
    (edit >>= rest).run t = .error e after := by
  change EStateM.bind edit rest t = _
  rw [EStateM.bind, show edit t = _ from h]

theorem run_get (t : Table) : (get : Edit Table).run t = .ok t t := rfl

theorem run_check {α : Type} (value : α) (t : Table) :
    (check (.ok value)).run t = .ok value t := rfl

theorem run_changeRow (i : Nat) (change : Row → Row) (t : Table) :
    (changeRow i change).run t =
      .ok () { t with rows := t.rows.modify i change } := rfl

/-- Changes of the row at a position, one after another. -/
theorem run_forM_changeRow {α : Type} (i : Nat) (change : Row → α → Row)
    (steps : List α) (t : Table) :
    EStateM.run (steps.forM fun step => changeRow i (change · step)) t =
      .ok () { t with rows := t.rows.modify i (steps.foldl change) } := by
  induction steps generalizing t with
  | nil =>
    exact congrArg (EStateM.Result.ok () ∘ Table.mk t.keys)
      (List.modify_id i t.rows).symm
  | cons step rest ih =>
    change (changeRow i (change · step) >>= fun _ =>
      rest.forM fun step => changeRow i (change · step)).run t = _
    rw [run_bind (run_changeRow i _ t), ih, List.modify_modify_eq]
    rfl

/-- The same changes of the row at each of some positions. -/
theorem run_forM_targets {α : Type} (change : Row → α → Row) (steps : List α)
    (targets : List Nat) (t : Table) :
    EStateM.run (targets.forM
        fun i => steps.forM fun step => changeRow i (change · step)) t =
      .ok () ⟨t.keys, targets.foldl
        (fun rows i => rows.modify i (steps.foldl change)) t.rows⟩ := by
  induction targets generalizing t with
  | nil => rfl
  | cons i rest ih =>
    change ((steps.forM fun step => changeRow i (change · step)) >>= fun _ =>
      rest.forM fun i => steps.forM fun step =>
        changeRow i (change · step)).run t = _
    rw [run_bind (run_forM_changeRow i change steps t), ih]
    rfl

/-! ## Positions -/

theorem positions_cons (test : Row → Bool) (row : Row) (rows : List Row) :
    positions test (row :: rows) =
      if test row then 0 :: (positions test rows).map (· + 1)
      else (positions test rows).map (· + 1) := by
  have hrest : ((rows.zipIdx.map (Prod.map id (· + 1))).filter fun entry =>
        test entry.1).map Prod.snd = (positions test rows).map (· + 1) := by
    rw [List.filter_map, List.map_map, positions, List.map_map]
    rfl
  rw [positions, List.zipIdx_cons', List.filter_cons]
  split
  · exact congrArg (0 :: ·) hrest
  · exact hrest

/-- The rows at the positions of the rows that pass a test are those rows. -/
theorem filterMap_positions (test : Row → Bool) (rows : List Row) :
    (positions test rows).filterMap (rows[·]?) = rows.filter test := by
  induction rows with
  | nil => rfl
  | cons row rest ih =>
    have hrest : ((positions test rest).map (· + 1)).filterMap ((row :: rest)[·]?) =
        rest.filter test := by
      rw [List.filterMap_map, ← ih]
      rfl
    rw [positions_cons, List.filter_cons]
    split
    · exact congrArg (row :: ·) hrest
    · exact hrest

theorem length_positions (test : Row → Bool) (rows : List Row) :
    (positions test rows).length = (rows.filter test).length := by
  induction rows with
  | nil => rfl
  | cons row rest ih =>
    rw [positions_cons, List.filter_cons]
    split <;> simp [ih]

/-- Changes behind the first row. -/
theorem foldl_modify_succ (change : Row → Row) (row : Row) (targets : List Nat)
    (rows : List Row) :
    (targets.map (· + 1)).foldl (fun rows i => rows.modify i change) (row :: rows) =
      row :: targets.foldl (fun rows i => rows.modify i change) rows := by
  induction targets generalizing rows with
  | nil => rfl
  | cons i rest ih => exact ih (rows.modify i change)

/-- To change the rows at the positions of the targets is to change the targets. -/
theorem foldl_modify_positions (test : Row → Bool) (change : Row → Row)
    (rows : List Row) :
    (positions test rows).foldl (fun rows i => rows.modify i change) rows =
      rows.map fun row => if test row then change row else row := by
  induction rows with
  | nil => rfl
  | cons row rest ih =>
    rw [positions_cons, List.map_cons, ← ih]
    split
    · exact foldl_modify_succ change (change row) _ rest
    · exact foldl_modify_succ change row _ rest

/-- Steps at the positions of some rows change these rows. -/
theorem run_forM_positions {α : Type} (change : Row → α → Row) (steps : List α)
    (test : Row → Bool) (t : Table) :
    EStateM.run ((positions test t.rows).forM fun i =>
        steps.forM fun step => changeRow i (change · step)) t =
      .ok () ⟨t.keys, t.rows.map
          fun row => if test row then steps.foldl change row else row⟩ := by
  rw [run_forM_targets, foldl_modify_positions]

/-- To keep the rows at other positions than the targets' is to remove the
targets. -/
theorem filter_zipIdx_positions (test : Row → Bool) (rows : List Row) :
    (rows.zipIdx.filter fun entry => !(positions test rows).contains entry.2).map
        Prod.fst = rows.filter fun row => !test row := by
  have hmem (entry : Row × Nat) (h : entry ∈ rows.zipIdx) :
      (positions test rows).contains entry.2 = test entry.1 := by
    have hrow := List.mem_zipIdx_iff_getElem?.mp h
    rw [Bool.eq_iff_iff, List.contains_iff_mem, positions, List.mem_map]
    constructor
    · rintro ⟨other, hother, hindex⟩
      obtain ⟨hother, htest⟩ := List.mem_filter.mp hother
      rw [List.mem_zipIdx_iff_getElem?, hindex, hrow] at hother
      rwa [Option.some.inj hother]
    · exact fun htest => ⟨entry, List.mem_filter.mpr ⟨h, htest⟩, rfl⟩
  rw [List.filter_congr fun entry h => congrArg not (hmem entry h)]
  conv_rhs => rw [← List.zipIdx_map_fst 0 rows, List.filter_map]
  rfl

/-- A row is written into the first row with its key. -/
theorem upsertRows_eq (keys : List String) (key : List Value) (row : Row)
    (rows : List Row) :
    Table.upsertRows keys key row rows =
      match rows.findIdx? fun old => Table.hasKey old keys key with
      | some i => rows.modify i (·.extend row)
      | none => rows ++ [row] := by
  induction rows with
  | nil => rfl
  | cons old rest ih =>
    rw [Table.upsertRows, List.findIdx?_cons, ih]
    split
    · rfl
    · cases rest.findIdx? fun old => Table.hasKey old keys key <;> rfl

/-- The row at the position of a key is the one that is found by the key. -/
theorem find?_eq (t : Table) (key : List Value) :
    t.find? key = (position? t key).bind (t.rows[·]?) := by
  unfold position? Table.find?
  induction t.rows with
  | nil => rfl
  | cons row rest ih =>
    rw [List.find?_cons, List.findIdx?_cons, ih]
    split
    · next h => rw [if_pos h]; rfl
    · next h =>
      rw [if_neg (Bool.not_eq_true _ ▸ h)]
      cases rest.findIdx? fun old => Table.hasKey old t.keys key <;> rfl

/-! ## Programs and evaluators -/

/-- How a program ends that ends as an evaluator does: it leaves the table that
the evaluator computes, or the one that it was given if the evaluator fails. -/
def ended {α : Type} (t : Table) :
    Except StoreError (α × Table) → EStateM.Result StoreError Table α
  | .ok (value, after) => .ok value after
  | .error e => .error e t

theorem run_upsert (name : String) (row : Row) (t : Table) :
    (upsert name row).run t =
      ended t ((t.upsert name row).map fun after => ((), after)) := by
  rw [upsert, run_bind (run_get t), Table.upsert]
  cases Table.keyOf name row t.keys with
  | error e => rfl
  | ok key =>
    dsimp only
    rw [run_bind (run_check key t), upsertRows_eq, position?]
    cases t.rows.findIdx? fun old => Table.hasKey old t.keys key <;> rfl

theorem run_insert (s : InsertStatement) (params : List Value) (t : Table) :
    (insert s params).run t = ended t (Store.insert t s params) := by
  rw [insert]
  cases hguard : s.ifNotExists with
  | false =>
    have hupsert := run_upsert s.table (insertedRow s params) t
    rw [Store.insert, hguard, if_neg Bool.false_ne_true, if_neg Bool.false_ne_true]
    cases hafter : t.upsert s.table (insertedRow s params) with
    | error e => exact run_bind_error (hupsert.trans (by rw [hafter]; rfl))
    | ok after => exact run_bind (hupsert.trans (by rw [hafter]; rfl))
  | true =>
    rw [if_pos rfl, run_bind (run_get t)]
    cases hkey : Table.keyOf s.table (insertedRow s params) t.keys with
    | error e =>
      rw [insert_keyless hkey]
      rfl
    | ok key =>
      have hfind := find?_eq t key
      rw [run_bind (run_check key t)]
      cases hposition : position? t key with
      | none =>
        rw [insert_absent hguard hkey (hfind.trans (by rw [hposition]; rfl))]
        rfl
      | some i =>
        obtain ⟨hi, -⟩ := List.findIdx?_eq_some_iff_getElem.mp hposition
        have hrow : t.rows[i]? = some t.rows[i] := List.getElem?_eq_getElem hi
        rw [insert_present hguard hkey
          (hfind.trans (by rw [hposition]; exact hrow))]
        dsimp only
        rw [hrow]
        rfl

/-- A guarded change ends as a guarded write does if the change ends as the
write. -/
theorem run_guarded (filter conditions : Option Filter)
    {change : List Nat → Edit Unit} {t : Table}
    {write : Except StoreError (List Row)}
    (hchange : (change (positions (passes params filter) t.rows)).run t =
      ended t (write.map fun rows => ((), ⟨t.keys, rows⟩))) :
    (guarded filter conditions params change).run t =
      ended t (guardedWrite t filter conditions params write) := by
  rw [guarded, run_bind (run_get t)]
  dsimp only
  rw [filterMap_positions, length_positions]
  cases conditions with
  | none =>
    cases write with
    | error e => exact run_bind_error hchange
    | ok rows => exact run_bind hchange
  | some c =>
    dsimp only
    by_cases hhold :
      conditionsHold c (t.rows.filter (passes params filter)) params = true
    · rw [guardedWrite_held hhold, if_pos hhold]
      cases write with
      | error e => exact run_bind_error hchange
      | ok rows => exact run_bind hchange
    · rw [guardedWrite_refused (Bool.not_eq_true _ ▸ hhold), if_neg hhold]
      rfl

theorem run_update (s : UpdateStatement) (params : List Value) (t : Table) :
    (update s params).run t = ended t (Store.update t s params) := by
  refine run_guarded s.filter s.conditions ?_
  exact run_forM_positions _ s.assignments _ t

theorem run_delete (s : DeleteStatement) (params : List Value) (t : Table) :
    (delete s params).run t = ended t (Store.delete t s params) := by
  refine run_guarded s.filter s.conditions ?_
  cases hwhole : s.columns.isEmpty with
  | true =>
    rw [if_pos rfl, if_pos rfl, ← filter_zipIdx_positions]
    rfl
  | false =>
    rw [if_neg Bool.false_ne_true, if_neg Bool.false_ne_true, run_bind (run_get t)]
    cases s.columns.find? fun column => t.keys.contains column with
    | some column => rfl
    | none =>
      exact run_forM_positions _ s.columns _ t

/-! ## Programs on the tables -/

/-- A statement that is carried out in place ends as its execution does, with
the tables as they were if it fails. -/
def EndsAs (tables : Tables) (made : Except StoreError ResultSet × Tables) :
    Except StoreError (ResultSet × Tables) → Prop
  | .ok (result, after) =>
    made.1 = .ok result ∧ ∀ name, made.2.get? name = after.get? name
  | .error e => made.1 = .error e ∧ ∀ name, made.2.get? name = tables.get? name

theorem endsAs_on {edit : Edit ResultSet}
    {run : Table → Except StoreError (ResultSet × Table)}
    (h : ∀ t, edit.run t = ended t (run t)) (tables : Tables) (name : String) :
    EndsAs tables (on tables name edit) (write tables name run) := by
  unfold on write Tables.table
  cases htable : tables.get? name with
  | none => exact ⟨rfl, fun _ => rfl⟩
  | some t =>
    dsimp only
    rw [h t]
    cases hrun : run t with
    | ok made =>
      simp only [bind, Except.bind, hrun]
      exact ⟨rfl, fun _ => rfl⟩
    | error e =>
      simp only [bind, Except.bind, hrun]
      -- The table is put back as it was taken.
      refine ⟨rfl, fun other => ?_⟩
      rw [ended, NameMap.get?_insert]
      split
      · next hother => rw [← hother, htable]
      · rfl

theorem endsAs_execute (tables : Tables) (statement : Statement)
    (params : List Value) :
    EndsAs tables (execute tables statement params)
      (Store.execute tables statement params) := by
  cases statement with
  | select s =>
    rw [execute, Store.execute]
    cases select tables s params <;> exact ⟨rfl, fun _ => rfl⟩
  | insert s => exact endsAs_on (run_insert s params) tables s.table
  | update s => exact endsAs_on (run_update s params) tables s.table
  | delete s => exact endsAs_on (run_delete s params) tables s.table

end Edit

end EntityMapper.Store

namespace EntityMapper.Database

/-- Run a command in place and log it. -/
def runInPlace (db : Database) (c : Command) :
    Except StoreError ResultSet × Database :=
  let log := db.log ++ [c]
  match ParsedCommand.parse c.text with
  | .error e => (.error (.syntaxError e), { db with log })
  | .ok parsed =>
    if parsed.placeholders ≠ c.params.length then
      (.error (.bindingCount parsed.placeholders c.params.length), { db with log })
    else
      let (result, tables) := Store.Edit.execute db.tables parsed.statement c.params
      (result, { tables, log })

/-- A command ends in place as it does otherwise, and leaves the same tables. -/
theorem runInPlace_eq (db : Database) (c : Command) :
    (db.runInPlace c).1 = (db.run c).1 ∧ ∀ name,
        (db.runInPlace c).2.tables.get? name = (db.run c).2.tables.get? name := by
  unfold runInPlace run evaluate
  cases ParsedCommand.parse c.text with
  | error e => exact ⟨rfl, fun _ => rfl⟩
  | ok parsed =>
    dsimp only
    by_cases hcount : parsed.placeholders ≠ c.params.length
    · rw [if_pos hcount, if_pos hcount]
      exact ⟨rfl, fun _ => rfl⟩
    · rw [if_neg hcount, if_neg hcount]
      have hends := Store.Edit.endsAs_execute db.tables parsed.statement c.params
      cases hexecute : Store.execute db.tables parsed.statement c.params <;>
        (rw [hexecute] at hends; exact hends)

end EntityMapper.Database
