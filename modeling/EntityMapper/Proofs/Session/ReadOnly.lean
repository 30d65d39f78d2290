import EntityMapper.Proofs.Grammar.Compilation
import EntityMapper.Proofs.Session.Effects
import EntityMapper.Proofs.Statement.Reading
import EntityMapper.Session.Resolution

/-!
# Effects that read

A query that a session sends is a text that begins with the keyword of a
selection, whatever names and raw conditions it is made of. So it is read as a
selection or not at all, and changes no table. An effect made of queries alone
is determined by the tables of the store: its value and the commands it sends
are those it gives on a store of the same tables with an empty log, and it
leaves everything but the log as it was.

Resolving a relation is such an effect. It depends on the entity and the
attributes of the parent only, and gives records without relations of their own.
-/

namespace EntityMapper

/-! ## Texts of selections -/

namespace Token

theorem next_select (rest : List Char) :
    next ("SELECT ".toList ++ rest) = .ok (.keyword .select, ' ' :: rest) := by
  have hword : ("SELECT ".toList ++ rest).takeWhile isNameChar =
      "SELECT".toList := by
    simp [List.takeWhile, show isNameChar 'S' = true by decide,
      show isNameChar 'E' = true by decide, show isNameChar 'L' = true by decide,
      show isNameChar 'C' = true by decide, show isNameChar 'T' = true by decide,
      show isNameChar ' ' = false by decide]
  have hrest : ("SELECT ".toList ++ rest).dropWhile isNameChar = ' ' :: rest := by
    simp [List.dropWhile, show isNameChar 'S' = true by decide,
      show isNameChar 'E' = true by decide, show isNameChar 'L' = true by decide,
      show isNameChar 'C' = true by decide, show isNameChar 'T' = true by decide,
      show isNameChar ' ' = false by decide]
  have hkeyword : ofWord "SELECT".toList = .keyword .select := by decide
  rw [← hkeyword, ← hword, ← hrest]
  rfl

theorem read_select {source : String} {rest : List Char}
    (h : source.toList = "SELECT ".toList ++ rest) {tokens : List SpannedToken}
    (hread : read source = .ok tokens) :
    ∃ span more, tokens = ⟨.keyword .select, span⟩ :: more := by
  have hblank : ("SELECT ".toList ++ rest).dropWhile isBlank =
      "SELECT ".toList ++ rest := rfl
  rw [read, h, readFrom, hblank] at hread
  rw [show "SELECT ".toList ++ rest =
    'S' :: ("ELECT ".toList ++ rest) from rfl] at hread
  simp only [show 'S' :: ("ELECT ".toList ++ rest) =
    "SELECT ".toList ++ rest from rfl, next_select] at hread
  split at hread
  · exact ⟨_, _, (Except.ok.inj hread).symm⟩
  · cases hread

end Token

namespace Parser

/-- Behind the keyword of a selection nothing but a selection is read. -/
theorem exists_select_of_command {c d : Cursor} {span : Span}
    {more : List SpannedToken}
    (htokens : c.tokens = ⟨.keyword .select, span⟩ :: more)
    {parsed : ParsedCommand} (h : command.run c = .ok (parsed, d)) :
    ∃ s, parsed.statement = .select s := by
  obtain ⟨st, next, hstatement, hrest⟩ := exists_of_run_bind h
  obtain ⟨-, last, -, hparsed⟩ := exists_of_run_bind hrest
  obtain rfl : ⟨st, last.placeholders⟩ = parsed :=
    congrArg Prod.fst (Except.ok.inj hparsed)
  obtain ⟨first, behind, hfirst, hselect⟩ := exists_of_run_bind hstatement
  rw [StateT.run, nextToken, htokens] at hfirst
  obtain ⟨rfl, rfl⟩ := Prod.mk.inj (Except.ok.inj hfirst)
  obtain ⟨s, end_, -, hst⟩ := exists_of_run_bind hselect
  exact ⟨s, (congrArg Prod.fst (Except.ok.inj hst)).symm⟩

end Parser

/-- A text that begins with the keyword of a selection is read as a selection or
not at all. -/
theorem ParsedCommand.exists_select {source : String} {rest : List Char}
    (h : source.toList = "SELECT ".toList ++ rest) {parsed : ParsedCommand}
    (hparse : ParsedCommand.parse source = .ok parsed) :
    ∃ s, parsed.statement = .select s := by
  obtain ⟨tokens, d, hread, hcommand⟩ := ParsedCommand.exists_of_parse hparse
  obtain ⟨span, more, htokens⟩ := Token.read_select h hread
  exact Parser.exists_select_of_command htokens hcommand

/-- What a compiled query is run for changes no table. -/
theorem Database.tables_of_evaluate {g : Grammar} {q : Intent} {c : Command}
    (hc : g.select q = .ok c) {tables after : Tables} {result : ResultSet}
    (h : evaluate tables c = .ok (result, after)) : after = tables := by
  obtain ⟨rest, htext⟩ : ∃ rest, c.text.toList = "SELECT ".toList ++ rest := by
    rcases Grammar.select_eq_ok hc with ⟨-, -, -, -, rfl⟩ | ⟨-, rfl⟩
    all_goals
      simp only [Fragment.command, Fragment.text_append, Fragment.lit,
        Grammar.selectHead, String.toList_append, List.append_assoc]
      exact ⟨_, rfl⟩
  unfold evaluate at h
  cases hparse : ParsedCommand.parse c.text with
  | error e =>
    rw [hparse] at h
    cases h
  | ok parsed =>
    obtain ⟨s, hs⟩ := ParsedCommand.exists_select htext hparse
    rw [hparse] at h
    dsimp only at h
    split at h
    · cases h
    · rw [hs, Store.execute] at h
      cases hselect : Store.select tables s c.params with
      | error e =>
        rw [hselect] at h
        cases h
      | ok result =>
        rw [hselect] at h
        exact (congrArg Prod.snd (Except.ok.inj h)).symm

/-! ## Effects on the log alone -/

namespace LocalStore

/-- A store of tables with an empty log. -/
def fresh (tables : Tables) : LocalStore := { database := { tables } }

/-- A store with further commands in its log. -/
def logged (store : LocalStore) (sent : List Command) : LocalStore :=
  { store with
    database := { store.database with log := store.database.log ++ sent } }

variable {store : LocalStore}

@[simp]
theorem tables_logged (sent : List Command) :
    (store.logged sent).database.tables = store.database.tables := rfl

@[simp]
theorem tables_fresh (tables : Tables) :
    (fresh tables).database.tables = tables := rfl

@[simp]
theorem log_fresh (tables : Tables) : (fresh tables).database.log = [] := rfl

@[simp]
theorem log_logged (sent : List Command) :
    (store.logged sent).database.log = store.database.log ++ sent := rfl

theorem logged_nil : store.logged [] = store := by
  rw [logged, List.append_nil]

theorem logged_append (first second : List Command) :
    (store.logged first).logged second = store.logged (first ++ second) := by
  simp [logged]

end LocalStore

namespace Effect

open LocalStore

variable {α β : Type} {x : Effect LocalStore α} {f : α → Effect LocalStore β}
  {a : α} {store : LocalStore} {tables : Tables}

/-- What an effect gives on tables. -/
def answer (x : Effect LocalStore α) (tables : Tables) : Except MappingError α :=
  (x (fresh tables)).1

/-- The commands that an effect sends to tables. -/
def sent (x : Effect LocalStore α) (tables : Tables) : List Command :=
  (x (fresh tables)).2.database.log

/-- An effect whose value and commands depend on the tables alone, which changes
nothing but the log, and whose values have a property. -/
structure Reads (x : Effect LocalStore α) (property : α → Prop) : Prop where
  run : ∀ store, x store =
    (answer x store.database.tables, store.logged (sent x store.database.tables))
  value : ∀ tables a, answer x tables = .ok a → property a

variable {property : α → Prop} {next : β → Prop}

theorem reads_of_forall (outcome : Tables → Except MappingError α)
    (commands : Tables → List Command)
    (h : ∀ store, x store = (outcome store.database.tables,
        store.logged (commands store.database.tables)))
    (hvalue : ∀ tables a, outcome tables = .ok a → property a) :
    Reads x property where
  run store := by
    rw [answer, sent, h (fresh store.database.tables), h store]
    simp
  value tables a ha := by
    rw [answer, h (fresh tables)] at ha
    exact hvalue tables a ha

theorem reads_pure (h : property a) : Reads (pure a) property :=
  reads_of_forall (fun _ => .ok a) (fun _ => [])
    (fun store => by rw [logged_nil]; rfl) fun _ _ heq => Except.ok.inj heq ▸ h

theorem reads_orThrow (result : Except MappingError α) :
    Reads (orThrow result) fun _ => True :=
  reads_of_forall (fun _ => result) (fun _ => [])
    (fun store => by rw [logged_nil]; rfl) fun _ _ _ => trivial

/-- What a sequence of effects that read gives on tables. -/
def answerThen (x : Effect LocalStore α) (f : α → Effect LocalStore β)
    (tables : Tables) : Except MappingError β × List Command :=
  match answer x tables with
  | .ok a => (answer (f a) tables, sent x tables ++ sent (f a) tables)
  | .error e => (.error e, sent x tables)

theorem Reads.bind (hx : Reads x property)
    (hf : ∀ a, property a → Reads (f a) next) : Reads (x >>= f) next := by
  refine reads_of_forall (fun tables => (answerThen x f tables).1)
    (fun tables => (answerThen x f tables).2) (fun store => ?_)
    fun tables b hb => ?_
  · rw [bind_apply, hx.run store, answerThen]
    cases ha : answer x store.database.tables with
    | error e => rfl
    | ok a =>
      dsimp only
      rw [(hf a (hx.value _ a ha)).run, logged_append]
      rfl
  · rw [answerThen] at hb
    cases ha : answer x tables with
    | error e =>
      rw [ha] at hb
      cases hb
    | ok a =>
      rw [ha] at hb
      exact (hf a (hx.value _ a ha)).value tables b hb

end Effect

/-! ## Resolving relations -/

/-- Related records without relations of their own. -/
def Related.Bare (related : Related Record) : Prop :=
  ∀ child ∈ related.toList, child.relations = ∅

namespace Session

open Effect

variable {s : Session LocalStore}

theorem reads_selectRows (hlocal : s.backend.execute = LocalStore.execute)
    (q : Intent) : Reads (s.selectRows q) fun _ => True := by
  cases hc : s.grammar.select q with
  | error e =>
    refine reads_of_forall (fun _ => .error (.compile e)) (fun _ => [])
      (fun store => ?_) fun _ _ _ => trivial
    rw [LocalStore.logged_nil, selectRows, hc]
    exact bind_error rfl
  | ok c =>
    refine reads_of_forall
      (fun tables => ((Database.evaluate tables c).mapError fun e =>
        .execution .select e.toBackendError).map fun result => result.1.rows)
      (fun _ => [c]) (fun store => ?_) fun _ _ _ => trivial
    have hrun : s.run .select c store =
        (((Database.evaluate store.database.tables c).mapError fun e => .execution
            .select e.toBackendError).map Prod.fst, store.logged [c]) := by
      rw [run, hlocal]
      simp only [LocalStore.execute, Database.run]
      cases hevaluate : Database.evaluate store.database.tables c with
      | error e => rfl
      | ok result =>
        obtain ⟨set, after⟩ := result
        obtain rfl := Database.tables_of_evaluate hc hevaluate
        rfl
    rw [selectRows, bind_compiled hc, bind_apply, hrun]
    cases Database.evaluate store.database.tables c <;> rfl

theorem reads_selectRecords (hlocal : s.backend.execute = LocalStore.execute)
    (e : EntityType) (q : Intent) :
    Reads (s.selectRecords e q) fun records => ∀ r ∈ records, r.relations = ∅ := by
  refine (reads_selectRows hlocal q).bind fun rows _ => reads_pure fun r hr => ?_
  obtain ⟨row, -, rfl⟩ := List.mem_map.mp hr
  rfl

theorem reads_fetch (hlocal : s.backend.execute = LocalStore.execute)
    (e : EntityType) (q : Intent) (many : Bool) :
    Reads (s.fetch e q many) Related.Bare := by
  unfold fetch
  cases many with
  | true =>
    exact (reads_selectRecords hlocal e _).bind fun records h => reads_pure h
  | false =>
    refine (reads_selectRecords hlocal e _).bind
      fun records h => reads_pure fun r hr => ?_
    exact h r (List.mem_of_head? (Option.mem_toList.mp hr))

theorem reads_resolveDirect (hlocal : s.backend.execute = LocalStore.execute)
    (parent : Record) (name related : String) (relation : Relation) :
    Reads (s.resolveDirect parent name related relation) Related.Bare := by
  refine (reads_orThrow _).bind fun entity _ => ?_
  cases s.constrain parent name relation (.new entity.table) with
  | some q => exact reads_fetch hlocal entity q _
  | none =>
    refine reads_pure ?_
    cases relation.isMany <;> exact List.forall_mem_nil _

theorem reads_resolveMorphTo (hlocal : s.backend.execute = LocalStore.execute)
    (parent : Record) (name : String) (morph : MorphTo) :
    Reads (s.resolveMorphTo parent name morph) Related.Bare := by
  unfold resolveMorphTo
  cases ownerTag? parent morph with
  | none => exact reads_pure (List.forall_mem_nil _)
  | some tag =>
    dsimp only
    cases (parent.bound? morph.morphId).isNone with
    | true => exact reads_pure (List.forall_mem_nil _)
    | false =>
      exact (reads_orThrow _).bind
        fun related _ => reads_resolveDirect hlocal parent name related _

theorem reads_resolveInTwo (hlocal : s.backend.execute = LocalStore.execute)
    (p : Pivot) (related : EntityType) (key : Value) :
    Reads (s.resolveInTwo p related key) Related.Bare := by
  refine (reads_selectRows hlocal _).bind fun rows _ => ?_
  dsimp only
  cases (p.relatedIds rows).isEmpty with
  | true => exact reads_pure (List.forall_mem_nil _)
  | false =>
    refine (reads_selectRecords hlocal related _).bind
      fun records h => reads_pure fun r hr => ?_
    obtain ⟨record, hrecord, rfl⟩ := List.mem_map.mp hr
    rw [← h record hrecord]
    unfold attachPivotRow
    cases record.bound? p.table.relatedKey with
    | none => rfl
    | some id =>
      dsimp only
      split <;> rfl

theorem reads_resolvePivot (hlocal : s.backend.execute = LocalStore.execute)
    (p : Pivot) : Reads (s.resolvePivot p) Related.Bare := by
  unfold resolvePivot
  cases p.parentKey? with
  | none => exact reads_pure (List.forall_mem_nil _)
  | some key =>
    refine (reads_orThrow _).bind fun related _ => ?_
    cases s.backend.supportsJoins with
    | true =>
      refine (reads_selectRows hlocal _).bind
        fun rows _ => reads_pure fun r hr => ?_
      obtain ⟨row, -, rfl⟩ := List.mem_map.mp hr
      rfl
    | false => exact reads_resolveInTwo hlocal p related key

/-- To resolve a relation changes nothing but the log, and gives bare records. -/
theorem reads_resolve (hlocal : s.backend.execute = LocalStore.execute)
    (parent : Record) (name : String) :
    Reads (s.resolve parent name) Related.Bare := by
  refine (reads_orThrow _).bind fun relation _ => ?_
  cases relation with
  | ownsOne owns => exact reads_resolveDirect hlocal parent name _ _
  | ownsMany owns => exact reads_resolveDirect hlocal parent name _ _
  | belongsTo belongs => exact reads_resolveDirect hlocal parent name _ _
  | belongsToMany table => exact reads_resolvePivot hlocal _
  | morphOne morph => exact reads_resolveDirect hlocal parent name _ _
  | morphMany morph => exact reads_resolveDirect hlocal parent name _ _
  | morphTo morph => exact reads_resolveMorphTo hlocal parent name morph

/-- A relation depends on the entity and the attributes of its parent. -/
theorem resolve_congr {σ : Type} (s : Session σ) {parent other : Record}
    (hentity : other.entity = parent.entity)
    (hattributes : other.attributes = parent.attributes) (name : String) :
    s.resolve other name = s.resolve parent name := by
  obtain ⟨entity, attributes, baseline, dirty, stored, relations⟩ := parent
  obtain ⟨entity', attributes', baseline', dirty', stored', relations'⟩ := other
  obtain rfl : entity' = entity := hentity
  obtain rfl : attributes' = attributes := hattributes
  rfl

end Session

end EntityMapper
