import EntityMapper.Proofs.Session.FailedLoad
import EntityMapper.Proofs.Session.JoinedPivot
import EntityMapper.Proofs.Session.Persistence

/-!
# Commands that a session builds itself

A session that stores a record or reads and changes a relation builds the
intents itself, so one expects each of them to compile. On any backend and in
either dialect all of them do, with one exception by design. Whether a
many-to-many relation is read with a join is decided by what the backend can do,
and what compiles by the dialect; a session of the partitioned dialect over a
backend with joins asks for a join that its grammar refuses. Such a read is a
`RefusedRead`. Loading paths stops at the first one it comes to, and nothing
else keeps it from compiling.

About one save nothing is said here: that of a stored and changed record which
is clean again once the time of change has been written into it. `TurnsClean`
says which these are.

An effect can fail in many ways, and what counts here is only that it does not
end with a command that could not be compiled. That is passed on through
sequences (`Compiles.bind`), so each operation is followed along its own
definition, and each intent is looked at where it is built.
-/

namespace EntityMapper

/-- A query that every dialect can express. -/
structure Intent.Plain (q : Intent) : Prop where
  joins : q.joins = []
  havings : q.havings = []
  offset : q.offset = none

namespace Intent.Plain

variable {q : Intent}

theorem whereEq (h : q.Plain) (column : String) (value : Value) :
    (q.whereEq column value).Plain :=
  ⟨h.joins, h.havings, h.offset⟩

theorem withLimit (h : q.Plain) (limit : UInt64) : (q.withLimit limit).Plain :=
  ⟨h.joins, h.havings, h.offset⟩

theorem allowingFiltering (h : q.Plain) (allowed : Bool) :
    (if allowed then q.allowingFiltering else q).Plain := by
  cases allowed with
  | true => exact ⟨h.joins, h.havings, h.offset⟩
  | false => exact h

end Intent.Plain

/-- What an effect ends with is not a command that could not be compiled. -/
def Compiles {α : Type} (outcome : Except MappingError α) : Prop :=
  ∀ e, outcome ≠ .error (.compile e)

/-- Whatever the state, an effect does not end with a command that could not be
compiled. -/
def Effect.AlwaysCompiles {σ α : Type} (x : Effect σ α) : Prop :=
  ∀ state, Compiles (x state).1

section

variable {σ α β : Type} {x : Effect σ α} {f : α → Effect σ β} {state : σ}

open Effect

theorem compiles_ok (a : α) : Compiles (.ok a) := nofun

theorem Compiles.error {e : MappingError}
    (h : Compiles (.error e : Except MappingError α)) :
    Compiles (.error e : Except MappingError β) :=
  fun c heq => h c (congrArg Except.error (Except.error.inj heq))

theorem compiles_compiled {c : Except CompileError α} (h : ∃ a, c = .ok a) :
    Compiles (compiled c) := by
  obtain ⟨a, rfl⟩ := h
  exact compiles_ok a

theorem Compiles.map (h : Compiles (x state).1) (g : α → β) :
    Compiles ((x state).1.map g) := by
  cases hrun : (x state).1 with
  | ok a => exact compiles_ok (g a)
  | error e => exact (hrun ▸ h).error

/-- The error of a sequence is that of its first part, or that of its second
where it is run. -/
theorem error_of_bind {e : MappingError} (h : ((x >>= f) state).1 = .error e) :
    (x state).1 = .error e ∨
      ∃ a next, x state = (.ok a, next) ∧ (f a next).1 = .error e := by
  rcases hrun : x state with ⟨fault | a, next⟩
  · rw [bind_error hrun] at h
    cases h
    exact .inl rfl
  · rw [bind_ok hrun] at h
    exact .inr ⟨a, next, rfl, h⟩

theorem Compiles.bind (hx : Compiles (x state).1)
    (hf : ∀ a next, x state = (.ok a, next) → Compiles (f a next).1) :
    Compiles ((x >>= f) state).1 := by
  intro e herror
  rcases error_of_bind herror with hfirst | ⟨a, next, hrun, hsecond⟩
  · exact hx e hfirst
  · exact hf a next hrun e hsecond

/-- An effect that ends with one compile error if a condition holds, and with
none otherwise. -/
theorem compile_iff {condition : Prop} {refusal : CompileError}
    (hrefused : condition → (x state).1 = .error (.compile refusal))
    (hcompiles : ¬condition → Compiles (x state).1) (e : CompileError) :
    (x state).1 = .error (.compile e) ↔ condition ∧ e = refusal := by
  constructor
  · intro herror
    by_cases h : condition
    · cases herror.symm.trans (hrefused h)
      exact ⟨h, rfl⟩
    · exact absurd herror (hcompiles h e)
  · rintro ⟨h, rfl⟩
    exact hrefused h

namespace Effect

theorem AlwaysCompiles.bind (hx : AlwaysCompiles x)
    (hf : ∀ a, AlwaysCompiles (f a)) : AlwaysCompiles (x >>= f) :=
  fun state => (hx state).bind fun a next _ => hf a next

theorem alwaysCompiles_pure (a : α) : AlwaysCompiles (pure a : Effect σ α) :=
  fun _ => compiles_ok a

theorem alwaysCompiles_orThrow {result : Except MappingError α}
    (h : Compiles result) : AlwaysCompiles (orThrow result : Effect σ α) :=
  fun _ => h

/-- An effect that begins with a command that can be compiled. -/
theorem alwaysCompiles_command {result : Except CompileError α}
    (h : ∃ a, result = .ok a) (hf : ∀ a, AlwaysCompiles (f a)) :
    AlwaysCompiles (orThrow (compiled result) >>= f) :=
  (alwaysCompiles_orThrow (compiles_compiled h)).bind hf

theorem AlwaysCompiles.map (h : AlwaysCompiles x) (g : α → β) :
    AlwaysCompiles (g <$> x) :=
  fun state => by
    rw [map_apply]
    exact (h state).map g

end Effect

end

namespace Session

open Effect PathGroup Related

variable {σ : Type} {s : Session σ} {r : Record} {q : Intent} {state : σ}

theorem alwaysCompiles_run (s : Session σ) (operation : Operation) (c : Command) :
    AlwaysCompiles (s.run operation c) := by
  intro state
  rw [run]
  rcases s.backend.execute c state with ⟨_ | _, _⟩ <;>
    intro e herror <;> cases herror

theorem compiles_entity (s : Session σ) (name : String) :
    Compiles (s.entity name) := by
  unfold entity
  split <;> exact nofun

theorem alwaysCompiles_selectRows (h : q.Plain) (s : Session σ) :
    AlwaysCompiles (s.selectRows q) :=
  alwaysCompiles_command (Grammar.exists_select h.joins h.havings h.offset) fun c =>
    (s.alwaysCompiles_run .select c).bind fun _ => alwaysCompiles_pure _

theorem alwaysCompiles_selectRecords (h : q.Plain) (s : Session σ)
    (entity : EntityType) : AlwaysCompiles (s.selectRecords entity q) :=
  (alwaysCompiles_selectRows h s).bind fun _ => alwaysCompiles_pure _

/-! ## Storing records -/

theorem compiles_set (r : Record) (key : String) (value : Value) :
    Compiles (r.set key value) := by
  unfold Record.set Record.storedForm
  dsimp only
  split
  · next cast _ => cases cast.set _ <;> exact nofun
  · exact compiles_ok _

theorem compiles_forceFill (r : Record) (pairs : Pairs) :
    Compiles (r.forceFill pairs).1 := by
  induction pairs generalizing r with
  | nil => exact compiles_ok ()
  | cons pair rest ih =>
    rw [Record.forceFill]
    split
    · exact ih _
    · next e hset => exact (hset ▸ compiles_set r pair.1 pair.2).error

theorem forceFill_attributes_ne_nil (h : r.attributes.toList ≠ []) (pairs : Pairs) :
    (r.forceFill pairs).2.attributes.toList ≠ [] := by
  induction pairs generalizing r with
  | nil => exact h
  | cons pair rest ih =>
    rw [Record.forceFill]
    split
    · next written hset =>
      obtain ⟨value, rfl⟩ := Record.set_eq_ok hset
      have hwritten := Record.raw?_put_self r pair.1 value
      exact ih (NameMap.toList_ne_nil (Option.isSome_of_eq_some hwritten))
    · exact h

theorem compiles_stamp (s : Session σ) (r : Record) (state : σ) :
    Compiles (s.stamp (r, state)).1 := by
  rw [stamp_apply]
  exact compiles_forceFill r _

theorem stamp_attributes_ne_nil {d : Record} {next : σ}
    (hstamp : s.stamp (r, state) = (.ok (), d, next))
    (h : r.attributes.toList ≠ []) : d.attributes.toList ≠ [] := by
  rw [stamp_apply] at hstamp
  obtain ⟨-, hleft⟩ := Prod.mk.inj hstamp
  exact (Prod.mk.inj hleft).1 ▸ forceFill_attributes_ne_nil h _

/-- The command for the record at hand is the only one that is sent. -/
theorem compiles_send {operation : Operation}
    {command : Record → Except MappingError Command} (h : Compiles (command r))
    (s : Session σ) (f : Record → Record) (state : σ) :
    Compiles (s.send operation command f (r, state)).1 := by
  rw [send_apply]
  split
  · next e he => exact (he ▸ h).error
  · split <;> exact nofun

theorem compiles_stamp_send {operation : Operation}
    {command : Record → Except MappingError Command} {f : Record → Record}
    (h : ∀ d next, s.stamp (r, state) = (.ok (), d, next) → Compiles (command d)) :
    Compiles ((s.stamp >>= fun _ => s.send operation command f) (r, state)).1 := by
  refine (s.compiles_stamp r state).bind ?_
  rintro _ ⟨d, next⟩ hstamp
  exact compiles_send (h d next hstamp) s f next

theorem compiles_persistedKey (r : Record) : Compiles (persistedKey r) := by
  unfold persistedKey
  split
  · exact compiles_ok _
  · split <;> exact nofun

theorem compiles_insertion (h : r.attributes.toList ≠ []) (s : Session σ) :
    Compiles (s.insertion r) := compiles_compiled (Grammar.exists_insert h rfl)

theorem changes_ne_nil (h : r.isDirty = true) : r.changes ≠ [] := by
  intro hnil
  rw [Record.changes, NameMap.keys, List.map_map, List.map_eq_nil_iff] at hnil
  rw [Record.isDirty, NameMap.isEmpty, hnil] at h
  cases h

theorem compiles_modification (h : r.isDirty = true) (s : Session σ) :
    Compiles (s.modification r) := by
  unfold modification
  cases hkey : persistedKey r with
  | error e => exact (hkey ▸ compiles_persistedKey r).error
  | ok key => exact compiles_compiled (Grammar.exists_update (changes_ne_nil h) rfl)

theorem compiles_deletion (s : Session σ) (r : Record) :
    Compiles (s.deletion r) := by
  unfold deletion
  cases hkey : persistedKey r with
  | error e => exact (hkey ▸ compiles_persistedKey r).error
  | ok key =>
    exact compiles_compiled
      (Grammar.exists_delete (q := rowIntent r.entity key) rfl)

/-- A stored and changed record is clean once the time of change has been
written into it. -/
def TurnsClean (s : Session σ) (r : Record) (state : σ) : Prop :=
  r.stored = true ∧ r.isDirty = true ∧
    ∃ d next, s.stamp (r, state) = (.ok (), d, next) ∧ d.isDirty = false

theorem compiles_save (h : ¬s.TurnsClean r state) :
    Compiles (s.save (r, state)).1 := by
  cases hstored : r.stored with
  | true =>
    cases hdirty : r.isDirty with
    | false =>
      rw [save_clean hdirty hstored]
      exact compiles_ok ()
    | true =>
      rw [save_dirty hdirty hstored]
      -- An update needs a change that is left once the time has been written.
      refine compiles_stamp_send fun d next hstamp => compiles_modification ?_ s
      by_contra hclean
      exact h ⟨hstored, hdirty, d, next, hstamp, Bool.eq_false_iff.mpr hclean⟩
  | false =>
    cases hkey : r.key?.isNone with
    | true =>
      rw [save_keyless hkey hstored]
      exact nofun
    | false =>
      -- An insertion needs an attribute, and there is at least the key.
      have hsome : (r.raw? r.entity.primaryKey).isSome = true := by
        by_contra hnone
        rw [Record.key?, Record.bound?,
          Option.not_isSome_iff_eq_none.mp hnone] at hkey
        cases hkey
      rw [save_new hkey hstored]
      exact compiles_stamp_send fun d next hstamp =>
        compiles_insertion
          (stamp_attributes_ne_nil hstamp (NameMap.toList_ne_nil hsome)) s

theorem compiles_delete (s : Session σ) (r : Record) (state : σ) :
    Compiles (s.delete (r, state)).1 := by
  cases hstored : r.stored with
  | true =>
    rw [delete_stored hstored]
    exact compiles_send (s.compiles_deletion r) s _ state
  | false =>
    rw [delete_unstored hstored]
    exact compiles_ok ()

theorem compiles_refresh (s : Session σ) (r : Record) (state : σ) :
    Compiles (s.refresh (r, state)).1 := by
  rw [refresh_apply]
  cases hkey : persistedKey r with
  | error e => exact (hkey ▸ compiles_persistedKey r).error
  | ok key =>
    have hplain : (rowIntent r.entity key).Plain := ⟨rfl, rfl, rfl⟩
    have hread := alwaysCompiles_selectRows (hplain.withLimit 1) s state
    dsimp only
    rcases hrun : s.selectRows ((rowIntent r.entity key).withLimit 1) state with
      ⟨e | rows, after⟩
    · rw [hrun] at hread
      exact hread.error
    · cases rows with
      | nil => exact nofun
      | cons row rest => exact compiles_ok ()

/-! ## Changing many-to-many relations -/

section

variable (s : Session σ) (p : Pivot)

theorem alwaysCompiles_requireKey (action : RelationAction) :
    AlwaysCompiles (orThrow (requireKey p action) : Effect σ Value) := by
  refine alwaysCompiles_orThrow ?_
  unfold requireKey
  split <;> exact nofun

theorem alwaysCompiles_pivotRows (key : Value) :
    AlwaysCompiles (s.pivotRows p key) := by
  refine alwaysCompiles_selectRows ?_ s
  rw [Pivot.intent, Intent.whereAll_eq]
  split <;> exact ⟨rfl, rfl, rfl⟩

theorem alwaysCompiles_currentIds : AlwaysCompiles (s.currentIds p) := by
  unfold currentIds
  split
  · exact alwaysCompiles_pure []
  · exact (s.alwaysCompiles_pivotRows p _).bind fun _ => alwaysCompiles_pure _

theorem alwaysCompiles_insertPivot (key id : Value) (extra : Pairs) :
    AlwaysCompiles (s.insertPivot p key id extra) :=
  alwaysCompiles_command
    (Grammar.exists_insert (pivotValues_ne_nil p key id extra) rfl)
    fun c => (s.alwaysCompiles_run .insert c).map _

theorem alwaysCompiles_insertPivots (key : Value) (extra : Pairs)
    (ids : List Value) : AlwaysCompiles (s.insertPivots p key extra ids) := by
  induction ids with
  | nil => exact alwaysCompiles_pure ()
  | cons id rest ih =>
    exact (s.alwaysCompiles_insertPivot p key id extra).bind fun _ => ih

theorem alwaysCompiles_deletePivotRows {q : Intent} (h : q.selection.names = []) :
    AlwaysCompiles (s.deletePivotRows q) :=
  alwaysCompiles_command (Grammar.exists_delete h) fun c =>
    (s.alwaysCompiles_run .delete c).bind fun _ => alwaysCompiles_pure _

theorem selection_intent (key : Value) : (p.intent key).selection.names = [] := by
  rw [Pivot.intent, Intent.whereAll_eq]
  rfl

theorem ttl_intent (key : Value) : (p.intent key).ttl = none := by
  rw [Pivot.intent, Intent.whereAll_eq]
  rfl

theorem alwaysCompiles_deletePivot (key : Value) (ids : List Value) :
    AlwaysCompiles (s.deletePivot p key ids) := by
  unfold deletePivot
  split
  · exact alwaysCompiles_pure 0
  · exact s.alwaysCompiles_deletePivotRows (selection_intent p key)

theorem alwaysCompiles_attach (ids : List Value) (extra : Pairs) :
    AlwaysCompiles (s.attach p ids extra) :=
  (alwaysCompiles_requireKey p .attach).bind fun key =>
    s.alwaysCompiles_insertPivots p key extra ids

theorem alwaysCompiles_detach (ids : List Value) :
    AlwaysCompiles (s.detach p ids) :=
  (alwaysCompiles_requireKey p .detach).bind
    fun key => s.alwaysCompiles_deletePivot p key ids

theorem alwaysCompiles_detachAll : AlwaysCompiles (s.detachAll p) :=
  (alwaysCompiles_requireKey p .detach).bind fun key =>
    s.alwaysCompiles_deletePivotRows (selection_intent p key)

theorem alwaysCompiles_updatePivot (id : Value) (values : Pairs) :
    AlwaysCompiles (s.updatePivot p id values) := by
  refine (alwaysCompiles_requireKey p .updatePivot).bind fun key => ?_
  cases hvalues : values.isEmpty with
  | true => exact alwaysCompiles_pure 0
  | false =>
    have hsome : values ≠ [] := List.isEmpty_eq_false_iff.mp hvalues
    have hcommand : ∃ c, s.grammar.update
          ((p.intent key).whereEq p.table.relatedPivotKey id) values =
        .ok c := Grammar.exists_update hsome (ttl_intent p key)
    exact alwaysCompiles_command hcommand fun c =>
      (s.alwaysCompiles_run .update c).bind fun _ => alwaysCompiles_pure _

theorem alwaysCompiles_syncEntries (key : Value) (current requested : List Value)
    (changes : SyncChanges) (entries : List (Value × Pairs)) :
    AlwaysCompiles (s.syncEntries p key current requested changes entries) := by
  induction entries generalizing requested changes with
  | nil => exact alwaysCompiles_pure _
  | cons entry rest ih =>
    obtain ⟨id, extra⟩ := entry
    unfold syncEntries
    split
    · exact ih _ _
    · dsimp only
      split
      · exact (s.alwaysCompiles_insertPivot p key id extra).bind fun _ => ih _ _
      · split
        · exact ((s.alwaysCompiles_updatePivot p id extra).map _).bind
            fun _ => ih _ _
        · exact ih _ _

theorem alwaysCompiles_sync (entries : List (Value × Pairs)) (detaching : Bool) :
    AlwaysCompiles (s.sync p entries detaching) := by
  refine (alwaysCompiles_requireKey p .sync).bind fun key => ?_
  refine (s.alwaysCompiles_currentIds p).bind fun current => ?_
  refine (s.alwaysCompiles_syncEntries p key current [] {} entries).bind ?_
  rintro ⟨requested, changes⟩
  dsimp only
  split
  · exact alwaysCompiles_pure changes
  · split
    · exact alwaysCompiles_pure changes
    · exact ((s.alwaysCompiles_deletePivot p key _).map _).bind
        fun _ => alwaysCompiles_pure _

theorem alwaysCompiles_toggle (ids : List Value) :
    AlwaysCompiles (s.toggle p ids) := by
  refine (alwaysCompiles_requireKey p .toggle).bind fun key => ?_
  refine (s.alwaysCompiles_currentIds p).bind fun current => ?_
  refine ((s.alwaysCompiles_deletePivot p key _).map _).bind fun _ => ?_
  exact (s.alwaysCompiles_insertPivots p key [] _).bind
    fun _ => alwaysCompiles_pure _

end

/-! ## Reading relations -/

section

variable (s : Session σ)

theorem alwaysCompiles_fetch {q : Intent} (h : q.Plain) (related : EntityType)
    (many : Bool) : AlwaysCompiles (s.fetch related q many) := by
  have hq := h.allowingFiltering s.config.allowFiltering
  unfold fetch
  cases many with
  | true =>
    exact (alwaysCompiles_selectRecords hq s related).bind
      fun _ => alwaysCompiles_pure _
  | false =>
    exact (alwaysCompiles_selectRecords (hq.withLimit 1) s related).bind
      fun _ => alwaysCompiles_pure _

theorem plain_constrainOwned {q constrained : Intent} (h : q.Plain)
    (parent : Record) (foreignKey localKey : String)
    (morph : Option (String × String))
    (hq : constrainOwned parent foreignKey localKey morph q = some constrained) :
    constrained.Plain := by
  obtain ⟨key, -, rfl⟩ := Option.map_eq_some_iff.mp hq
  cases morph with
  | none => exact h.whereEq _ _
  | some tag => exact (h.whereEq _ _).whereEq _ _

/-- Only many-to-many relations are read with joins. -/
theorem plain_constrain {q constrained : Intent} (h : q.Plain) {parent : Record}
    {name : String} {relation : Relation}
    (hdirect : ∀ table, relation ≠ .belongsToMany table)
    (hq : s.constrain parent name relation q = some constrained) :
    constrained.Plain := by
  cases relation with
  | ownsOne owns =>
    exact plain_constrainOwned h parent owns.foreignKey owns.localKey none hq
  | ownsMany owns =>
    exact plain_constrainOwned h parent owns.foreignKey owns.localKey none hq
  | morphOne morph =>
    exact plain_constrainOwned h parent morph.morphId morph.localKey
      (some (s.discriminator parent morph)) hq
  | morphMany morph =>
    exact plain_constrainOwned h parent morph.morphId morph.localKey
      (some (s.discriminator parent morph)) hq
  | belongsTo belongs =>
    obtain ⟨key, -, rfl⟩ := Option.map_eq_some_iff.mp hq
    exact h.whereEq _ _
  | morphTo morph =>
    obtain ⟨key, -, rfl⟩ := Option.map_eq_some_iff.mp hq
    exact h.whereEq _ _
  | belongsToMany table => exact absurd rfl (hdirect table)

theorem alwaysCompiles_resolveDirect {relation : Relation}
    (hdirect : ∀ table, relation ≠ .belongsToMany table) (parent : Record)
    (name related : String) :
    AlwaysCompiles (s.resolveDirect parent name related relation) := by
  refine (alwaysCompiles_orThrow (s.compiles_entity related)).bind fun entity => ?_
  split
  · next constrained hq =>
    have hplain : (Intent.new entity.table).Plain := ⟨rfl, rfl, rfl⟩
    exact s.alwaysCompiles_fetch (s.plain_constrain hplain hdirect hq) entity _
  · exact alwaysCompiles_pure _

theorem compiles_morphEntity (name : String) (morph : MorphTo) (tag : String) :
    Compiles (s.morphEntity name morph tag) := by
  unfold morphEntity
  split
  · exact compiles_ok _
  · dsimp only
    split <;> exact nofun

theorem alwaysCompiles_resolveMorphTo (parent : Record) (name : String)
    (morph : MorphTo) : AlwaysCompiles (s.resolveMorphTo parent name morph) := by
  unfold resolveMorphTo
  cases ownerTag? parent morph with
  | none => exact alwaysCompiles_pure _
  | some tag =>
    dsimp only
    split
    · exact alwaysCompiles_pure _
    · exact (alwaysCompiles_orThrow (s.compiles_morphEntity name morph tag)).bind
          fun related =>
        s.alwaysCompiles_resolveDirect (fun _ => Relation.noConfusion)
          parent name related

theorem alwaysCompiles_resolveInTwo (p : Pivot) (related : EntityType)
    (key : Value) : AlwaysCompiles (s.resolveInTwo p related key) := by
  refine (s.alwaysCompiles_pivotRows p key).bind fun rows => ?_
  dsimp only
  split
  · exact alwaysCompiles_pure _
  · have hplain : ((Intent.new related.table).whereIn p.table.relatedKey
        (p.relatedIds rows)).Plain := ⟨rfl, rfl, rfl⟩
    exact (alwaysCompiles_selectRecords (hplain.allowingFiltering _) s related).bind
      fun _ => alwaysCompiles_pure _

/-- A many-to-many relation that is read with a join in a dialect without joins. -/
structure RefusedPivot (s : Session σ) (p : Pivot) : Prop where
  dialect : s.grammar.dialect = .cql
  joins : s.backend.supportsJoins = true
  parentKey : p.parentKey?.isSome = true
  related : (s.entities.get? p.table.related).isSome = true

/-- A relation of a record that is read with a join in a dialect without joins. -/
def RefusedRead (s : Session σ) (r : Record) (name : String) : Prop :=
  ∃ table, r.declaredRelation name = .ok (.belongsToMany table) ∧
    s.RefusedPivot ⟨r, name, table⟩

theorem resolvePivot_refused {p : Pivot} (h : s.RefusedPivot p) (state : σ) :
    s.resolvePivot p state =
      (.error (.compile (.unsupported .cql .joins)), state) := by
  obtain ⟨key, hkey⟩ := Option.isSome_iff_exists.mp h.parentKey
  obtain ⟨related, hrelated⟩ := Option.isSome_iff_exists.mp h.related
  have hentity : s.entity p.table.related = .ok related := by rw [entity, hrelated]
  have hjoins : (p.joinQuery key related).joins ≠ [] := by
    rw [p.joinQuery_eq]
    exact List.cons_ne_nil _ _
  have hread : s.selectRows (p.joinQuery key related) state =
      (.error (.compile (.unsupported .cql .joins)), state) := by
    rw [selectRows, Grammar.select_joins h.dialect hjoins]
    rfl
  rw [resolvePivot, hkey]
  refine (bind_ok (orThrow_eq_ok.mpr ⟨hentity, rfl⟩)).trans ?_
  rw [h.joins]
  exact bind_error hread

theorem alwaysCompiles_resolvePivot {p : Pivot} (h : ¬s.RefusedPivot p) :
    AlwaysCompiles (s.resolvePivot p) := by
  unfold resolvePivot
  cases hkey : p.parentKey? with
  | none => exact alwaysCompiles_pure _
  | some key =>
    dsimp only
    cases hrelated : s.entities.get? p.table.related with
    | none =>
      rw [entity, hrelated]
      exact fun _ => nofun
    | some related =>
      refine (alwaysCompiles_orThrow (s.compiles_entity _)).bind fun related => ?_
      cases hjoins : s.backend.supportsJoins with
      | false => exact s.alwaysCompiles_resolveInTwo p related key
      | true =>
        cases hdialect : s.grammar.dialect with
        | cql =>
          exact absurd
            ⟨hdialect, hjoins, by rw [hkey]; rfl, by rw [hrelated]; rfl⟩ h
        | sql =>
          refine AlwaysCompiles.bind ?_ fun rows => alwaysCompiles_pure _
          exact alwaysCompiles_command
              (Grammar.exists_select_sql hdialect _) fun c =>
            (s.alwaysCompiles_run .select c).bind fun _ => alwaysCompiles_pure _

theorem resolve_refused {r : Record} {name : String}
    (h : s.RefusedRead r name) (state : σ) :
    s.resolve r name state =
      (.error (.compile (.unsupported .cql .joins)), state) := by
  obtain ⟨table, hdeclared, hpivot⟩ := h
  rw [resolve, hdeclared]
  exact resolvePivot_refused s hpivot state

theorem compiles_declaredRelation (r : Record) (name : String) :
    Compiles (r.declaredRelation name) := by
  unfold Record.declaredRelation
  split <;> exact nofun

theorem alwaysCompiles_resolve {r : Record} {name : String}
    (h : ¬s.RefusedRead r name) : AlwaysCompiles (s.resolve r name) := by
  intro state
  refine (compiles_declaredRelation r name).bind fun relation next hrun => ?_
  obtain ⟨hdeclared, rfl⟩ := orThrow_eq_ok.mp hrun
  cases relation with
  | ownsOne owns =>
    exact s.alwaysCompiles_resolveDirect (fun _ => Relation.noConfusion)
      r name _ state
  | ownsMany owns =>
    exact s.alwaysCompiles_resolveDirect (fun _ => Relation.noConfusion)
      r name _ state
  | belongsTo belongs =>
    exact s.alwaysCompiles_resolveDirect (fun _ => Relation.noConfusion)
      r name _ state
  | morphOne morph =>
    exact s.alwaysCompiles_resolveDirect (fun _ => Relation.noConfusion)
      r name _ state
  | morphMany morph =>
    exact s.alwaysCompiles_resolveDirect (fun _ => Relation.noConfusion)
      r name _ state
  | belongsToMany table =>
    exact s.alwaysCompiles_resolvePivot
      (fun hpivot => h ⟨table, hdeclared, hpivot⟩) state
  | morphTo morph => exact s.alwaysCompiles_resolveMorphTo r name morph state

theorem resolve_compile_iff (r : Record) (name : String) (state : σ)
    (e : CompileError) :
    (s.resolve r name state).1 = .error (.compile e) ↔
      s.RefusedRead r name ∧ e = .unsupported .cql .joins :=
  compile_iff (fun h => congrArg Prod.fst (s.resolve_refused h state))
    (fun h => s.alwaysCompiles_resolve h state) e

end

/-! ## Loading paths -/

/-- Loading paths onto some records may come to read a relation of a record: the
first name of a path is read of the records themselves, and what follows it of
the records that this gives. -/
inductive Reaches (s : Session σ) (r : Record) (name : String) :
    List String → List Record → Prop
  | here {paths : List String} {records : List Record} {group : PathGroup}
      (hgroup : group ∈ ofPaths paths) (hname : group.head = name)
      (hr : r ∈ records) : Reaches s r name paths records
  | under {paths : List String} {records : List Record} {group : PathGroup}
      {d : Record} {related : Related Record} {state next : σ}
      (hgroup : group ∈ ofPaths paths) (hd : d ∈ records)
      (hread : s.resolve d group.head state = (.ok related, next))
      (hunder : Reaches s r name group.tails related.toList) :
      Reaches s r name paths records

/-- What is reached from the results of several reads is reached from one of
them. -/
theorem Reaches.of_flatMap {name : String} {paths : List String}
    {results : List (Related Record)}
    (h : s.Reaches r name paths (results.flatMap toList)) :
    ∃ related ∈ results, s.Reaches r name paths related.toList := by
  cases h with
  | here hgroup hname hr =>
    obtain ⟨related, hrelated, hr⟩ := List.mem_flatMap.mp hr
    exact ⟨related, hrelated, .here hgroup hname hr⟩
  | under hgroup hd hread hunder =>
    obtain ⟨related, hrelated, hd⟩ := List.mem_flatMap.mp hd
    exact ⟨related, hrelated, .under hgroup hd hread hunder⟩

theorem exists_resolve_of_mem {name : String} {records : List Record}
    {results : List (Related Record)} {next : σ}
    (h : s.resolveAll name records state = (.ok results, next))
    {related : Related Record} (hrelated : related ∈ results) :
    ∃ d ∈ records,
      ∃ before after, s.resolve d name before = (.ok related, after) := by
  induction records generalizing results state next with
  | nil =>
    obtain ⟨rfl, -⟩ := pure_eq_ok.mp h
    cases hrelated
  | cons d rest ih =>
    obtain ⟨first, mid, hfirst, hrest⟩ := bind_eq_ok.mp h
    obtain ⟨more, last, hmore, hpure⟩ := bind_eq_ok.mp hrest
    obtain ⟨rfl, -⟩ := pure_eq_ok.mp hpure
    rcases List.mem_cons.mp hrelated with rfl | hrelated
    · exact ⟨d, List.mem_cons_self .., state, mid, hfirst⟩
    · obtain ⟨d', hd', hread⟩ := ih hmore hrelated
      exact ⟨d', List.mem_cons_of_mem _ hd', hread⟩

theorem resolveAll_compile {name : String} {records : List Record}
    {e : CompileError}
    (h : (s.resolveAll name records state).1 = .error (.compile e)) :
    ∃ d ∈ records, s.RefusedRead d name ∧ e = .unsupported .cql .joins := by
  induction records generalizing state with
  | nil => cases h
  | cons d rest ih =>
    rcases error_of_bind h with hfirst | ⟨related, next, -, hrest⟩
    · exact ⟨d, List.mem_cons_self ..,
        (s.resolve_compile_iff d name state e).mp hfirst⟩
    · rcases error_of_bind hrest with hmore | ⟨_, _, -, hpure⟩
      · obtain ⟨d', hd', hrefused⟩ := ih hmore
        exact ⟨d', List.mem_cons_of_mem _ hd', hrefused⟩
      · cases hpure

/-- The read of a relation on which loading some paths stops. -/
def StopsAt (s : Session σ) (paths : List String) (records : List Record)
    (e : CompileError) : Prop :=
  e = .unsupported .cql .joins ∧
    ∃ r name, s.Reaches r name paths records ∧ s.RefusedRead r name

theorem SameRow.resolve_eq {d : Record} (h : SameRow r d) (s : Session σ)
    (name : String) : s.resolve d name = s.resolve r name :=
  s.resolve_congr (by rw [h]) (by rw [h]) name

/-- Every record has the row of one of the given ones. -/
def RowsAmong (records held : List Record) : Prop :=
  ∀ d ∈ held, ∃ r ∈ records, SameRow r d

theorem RowsAmong.trans {records held after : List Record}
    (h : RowsAmong records held) (hnext : RowsAmong held after) :
    RowsAmong records after := by
  intro d hd
  obtain ⟨mid, hmid, hrow⟩ := hnext d hd
  obtain ⟨r, hr, hfirst⟩ := h mid hmid
  exact ⟨r, hr, hfirst.trans hrow⟩

theorem Marked.rowsAmong {name : String} {loaded : Bool} {held after : List Record}
    (h : Marked name loaded held after) : RowsAmong held after := by
  induction h with
  | nil => exact List.forall_mem_nil _
  | @cons r d rest others hr _ ih =>
    refine List.forall_mem_cons.mpr ⟨⟨r, List.mem_cons_self .., hr.1⟩,
      fun d' hd' => ?_⟩
    obtain ⟨r', hr', hrow⟩ := ih d' hd'
    exact ⟨r', List.mem_cons_of_mem _ hr', hrow⟩

theorem rowsAmong_of_loadHead {held after : List Record} {group : PathGroup}
    {next : σ} (h : s.loadHead group (held, state) = (.ok (), after, next)) :
    RowsAmong held after := by
  rcases s.loadHead_cases group held state with ⟨after', next', hload, -, hmarked⟩ |
    ⟨e, after', next', hload, -⟩ | ⟨e, next', hload, -⟩
  · cases h.symm.trans hload
    exact hmarked.rowsAmong
  · cases h.symm.trans hload
  · cases h.symm.trans hload

/-- A group stops loading where its head is read, or below. -/
theorem stopsAt_of_loadHead {paths : List String} {records held : List Record}
    {group : PathGroup} {e : CompileError} (hgroup : group ∈ ofPaths paths)
    (hrows : RowsAmong records held)
    (htails : ∀ children state, (s.load group.tails (children, state)).1 =
        .error (.compile e) → s.StopsAt group.tails children e)
    (h : (s.loadHead group (held, state)).1 = .error (.compile e)) :
    s.StopsAt paths records e := by
  rcases hread : s.resolveAll group.head held state with ⟨fault | results, next⟩
  · rw [loadHead, loadGroup_error hread] at h
    cases h
    obtain ⟨d, hd, hrefused, rfl⟩ := resolveAll_compile (congrArg Prod.fst hread)
    obtain ⟨r, hr, hrow⟩ := hrows d hd
    have hstops := s.resolve_refused hrefused state
    rw [hrow.resolve_eq] at hstops
    exact ⟨rfl, r, group.head, .here hgroup rfl hr,
      ((s.resolve_compile_iff r _ state _).mp (congrArg Prod.fst hstops)).1⟩
  · rw [loadHead_apply hread] at h
    rcases hload : s.load group.tails (results.flatMap toList, next) with
      ⟨fault | _, loaded, last⟩
    · rw [hload] at h
      cases h
      obtain ⟨he, r, name, hreaches, hrefused⟩ :=
        htails _ next (congrArg Prod.fst hload)
      obtain ⟨related, hrelated, hunder⟩ := hreaches.of_flatMap
      obtain ⟨d, hd, before, after, hfirst⟩ := exists_resolve_of_mem hread hrelated
      obtain ⟨r', hr', hrow⟩ := hrows d hd
      rw [hrow.resolve_eq] at hfirst
      exact ⟨he, r, name, .under hgroup hr' hfirst hunder, hrefused⟩
    · rw [hload] at h
      cases h

theorem stopsAt_of_loadHeads {paths : List String} {groups : List PathGroup}
    {records held : List Record} {e : CompileError}
    (hgroups : ∀ group ∈ groups, group ∈ ofPaths paths)
    (hrows : RowsAmong records held)
    (htails : ∀ group ∈ groups, ∀ children state,
      (s.load group.tails (children, state)).1 = .error (.compile e) →
        s.StopsAt group.tails children e)
    (h : (groups.forM s.loadHead (held, state)).1 = .error (.compile e)) :
    s.StopsAt paths records e := by
  induction groups generalizing held state with
  | nil => cases h
  | cons group rest ih =>
    obtain ⟨hgroup, hrest⟩ := List.forall_mem_cons.mp hgroups
    obtain ⟨htail, hmore⟩ := List.forall_mem_cons.mp htails
    rcases error_of_bind (x := s.loadHead group)
        (f := fun _ => rest.forM s.loadHead) h with
      hfirst | ⟨_, ⟨after, next⟩, hload, hlater⟩
    · exact stopsAt_of_loadHead hgroup hrows htail hfirst
    · exact ih hrest (hrows.trans (rowsAmong_of_loadHead hload)) hmore hlater

/-- Loading paths fails to compile a command only at a read that it comes to.
The induction is on the length of the paths. -/
theorem stopsAt_of_load {n : Nat} {paths : List String} (hfits : Fits n paths)
    {records : List Record} {e : CompileError}
    (h : (s.load paths (records, state)).1 = .error (.compile e)) :
    s.StopsAt paths records e := by
  induction n generalizing paths records state with
  | zero =>
    rw [hfits.eq_nil, load_nil] at h
    cases h
  | succ n ih =>
    rw [load_eq] at h
    exact stopsAt_of_loadHeads (fun _ => id) (fun r hr => ⟨r, hr, .refl r⟩)
      (fun group hgroup children state => ih (hfits.tails hgroup)) h

/-- The commands that a session builds itself compile, in either dialect and on
any backend, with one exception. To store a record compiles unless the time of
change makes it clean; to delete and to refresh one always does, and so do
reading the attached keys and every change of a many-to-many relation. To read a
relation ends with a command that could not be compiled iff it is a many-to-many
relation that is to be read with a join in a dialect without joins, of a parent
with a key and with a registered related entity. To load paths does so only at
such a read, of a relation that the paths lead to. -/
theorem own_commands_compile (s : Session σ) :
    (∀ r state, ¬s.TurnsClean r state → Compiles (s.save (r, state)).1) ∧
      (∀ r state, Compiles (s.delete (r, state)).1 ∧
        Compiles (s.refresh (r, state)).1) ∧
      (∀ p, AlwaysCompiles (s.currentIds p) ∧
        (∀ ids extra, AlwaysCompiles (s.attach p ids extra)) ∧
        (∀ ids, AlwaysCompiles (s.detach p ids)) ∧ AlwaysCompiles (s.detachAll p) ∧
        (∀ entries detaching, AlwaysCompiles (s.sync p entries detaching)) ∧
        (∀ ids, AlwaysCompiles (s.toggle p ids)) ∧
        ∀ id values, AlwaysCompiles (s.updatePivot p id values)) ∧
      (∀ p state e, (s.resolvePivot p state).1 = .error (.compile e) ↔
        s.RefusedPivot p ∧ e = .unsupported .cql .joins) ∧
      (∀ r name state e, (s.resolve r name state).1 = .error (.compile e) ↔
        s.RefusedRead r name ∧ e = .unsupported .cql .joins) ∧
      ∀ paths records state e, (s.load paths (records, state)).1 =
          .error (.compile e) → s.StopsAt paths records e := by
  refine ⟨fun _ _ => compiles_save,
    fun r state => ⟨s.compiles_delete r state, s.compiles_refresh r state⟩,
    fun p => ?_, fun p state =>
      compile_iff (fun h => congrArg Prod.fst (s.resolvePivot_refused h state))
        fun h => s.alwaysCompiles_resolvePivot h state, s.resolve_compile_iff,
    fun paths _ _ _ => stopsAt_of_load (fits_longest paths)⟩
  exact ⟨s.alwaysCompiles_currentIds p, s.alwaysCompiles_attach p,
    s.alwaysCompiles_detach p, s.alwaysCompiles_detachAll p,
    s.alwaysCompiles_sync p, s.alwaysCompiles_toggle p,
    s.alwaysCompiles_updatePivot p⟩

/-! ### A session of the partitioned dialect over a backend with joins -/

def joiningSession : Session ScriptedStore :=
  (Session.new {} (ScriptedStore.backend true)).register role

def memberType : EntityType where
  name := "User"
  table := "users"
  relations := .ofList [("roles", .belongsToMany userRoles.table)]

/-- A stored user. -/
def member : Record := .hydrate memberType (.ofList [("id", .int 1)])

/-- The user has another name than is stored. -/
def renamedMember : Record := member.put "name" (.text "ada")

/-- A note of whose time of change only the type is kept. -/
def noteType : EntityType where
  name := "Note"
  table := "notes"
  timestamps := true
  transforms := .ofList [(updatedAt, { setter := some Transform.typeName })]

/-- A stored note. -/
def note : Record :=
  .hydrate noteType (.ofList [("id", .int 1), (updatedAt, .text "timestamp")])

theorem refusedRead_member : joiningSession.RefusedRead member "roles" :=
  ⟨userRoles.table, rfl, rfl, rfl, rfl, rfl⟩

/-- The roles of the user cannot be read with a join. And if a number has been
written for the time of change of the note, then to store it puts the stored one
back and leaves nothing to update. -/
theorem own_commands_refused : (joiningSession.resolve member "roles" {}).1 =
      .error (.compile (.unsupported .cql .joins)) ∧
    ∃ touched, note.set updatedAt (.int 5) = .ok touched ∧
      (joiningSession.save (touched, {})).1 =
        .error (.compile (.emptyColumns .update)) :=
  ⟨congrArg Prod.fst (joiningSession.resolve_refused refusedRead_member {}), _,
    rfl, rfl⟩

theorem not_turnsClean_renamedMember (state : ScriptedStore) :
    ¬joiningSession.TurnsClean renamedMember state := by
  rintro ⟨-, -, d, next, hstamp, hclean⟩
  rw [stamp_off rfl] at hstamp
  cases hstamp
  exact absurd hclean (by decide)

theorem own_commands_compile_member :
    Compiles (joiningSession.save (renamedMember, {})).1 ∧
      joiningSession.StopsAt ["roles"] [member] (.unsupported .cql .joins) := by
  obtain ⟨hsave, -, -, -, -, hload⟩ := own_commands_compile joiningSession
  exact ⟨hsave renamedMember {} (not_turnsClean_renamedMember {}),
    hload ["roles"] [member] {} _ (by decide +kernel)⟩

end Session

end EntityMapper
