import EntityMapper.Proofs.Grammar.Placeholders
import EntityMapper.Proofs.Session.JoinedPivot
import EntityMapper.Proofs.Session.StoredRow

/-!
# The pivot attribute of a related record

The records of a many-to-many relation show their pivot row under the accessor.
The attribute is synthetic: the table of the record has no such column. It
stands among the other attributes and in the baseline, and only the set of
changed names is without it. This is enough to keep it out of updates and
deletions, and a record that is read again has lost it. But an insertion takes
all attributes. So a related record that is deleted and then saved again writes
its pivot row into a column of its own table, and this is the only way in which
it does (`Reinserts`).

The proof compares the record with its twin, which has the same row and shows no
pivot row. As long as the attribute is carried and nothing is inserted, the two
send the same commands; and once they have been read again, they are one record.
That no command names the attribute is an invariant of the record alone: the
attribute is never noted as changed.
-/

namespace EntityMapper

/-- A request neither refers to a column nor passes on raw text. -/
structure Request.Avoids (column : String) (q : Intent) (request : Request) :
    Prop where
  columns : column ∉ request.columns q
  predicates : ∀ p ∈ request.predicates q,
    column ∉ p.condition.columns ∧ p.condition.rawText? = none

/-- A backend that notes which commands are sent to it. -/
def Backend.recording {σ : Type} (b : Backend σ) : Backend (σ × List Command) where
  execute command state :=
    let (result, next) := b.execute command state.1
    (result, next, state.2 ++ [command])
  clock state :=
    let (time, next) := b.clock state.1
    (time, next, state.2)
  supportsJoins := b.supportsJoins

/-- The names of the times that an entity type keeps. -/
def EntityType.timeNames (e : EntityType) : List String :=
  if e.timestamps then [createdAt, updatedAt] else []

/-- The attributes that the commands for a record name without being told to. -/
def EntityType.ownNames (e : EntityType) : List String :=
  e.primaryKey :: e.timeNames

namespace Session

open Effect

variable {σ : Type} {s : Session σ} {e : EntityType} {key : String}
  {r d : Record} {state : σ}

/-- The session over a backend that notes which commands are sent to it. -/
def recording (s : Session σ) : Session (σ × List Command) :=
  ⟨s.config, s.grammar, s.entities, s.backend.recording⟩

/-! ## Histories of a record -/

/-- A step writes no attribute of the given name. -/
def Step.Leaves (key : String) : Step → Prop
  | .write name _ => name ≠ key
  | .persist _ => True

/-- Take a step, on any backend. -/
def perform (s : Session σ) : Step → EffectOn Record σ Unit
  | .write name value => write name value
  | .persist op => s.persist op

/-- The record and the state after some steps, whether these succeeded or failed. -/
def performAll (s : Session σ) (steps : List Step) (start : Record × σ) :
    Record × σ :=
  steps.foldl (fun current step => (s.perform step current).2) start

/-- A save that inserts an attribute: the record has no row, and carries the
attribute. -/
def Inserts (key : String) (step : Step) (r : Record) : Prop :=
  step = .persist .save ∧ r.stored = false ∧ (r.raw? key).isSome = true

/-- Among some steps there is a save that inserts an attribute. -/
def Reinserts (s : Session σ) (key : String) : List Step → Record × σ → Prop
  | [], _ => False
  | step :: rest, current =>
    Inserts key step current.1 ∨ s.Reinserts key rest (s.perform step current).2

/-! ## What is sent -/

/-- The requests that are made for the row of a record: to insert, update,
delete or read it. -/
inductive RowRequest (e : EntityType) : Intent → Request → Prop
  | insert (values : Pairs) : RowRequest e (.new e.table) (.insert values)
  | update (id : Value) (values : Pairs) :
      RowRequest e (rowIntent e id) (.update values)
  | delete (id : Value) : RowRequest e (rowIntent e id) .delete
  | read (id : Value) : RowRequest e ((rowIntent e id).withLimit 1) .select

/-- A command that was compiled from a request for a row without reference to a
column. -/
def Unnamed (s : Session σ) (e : EntityType) (key : String) (c : Command) : Prop :=
  ∃ q request, RowRequest e q request ∧ s.grammar.compile q request = .ok c ∧
    request.Avoids key q

/-- Between two states, commands with a property were sent. -/
def Sends (property : Command → Prop) (before after : σ × List Command) : Prop :=
  ∃ sent, after.2 = before.2 ++ sent ∧ ∀ c ∈ sent, property c

section

variable {property : Command → Prop} {before mid after : σ × List Command}

theorem recording_execute (s : Session σ) (c : Command)
    (before : σ × List Command) :
    s.recording.backend.execute c before = ((s.backend.execute c before.1).1,
      (s.backend.execute c before.1).2, before.2 ++ [c]) := rfl

theorem sends_of_eq (h : after.2 = before.2) : Sends property before after :=
  ⟨[], by rw [h, List.append_nil], List.forall_mem_nil _⟩

theorem Sends.trans (h : Sends property before mid)
    (hnext : Sends property mid after) : Sends property before after := by
  obtain ⟨first, hfirst, hgood⟩ := h
  obtain ⟨second, hsecond, hmore⟩ := hnext
  refine ⟨first ++ second, by rw [hsecond, hfirst, List.append_assoc],
    fun c hc => ?_⟩
  exact (List.mem_append.mp hc).elim (hgood c) (hmore c)

theorem sends_send {operation : Operation}
    {command : Record → Except MappingError Command} {f : Record → Record}
    (h : ∀ c, command r = .ok c → property c) (before : σ × List Command) :
    Sends property before
      (s.recording.send operation command f (r, before)).2.2 := by
  rw [send_apply]
  cases hc : command r with
  | error e => exact sends_of_eq rfl
  | ok c =>
    dsimp only
    rw [recording_execute]
    have hone := List.forall_mem_singleton.mpr (h c hc)
    cases (s.backend.execute c before.1).1 <;> exact ⟨[c], rfl, hone⟩

theorem sends_selectRows {q : Intent}
    (h : ∀ c, s.grammar.select q = .ok c → property c) (before : σ × List Command) :
    Sends property before (s.recording.selectRows q before).2 := by
  rw [selectRows, bind_apply, orThrow_apply]
  cases hc : s.recording.grammar.select q with
  | error e => exact sends_of_eq rfl
  | ok c =>
    change Sends _ before
      ((s.recording.run .select c >>= fun result => pure result.rows) before).2
    rw [bind_apply, run, recording_execute]
    have hone := List.forall_mem_singleton.mpr (h c hc)
    cases (s.backend.execute c before.1).1 <;> exact ⟨[c], rfl, hone⟩

end

/-! ## An attribute that is not noted as changed -/

/-- A record of an entity type in which an attribute is not noted as changed. -/
structure Untouched (e : EntityType) (key : String) (r : Record) : Prop where
  entity : r.entity = e
  clean : r.isAttributeDirty key = false

theorem Untouched.of_sameBut {names : List String} (h : Untouched e key r)
    (hkey : key ∉ names) (hsame : SameBut names r d) : Untouched e key d :=
  ⟨hsame.entity.trans h.entity, (hsame.dirty key hkey).trans h.clean⟩

theorem mem_timeNames {pair : String × Value} (h : pair ∈ s.stampPairs r state) :
    pair.1 ∈ r.entity.timeNames := by
  unfold stampPairs at h
  unfold EntityType.timeNames
  cases htimes : r.entity.timestamps with
  | false =>
    rw [htimes] at h
    cases h
  | true =>
    rw [htimes] at h
    exact mem_timesOf h

theorem sameBut_stamp (s : Session σ) (r : Record) (state : σ) :
    SameBut r.entity.timeNames r (s.stamp (r, state)).2.1 := by
  rw [stamp_apply]
  exact sameBut_forceFill (fun _ => mem_timeNames) r

theorem log_stamp (s : Session σ) (r : Record) (before : σ × List Command) :
    (s.recording.stamp (r, before)).2.2.2 = before.2 := by
  rw [stamp_apply]
  dsimp only
  split <;> rfl

/-- Apart from the values that it writes, a request for a row refers to its key
alone. -/
theorem RowRequest.avoids {q : Intent} {request : Request}
    (h : RowRequest e q request) (hkey : key ∉ e.ownNames)
    (hcolumns : key ∉ request.columns q) : request.Avoids key q := by
  have hid : ∀ id, ∀ p ∈ (rowIntent e id).wheres,
      key ∉ p.condition.columns ∧ p.condition.rawText? = none := by
    refine fun id => List.forall_mem_singleton.mpr ⟨fun hmem => hkey ?_, rfl⟩
    exact List.mem_singleton.mp hmem ▸ List.mem_cons_self ..
  refine ⟨hcolumns, ?_⟩
  cases h with
  | insert values => exact List.forall_mem_nil _
  | update id values => exact hid id
  | delete id => exact hid id
  | read id => exact hid id

theorem unnamed_modification (h : Untouched e key r) (hkey : key ∉ e.ownNames)
    {c : Command} (hc : s.modification r = .ok c) : s.Unnamed e key c := by
  unfold modification at hc
  cases hid : persistedKey r with
  | error fault =>
    rw [hid] at hc
    cases hc
  | ok id =>
    rw [hid, h.entity] at hc
    have hupdate : compiled (s.grammar.update (rowIntent e id) r.changes) = .ok c :=
      hc
    have hrequest : RowRequest e (rowIntent e id) (.update r.changes) :=
      .update id r.changes
    refine ⟨_, _, hrequest, compiled_eq_ok.mp hupdate,
      hrequest.avoids hkey fun hmem => ?_⟩
    have hnames : r.changes.map Prod.fst = r.dirty.keys := by
      rw [Record.changes, List.map_map]
      exact List.map_id _
    have hdirty : r.isAttributeDirty key = true :=
      NameMap.contains_iff.mpr (hnames ▸ hmem)
    exact Bool.false_ne_true (h.clean.symm.trans hdirty)

theorem unnamed_deletion (h : r.entity = e) (hkey : key ∉ e.ownNames) {c : Command}
    (hc : s.deletion r = .ok c) : s.Unnamed e key c := by
  unfold deletion at hc
  cases hid : persistedKey r with
  | error fault =>
    rw [hid] at hc
    cases hc
  | ok id =>
    rw [hid, h] at hc
    have hdelete : compiled (s.grammar.delete (rowIntent e id)) = .ok c := hc
    have hrequest : RowRequest e (rowIntent e id) .delete := .delete id
    exact ⟨_, _, hrequest, compiled_eq_ok.mp hdelete,
      hrequest.avoids hkey List.not_mem_nil⟩

theorem unnamed_insertion (h : r.entity = e) (hkey : key ∉ e.ownNames)
    (hraw : r.raw? key = none) {c : Command} (hc : s.insertion r = .ok c) :
    s.Unnamed e key c := by
  rw [insertion, h] at hc
  have hrequest : RowRequest e (.new e.table) (.insert r.attributes.toList) :=
    .insert _
  refine ⟨_, _, hrequest, compiled_eq_ok.mp hc, hrequest.avoids hkey fun hmem => ?_⟩
  have hsome : (r.raw? key).isSome = true := NameMap.lookup_isSome_iff.mpr hmem
  rw [hraw] at hsome
  cases hsome

theorem unnamed_reading (hkey : key ∉ e.ownNames) {id : Value} {c : Command}
    (hc : s.grammar.select ((rowIntent e id).withLimit 1) = .ok c) :
    s.Unnamed e key c := by
  have hrequest : RowRequest e ((rowIntent e id).withLimit 1) .select := .read id
  exact ⟨_, _, hrequest, hc, hrequest.avoids hkey List.not_mem_nil⟩

/-! ## One step -/

/-- What a step leaves: the attribute is still not noted as changed, and no
command named it. -/
structure Spared (s : Session σ) (e : EntityType) (key : String)
    (before : σ × List Command) (after : Record × σ × List Command) : Prop where
  sends : Sends (s.Unnamed e key) before after.2
  record : Untouched e key after.1

variable {before : σ × List Command}

theorem spared_self (h : Untouched e key r) : Spared s e key before (r, before) :=
  ⟨sends_of_eq rfl, h⟩

theorem spared_send {operation : Operation}
    {command : Record → Except MappingError Command} {f : Record → Record}
    (h : Untouched e key r) (hf : Untouched e key (f r))
    (hcommand : ∀ c, command r = .ok c → s.Unnamed e key c)
    (before : σ × List Command) :
    Spared s e key before (s.recording.send operation command f (r, before)).2 := by
  refine ⟨sends_send hcommand before, ?_⟩
  rw [send_apply]
  cases command r with
  | error fault => exact h
  | ok c =>
    dsimp only
    rw [recording_execute]
    cases (s.backend.execute c before.1).1 with
    | error fault => exact h
    | ok result => exact hf

/-- The times are written, and then a command is sent that does not name the
attribute. -/
theorem spared_stamp_send {operation : Operation}
    {command : Record → Except MappingError Command} {f : Record → Record}
    (h : Untouched e key r) (hkey : key ∉ e.ownNames)
    (hf : ∀ d, d.entity = e → Untouched e key (f d))
    (hcommand : ∀ d c, Untouched e key d → d.raw? key = r.raw? key →
      command d = .ok c → s.Unnamed e key c) (before : σ × List Command) :
    Spared s e key before ((s.recording.stamp >>=
          fun _ => s.recording.send operation command f) (r, before)).2 := by
  have hother : key ∉ r.entity.timeNames :=
    fun hmem => hkey (h.entity ▸ List.mem_cons_of_mem _ hmem)
  have hsame := s.recording.sameBut_stamp r before
  have hlog := s.log_stamp r before
  rcases hstamp : s.recording.stamp (r, before) with ⟨fault | _, d, next⟩
  · rw [bind_error hstamp]
    rw [hstamp] at hsame hlog
    exact ⟨sends_of_eq hlog, h.of_sameBut hother hsame⟩
  · rw [bind_ok hstamp]
    rw [hstamp] at hsame hlog
    have hleft : Untouched e key d := h.of_sameBut hother hsame
    have hsent :
        Spared s e key next (s.recording.send operation command f (d, next)).2 :=
      spared_send hleft (hf d hleft.entity)
        (fun c => hcommand d c hleft (hsame.raw key hother)) next
    exact ⟨(sends_of_eq hlog).trans hsent.sends, hsent.record⟩

theorem spared_write (h : Untouched e key r) {name : String} (hname : name ≠ key)
    (value : Value) (before : σ × List Command) :
    Spared s e key before (write name value (r, before)).2 := by
  rw [write_apply]
  split
  · next written hset =>
    obtain ⟨stored, rfl⟩ := Record.set_eq_ok hset
    refine ⟨sends_of_eq rfl, h.entity, ?_⟩
    rw [Record.isAttributeDirty_put_of_ne hname, h.clean]
  · exact spared_self h

theorem untouched_syncBaseline (h : r.entity = e) :
    Untouched e key r.syncBaseline := ⟨h, rfl⟩

theorem untouched_inserted (h : r.entity = e) : Untouched e key (inserted r) :=
  ⟨h, rfl⟩

theorem spared_save (h : Untouched e key r) (hkey : key ∉ e.ownNames)
    (hinserts : ¬Inserts key (.persist .save) r) (before : σ × List Command) :
    Spared s e key before (s.recording.save (r, before)).2 := by
  cases hstored : r.stored with
  | true =>
    cases hdirty : r.isDirty with
    | false =>
      rw [save_clean hdirty hstored]
      exact spared_self h
    | true =>
      rw [save_dirty hdirty hstored]
      exact spared_stamp_send h hkey (fun d => untouched_syncBaseline)
        (fun d c hd _ => unnamed_modification hd hkey) before
  | false =>
    have hraw : r.raw? key = none := by
      by_contra hsome
      exact hinserts ⟨rfl, hstored, Option.isSome_iff_ne_none.mpr hsome⟩
    cases hid : r.key?.isNone with
    | true =>
      rw [save_keyless hid hstored]
      exact spared_self h
    | false =>
      rw [save_new hid hstored]
      exact spared_stamp_send h hkey (fun d => untouched_inserted)
        (fun d c hd hsame => unnamed_insertion hd.entity hkey (hsame.trans hraw))
        before

theorem spared_delete (h : Untouched e key r) (hkey : key ∉ e.ownNames)
    (before : σ × List Command) :
    Spared s e key before (s.recording.delete (r, before)).2 := by
  cases hstored : r.stored with
  | true =>
    rw [delete_stored hstored]
    exact spared_send h ⟨h.entity, h.clean⟩
      (fun c => unnamed_deletion h.entity hkey) before
  | false =>
    rw [delete_unstored hstored]
    exact spared_self h

theorem spared_refresh (h : Untouched e key r) (hkey : key ∉ e.ownNames)
    (before : σ × List Command) :
    Spared s e key before (s.recording.refresh (r, before)).2 := by
  rw [refresh_apply]
  cases persistedKey r with
  | error fault => exact spared_self h
  | ok id =>
    have hsent : Sends (s.Unnamed e key) before
        (s.recording.selectRows ((rowIntent r.entity id).withLimit 1) before).2 :=
      sends_selectRows (fun c hc => unnamed_reading hkey (h.entity ▸ hc)) before
    dsimp only
    rcases hrun :
        s.recording.selectRows ((rowIntent r.entity id).withLimit 1) before with
      ⟨fault | rows, next⟩
    · rw [hrun] at hsent
      exact ⟨hsent, h⟩
    · rw [hrun] at hsent
      cases rows with
      | nil => exact ⟨hsent, h⟩
      | cons row rest => exact ⟨hsent, h.entity, rfl⟩

/-- A step that writes another attribute and inserts nothing spares the
attribute. -/
theorem spared_perform (s : Session σ) (h : Untouched e key r)
    (hkey : key ∉ e.ownNames) {step : Step} (hleaves : step.Leaves key)
    (hinserts : ¬Inserts key step r) (before : σ × List Command) :
    Spared s e key before (s.recording.perform step (r, before)).2 := by
  cases step with
  | write name value => exact spared_write h hleaves value before
  | persist op =>
    cases op with
    | save => exact spared_save h hkey hinserts before
    | delete => exact spared_delete h hkey before
    | refresh => exact spared_refresh h hkey before

theorem spared_performAll (hkey : key ∉ e.ownNames) {steps : List Step}
    (hleaves : ∀ step ∈ steps, step.Leaves key) (h : Untouched e key r)
    (hinserts : ¬s.recording.Reinserts key steps (r, before)) :
    Spared s e key before (s.recording.performAll steps (r, before)) := by
  induction steps generalizing r before with
  | nil => exact spared_self h
  | cons step rest ih =>
    obtain ⟨hfirst, hrest⟩ := List.forall_mem_cons.mp hleaves
    obtain ⟨hnow, hlater⟩ := not_or.mp hinserts
    have hstep := spared_perform s h hkey hfirst hnow before
    have hmore := ih hrest hstep.record hlater
    exact ⟨hstep.sends.trans hmore.sends, hmore.record⟩

/-! ## The twin of a record -/

/-- A record that carries an attribute, and one that differs from it at most
there. -/
structure Twin (key : String) (r d : Record) : Prop where
  entity : d.entity = r.entity
  stored : d.stored = r.stored
  relations : d.relations = r.relations
  dirty : d.dirty = r.dirty
  raw : ∀ name, name ≠ key → d.raw? name = r.raw? name
  baseline : ∀ name, name ≠ key → d.baseline? name = r.baseline? name
  clean : r.isAttributeDirty key = false
  carries : (r.raw? key).isSome = true

/-- Two runs give the same and leave the same state, and they leave twins or one
record. -/
structure SameRun (key : String)
    (run other : Except MappingError Unit × Record × σ) : Prop where
  outcome : other.1 = run.1
  record : Twin key run.2.1 other.2.1 ∨ other.2.1 = run.2.1
  state : other.2.2 = run.2.2

theorem Twin.put (h : Twin key r d) {name : String} (hname : name ≠ key)
    (value : Value) : Twin key (r.put name value) (d.put name value) where
  entity := h.entity
  stored := h.stored
  relations := h.relations
  dirty := by
    have hbaseline : d.snapshot.get? name = r.snapshot.get? name :=
      h.baseline name hname
    unfold Record.put
    dsimp only
    rw [hbaseline, h.dirty]
  raw other hother := by rw [Record.raw?_put, Record.raw?_put, h.raw other hother]
  baseline := h.baseline
  clean := by rw [Record.isAttributeDirty_put_of_ne hname, h.clean]
  carries := by
    rw [Record.raw?_put_of_ne hname]
    exact h.carries

theorem Twin.forceFill (h : Twin key r d) {pairs : Pairs}
    (hnames : ∀ pair ∈ pairs, pair.1 ≠ key) :
    (d.forceFill pairs).1 = (r.forceFill pairs).1 ∧
      Twin key (r.forceFill pairs).2 (d.forceFill pairs).2 := by
  induction pairs generalizing r d with
  | nil => exact ⟨rfl, h⟩
  | cons pair rest ih =>
    obtain ⟨hname, hrest⟩ := List.forall_mem_cons.mp hnames
    rw [Record.forceFill, Record.forceFill, Record.set, Record.set, h.entity]
    cases Record.storedForm r.entity pair.1 pair.2 with
    | error fault => exact ⟨rfl, h⟩
    | ok value => exact ih (h.put hname value) hrest

theorem Twin.write (h : Twin key r d) {name : String} (hname : name ≠ key)
    (value : Value) (state : σ) :
    SameRun key (write name value (r, state)) (write name value (d, state)) := by
  rw [write_apply, write_apply, Record.set, Record.set, h.entity]
  cases Record.storedForm r.entity name value with
  | error fault => exact ⟨rfl, .inl h, rfl⟩
  | ok stored => exact ⟨rfl, .inl (h.put hname stored), rfl⟩

theorem Twin.stampPairs_eq (h : Twin key r d) (hkey : key ∉ r.entity.timeNames)
    (s : Session σ) (state : σ) : s.stampPairs d state = s.stampPairs r state := by
  unfold stampPairs
  rw [h.entity]
  cases htimes : r.entity.timestamps with
  | false => rfl
  | true =>
    have hcreated : createdAt ≠ key := by
      rintro rfl
      rw [EntityType.timeNames, htimes] at hkey
      exact hkey (List.mem_cons_self ..)
    unfold timesOf Record.bound?
    rw [h.stored, h.raw createdAt hcreated]

theorem Twin.stamp (h : Twin key r d) (hkey : key ∉ r.entity.timeNames)
    (s : Session σ) (state : σ) :
    (s.stamp (d, state)).1 = (s.stamp (r, state)).1 ∧
      Twin key (s.stamp (r, state)).2.1 (s.stamp (d, state)).2.1 ∧
      (s.stamp (d, state)).2.2 = (s.stamp (r, state)).2.2 := by
  have hother : ∀ pair ∈ s.stampPairs r state, pair.1 ≠ key :=
    fun pair hpair heq => hkey (heq ▸ mem_timeNames hpair)
  obtain ⟨houtcome, htwin⟩ := h.forceFill hother
  rw [stamp_apply, stamp_apply, h.stampPairs_eq hkey, h.entity]
  exact ⟨houtcome, htwin, rfl⟩

theorem Twin.send (h : Twin key r d) {operation : Operation}
    {command : Record → Except MappingError Command} {f : Record → Record}
    (hcommand : command d = command r) (hf : Twin key (f r) (f d))
    (s : Session σ) (state : σ) :
    SameRun key (s.send operation command f (r, state))
      (s.send operation command f (d, state)) := by
  rw [send_apply, send_apply, hcommand]
  cases command r with
  | error fault => exact ⟨rfl, .inl h, rfl⟩
  | ok c =>
    dsimp only
    rcases s.backend.execute c state with ⟨fault | result, next⟩
    · exact ⟨rfl, .inl h, rfl⟩
    · exact ⟨rfl, .inl hf, rfl⟩

theorem Twin.persistedKey_eq (h : Twin key r d) (hkey : key ∉ r.entity.ownNames) :
    persistedKey d = persistedKey r := by
  have hid : r.entity.primaryKey ≠ key :=
    fun heq => hkey (heq ▸ List.mem_cons_self ..)
  unfold persistedKey Record.key? Record.bound?
  rw [h.entity, h.baseline _ hid, h.raw _ hid]

theorem Twin.changes_eq (h : Twin key r d) : d.changes = r.changes := by
  rw [Record.changes, Record.changes, h.dirty]
  refine List.map_congr_left fun name hname => ?_
  have hother : name ≠ key := by
    rintro rfl
    exact Bool.false_ne_true (h.clean.symm.trans (NameMap.contains_iff.mpr hname))
  rw [h.raw name hother]

theorem Twin.modification_eq (h : Twin key r d) (hkey : key ∉ r.entity.ownNames)
    (s : Session σ) : s.modification d = s.modification r := by
  rw [modification, modification, h.persistedKey_eq hkey, h.changes_eq, h.entity]

theorem Twin.deletion_eq (h : Twin key r d) (hkey : key ∉ r.entity.ownNames)
    (s : Session σ) : s.deletion d = s.deletion r := by
  rw [deletion, deletion, h.persistedKey_eq hkey, h.entity]

theorem Twin.syncBaseline (h : Twin key r d) :
    Twin key r.syncBaseline d.syncBaseline :=
  ⟨h.entity, h.stored, h.relations, rfl, h.raw, h.raw, rfl, h.carries⟩

theorem Twin.deleted (h : Twin key r d) : Twin key (deleted r) (deleted d) :=
  ⟨h.entity, rfl, h.relations, h.dirty, h.raw, h.baseline, h.clean, h.carries⟩

/-- Records that are read again have nothing left in which they could differ. -/
theorem Twin.reload (h : Twin key r d) (row : Row) :
    d.reload row = r.reload row := by
  rw [Record.reload, Record.reload, Record.mk.injEq]
  exact ⟨h.entity, rfl, rfl, rfl, rfl, h.relations⟩

theorem Twin.update (h : Twin key r d) (hkey : key ∉ r.entity.ownNames)
    (s : Session σ) (state : σ) :
    SameRun key ((s.stamp >>= fun _ =>
            s.send .update s.modification Record.syncBaseline) (r, state))
      ((s.stamp >>= fun _ => s.send .update s.modification Record.syncBaseline)
        (d, state)) := by
  obtain ⟨houtcome, htwin, hstate⟩ :=
    h.stamp (fun hmem => hkey (List.mem_cons_of_mem _ hmem)) s state
  have hentity := (s.sameBut_stamp r state).entity
  rcases hr : s.stamp (r, state) with ⟨outcome, r', next⟩
  rcases hd : s.stamp (d, state) with ⟨outcome', d', next'⟩
  rw [hr, hd] at houtcome htwin hstate
  rw [hr] at hentity
  obtain rfl : outcome' = outcome := houtcome
  obtain rfl : next' = next := hstate
  cases outcome' with
  | error fault =>
    rw [bind_error hr, bind_error hd]
    exact ⟨rfl, .inl htwin, rfl⟩
  | ok done =>
    rw [bind_ok hr, bind_ok hd]
    exact htwin.send (htwin.modification_eq (hentity.symm ▸ hkey) s)
      htwin.syncBaseline s next'

theorem Twin.save (h : Twin key r d) (hkey : key ∉ r.entity.ownNames)
    (hstored : r.stored = true) (s : Session σ) (state : σ) :
    SameRun key (s.save (r, state)) (s.save (d, state)) := by
  have hother : d.stored = true := h.stored.trans hstored
  have hchanged : d.isDirty = r.isDirty := by
    rw [Record.isDirty, Record.isDirty, h.dirty]
  cases hdirty : r.isDirty with
  | false =>
    rw [save_clean hdirty hstored, save_clean (hchanged.trans hdirty) hother]
    exact ⟨rfl, .inl h, rfl⟩
  | true =>
    rw [save_dirty hdirty hstored, save_dirty (hchanged.trans hdirty) hother]
    exact h.update hkey s state

theorem Twin.delete (h : Twin key r d) (hkey : key ∉ r.entity.ownNames)
    (s : Session σ) (state : σ) :
    SameRun key (s.delete (r, state)) (s.delete (d, state)) := by
  cases hstored : r.stored with
  | false =>
    rw [delete_unstored hstored, delete_unstored (h.stored.trans hstored)]
    exact ⟨rfl, .inl h, rfl⟩
  | true =>
    rw [delete_stored hstored, delete_stored (h.stored.trans hstored)]
    exact h.send (h.deletion_eq hkey s) h.deleted s state

theorem Twin.refresh (h : Twin key r d) (hkey : key ∉ r.entity.ownNames)
    (s : Session σ) (state : σ) :
    SameRun key (s.refresh (r, state)) (s.refresh (d, state)) := by
  rw [refresh_apply, refresh_apply, h.persistedKey_eq hkey, h.entity]
  cases persistedKey r with
  | error fault => exact ⟨rfl, .inl h, rfl⟩
  | ok id =>
    dsimp only
    rcases s.selectRows ((rowIntent r.entity id).withLimit 1) state
      with ⟨fault | rows, next⟩
    · exact ⟨rfl, .inl h, rfl⟩
    · cases rows with
      | nil => exact ⟨rfl, .inl h, rfl⟩
      | cons row rest => exact ⟨rfl, .inr (h.reload row), rfl⟩

/-- A step that writes another attribute and inserts nothing does the same to a
record and its twin. -/
theorem Twin.perform (h : Twin key r d) (hkey : key ∉ r.entity.ownNames)
    {step : Step} (hleaves : step.Leaves key) (hinserts : ¬Inserts key step r)
    (s : Session σ) (state : σ) :
    SameRun key (s.perform step (r, state)) (s.perform step (d, state)) := by
  cases step with
  | write name value => exact h.write hleaves value state
  | persist op =>
    cases op with
    | save =>
      refine h.save hkey ?_ s state
      by_contra hstored
      exact hinserts ⟨rfl, Bool.eq_false_iff.mpr hstored, h.carries⟩
    | delete => exact h.delete hkey s state
    | refresh => exact h.refresh hkey s state

/-- A record and its twin send the same commands, and leave the same of the
backend behind. -/
theorem performAll_twin (hkey : key ∉ e.ownNames) {steps : List Step}
    (hleaves : ∀ step ∈ steps, step.Leaves key) (hr : Untouched e key r)
    (h : Twin key r d ∨ d = r)
    (hinserts : ¬s.recording.Reinserts key steps (r, before)) :
    (s.recording.performAll steps (d, before)).2 =
      (s.recording.performAll steps (r, before)).2 := by
  induction steps generalizing r d before with
  | nil => rfl
  | cons step rest ih =>
    obtain ⟨hfirst, hrest⟩ := List.forall_mem_cons.mp hleaves
    obtain ⟨hnow, hlater⟩ := not_or.mp hinserts
    rcases h with htwin | rfl
    · have hstep := spared_perform s hr hkey hfirst hnow before
      have hsame := htwin.perform (hr.entity ▸ hkey) hfirst hnow s.recording before
      have hnext : (s.recording.perform step (d, before)).2 =
          ((s.recording.perform step (d, before)).2.1,
            (s.recording.perform step (r, before)).2.2) := Prod.ext rfl hsame.state
      change (s.recording.performAll rest
          (s.recording.perform step (d, before)).2).2 = _
      rw [hnext]
      exact ih hrest hstep.record hsame.record hlater
    · rfl

/-! ## Records of a many-to-many relation -/

/-- Read a relation with a join, and keep the row of each related record beside
it. -/
def joinedRows (s : Session σ) (p : Pivot) (related : EntityType) (key : Value) :
    Effect σ (List (Row × Record)) := do
  return (← s.selectRows (p.joinQuery key related)).map fun row =>
    ((p.splitRow row).1, joinedRecord s.config.pivotAccessor p related row)

/-- Read a relation with two queries, and keep the row of each related record
beside it. -/
def rowsInTwo (s : Session σ) (p : Pivot) (related : EntityType) (key : Value) :
    Effect σ (List (Row × Record)) := do
  let rows ← s.pivotRows p key
  let ids := p.relatedIds rows
  if ids.isEmpty then return []
  let q := (Intent.new related.table).whereIn p.table.relatedKey ids
  return (← s.selectRows (if s.config.allowFiltering then
        q.allowingFiltering else q)).map fun row => (row,
          attachPivotRow s.config.pivotAccessor p rows (.hydrate related row))

/-- Read a many-to-many relation, and keep the row of each related record beside
it. -/
def pivotRead (s : Session σ) (p : Pivot) : Effect σ (List (Row × Record)) := do
  match p.parentKey? with
  | none => return []
  | some key =>
    let related ← orThrow (s.entity p.table.related)
    if s.backend.supportsJoins then s.joinedRows p related key
      else s.rowsInTwo p related key

/-- The records of a relation that was read with their rows. -/
def recordsOf (pairs : List (Row × Record)) : Related Record :=
  .many (pairs.map Prod.snd)

theorem resolveJoined_eq_map (s : Session σ) (p : Pivot) (related : EntityType)
    (key : Value) :
    s.resolveJoined p related key = recordsOf <$> s.joinedRows p related key := by
  unfold joinedRows
  simp only [map_bind, map_pure, recordsOf, List.map_map]
  rfl

theorem resolveInTwo_eq_map (s : Session σ) (p : Pivot) (related : EntityType)
    (key : Value) :
    s.resolveInTwo p related key = recordsOf <$> s.rowsInTwo p related key := by
  unfold resolveInTwo rowsInTwo
  rw [map_bind]
  refine bind_congr fun rows => ?_
  dsimp only
  cases (p.relatedIds rows).isEmpty with
  | true => rfl
  | false =>
    simp only [Bool.false_eq_true, if_false, selectRecords, bind_assoc,
      pure_bind, map_bind, map_pure, recordsOf, List.map_map]
    rfl

/-- The records are those that reading the relation gives. -/
theorem resolvePivot_eq_map (s : Session σ) (p : Pivot) :
    s.resolvePivot p = recordsOf <$> s.pivotRead p := by
  unfold resolvePivot pivotRead
  cases p.parentKey? with
  | none => rfl
  | some key =>
    dsimp only
    rw [map_bind]
    refine bind_congr fun related => ?_
    cases s.backend.supportsJoins with
    | true => exact s.resolveJoined_eq_map p related key
    | false => exact s.resolveInTwo_eq_map p related key

/-- The record of a row, which may show a pivot row under the accessor. -/
inductive Shown (accessor : String) (e : EntityType) (row : Row) : Record → Prop
  | plain : Shown accessor e row (.hydrate e row)
  | synthetic (doc : Value) :
    Shown accessor e row ((Record.hydrate e row).mergeSynthetic accessor doc)

/-- Each record that is read shows its row. -/
def ShowRows (accessor : String) (pairs : List (Row × Record)) : Prop :=
  ∀ pair ∈ pairs, Shown accessor pair.2.entity pair.1 pair.2

theorem shown_attachPivotRow (accessor : String) (p : Pivot) (rows : List Row)
    (e : EntityType) (row : Row) :
    Shown accessor e row (attachPivotRow accessor p rows (.hydrate e row)) := by
  unfold attachPivotRow
  split
  · exact .plain
  · split
    · exact .synthetic _
    · exact .plain

theorem Shown.entity_eq {accessor : String} {row : Row}
    (h : Shown accessor e row r) : r.entity = e := by
  cases h <;> rfl

theorem showRows_map {accessor : String} {rows : List Row}
    {f : Row → Row × Record} (h : ∀ row, Shown accessor e (f row).1 (f row).2) :
    ShowRows accessor (rows.map f) := by
  refine List.forall_mem_map.mpr fun row _ => ?_
  rw [(h row).entity_eq]
  exact h row

theorem showRows_pivotRead {p : Pivot} {pairs : List (Row × Record)} {next : σ}
    (h : s.pivotRead p state = (.ok pairs, next)) :
    ShowRows s.config.pivotAccessor pairs := by
  unfold pivotRead at h
  cases hkey : p.parentKey? with
  | none =>
    rw [hkey] at h
    obtain ⟨rfl, -⟩ := pure_eq_ok.mp h
    exact List.forall_mem_nil _
  | some key =>
    rw [hkey] at h
    obtain ⟨related, mid, -, hread⟩ := bind_eq_ok.mp h
    cases hjoins : s.backend.supportsJoins with
    | true =>
      rw [hjoins] at hread
      obtain ⟨rows, last, -, hrows⟩ := bind_eq_ok.mp hread
      obtain ⟨rfl, -⟩ := pure_eq_ok.mp hrows
      exact showRows_map fun row => .synthetic _
    | false =>
      rw [hjoins] at hread
      obtain ⟨pivots, last, -, hids⟩ := bind_eq_ok.mp hread
      dsimp only at hids
      split at hids
      · obtain ⟨rfl, -⟩ := pure_eq_ok.mp hids
        exact List.forall_mem_nil _
      · obtain ⟨rows, after, -, hrows⟩ := bind_eq_ok.mp hids
        obtain ⟨rfl, -⟩ := pure_eq_ok.mp hrows
        exact showRows_map fun row => shown_attachPivotRow _ p pivots related row

theorem Shown.untouched {accessor : String} {row : Row}
    (h : Shown accessor e row r) : Untouched e accessor r := by
  cases h with
  | plain => exact ⟨rfl, rfl⟩
  | synthetic doc => exact ⟨rfl, rfl⟩

/-- The twin of a related record is the record of its row alone. -/
theorem Shown.twin {accessor : String} {row : Row} (h : Shown accessor e row r) :
    Twin accessor r (.hydrate e row) ∨ .hydrate e row = r := by
  cases h with
  | plain => exact .inr rfl
  | synthetic doc =>
    have hother (name : String) (hname : name ≠ accessor) :
        row.get? name = (row.insert accessor doc).get? name := by
      rw [NameMap.get?_insert_of_ne hname.symm]
    refine .inl ⟨rfl, rfl, rfl, rfl, hother, hother, rfl, ?_⟩
    have hshown : (row.insert accessor doc).get? accessor = some doc := by
      rw [NameMap.get?_insert_self]
    exact (congrArg Option.isSome hshown).trans rfl

/-- A record that a many-to-many relation gives is stored and deleted without
its pivot row. Let it be taken through any steps that write other attributes,
store, delete or refresh it, whether they succeed or fail, such that no save
inserts the accessor, and let the accessor be no name that the session writes by
itself. Then no command is made for a request that names the accessor, and the
commands are those that are sent for the record of the related row alone, on
which they also leave the same of the backend behind. -/
theorem pivot_row_not_sent (s : Session σ) (p : Pivot) :
    s.resolvePivot p = recordsOf <$> s.pivotRead p ∧
      ∀ state pairs next, s.pivotRead p state = (.ok pairs, next) →
        ∀ row r, (row, r) ∈ pairs → s.config.pivotAccessor ∉ r.entity.ownNames →
          ∀ steps start, (∀ step ∈ steps, step.Leaves s.config.pivotAccessor) →
            ¬s.recording.Reinserts s.config.pivotAccessor steps (r, start, []) →
            ∃ last sent, (s.recording.performAll steps (r, start, [])).2 =
                (last, sent) ∧
              (∀ c ∈ sent, s.Unnamed r.entity s.config.pivotAccessor c) ∧
              (s.recording.performAll steps (.hydrate r.entity row, start, [])).2 =
                (last, sent) := by
  refine ⟨s.resolvePivot_eq_map p, ?_⟩
  intro state pairs next hread row r hmem hown steps start hleaves hinserts
  have hshown := showRows_pivotRead hread (row, r) hmem
  have hspared := spared_performAll hown hleaves hshown.untouched hinserts
  obtain ⟨sent, hsent, hunnamed⟩ := hspared.sends
  refine ⟨_, sent, Prod.ext rfl hsent, hunnamed, ?_⟩
  calc
    (s.recording.performAll steps (.hydrate r.entity row, start, [])).2 =
        (s.recording.performAll steps (r, start, [])).2 :=
      performAll_twin hown hleaves hshown.untouched hshown.twin hinserts
    _ = (_, sent) := Prod.ext rfl hsent

/-! ### A role of a user -/

/-- A session over a backend that gives prepared answers. -/
def roleSession : Session ScriptedStore :=
  (Session.new {} (ScriptedStore.backend false)).register role

/-- The row of a role, without a column for a pivot row. -/
def editorRow : Row := .ofList [("id", .int 10), ("title", .text "editor")]

def editorLink : Row :=
  .ofList [("user_id", .int 1), ("role_id", .int 10), ("level", .int 3)]

/-- The answers to the two queries for the roles of the user, and to two
commands after these. -/
def editorAnswers : ScriptedStore where
  answers := [.ok (.ofRows [editorLink]), .ok (.ofRows [editorRow]),
    .ok (.ofRows []), .ok (.ofRows [])]

/-- The role with its pivot row. -/
def editor : Record :=
  (Record.hydrate role editorRow).mergeSynthetic "pivot"
    (userRoles.rowDocument editorLink)

/-- The backend after the role was read. -/
def editorRead : ScriptedStore := (roleSession.pivotRead userRoles editorAnswers).2

/-- The role as it was read is deleted and saved again, and so its pivot row is
inserted into a column of the table of roles. -/
theorem pivot_row_reinserted : roleSession.resolvePivot userRoles editorAnswers =
      (.ok (.many [editor]), editorRead) ∧
    editorRow.get? roleSession.config.pivotAccessor = none ∧
    ((roleSession.performAll [.persist .delete, .persist .save]
        (editor, editorRead)).2.sent.map fun c => (c.text, c.params)).getLast? =
      some ("INSERT INTO roles (id, pivot, title) VALUES (?, ?, ?)",
        [.int 10, userRoles.rowDocument editorLink, .text "editor"]) :=
  ⟨rfl, rfl, rfl⟩

/-- The role gets another title and is deleted. -/
def editorHistory : List Step :=
  [.write "title" (.text "chief editor"), .persist .save, .persist .delete]

theorem pivot_row_not_sent_editor :
    ∃ last sent, roleSession.pivotRead userRoles editorAnswers =
        (.ok [(editorRow, editor)], editorRead) ∧
      (roleSession.recording.performAll editorHistory (editor, editorRead, [])).2 =
        (last, sent) ∧
      sent.map Command.text = ["UPDATE roles SET title = ? WHERE id = ?",
          "DELETE FROM roles WHERE id = ?"] ∧
      (∀ c ∈ sent, roleSession.Unnamed role "pivot" c) ∧
      (roleSession.recording.performAll editorHistory
        (.hydrate role editorRow, editorRead, [])).2 = (last, sent) := by
  have hread : roleSession.pivotRead userRoles editorAnswers =
      (.ok [(editorRow, editor)], editorRead) := rfl
  have hleaves : ∀ step ∈ editorHistory, step.Leaves "pivot" :=
    List.forall_mem_cons.mpr ⟨(by decide : "title" ≠ "pivot"),
      List.forall_mem_cons.mpr ⟨trivial, List.forall_mem_singleton.mpr trivial⟩⟩
  have hinserts : ¬roleSession.recording.Reinserts "pivot" editorHistory
      (editor, editorRead, []) := by
    rintro (⟨hsave, -⟩ | ⟨-, hstored, -⟩ | ⟨hsave, -⟩ | hnone)
    · cases hsave
    · cases hstored
    · cases hsave
    · exact hnone
  obtain ⟨last, sent, hrun, hunnamed, htwin⟩ :=
    (pivot_row_not_sent roleSession userRoles).2 editorAnswers _ editorRead
      hread editorRow editor (List.mem_cons_self ..)
      (by decide) editorHistory editorRead hleaves hinserts
  refine ⟨last, sent, hread, hrun, ?_, hunnamed, htwin⟩
  rw [← (Prod.mk.inj hrun).2]
  rfl

end Session

end EntityMapper
