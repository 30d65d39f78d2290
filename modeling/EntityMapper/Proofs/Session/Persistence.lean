import EntityMapper.Proofs.Model.Changes
import EntityMapper.Proofs.Session.Effects

/-!
# What a failed persist leaves

Storing, deleting and refreshing a record each send at most one command, and the
record takes on its new form only after the command has succeeded. There is one
thing a save does before: it writes the times into the record. When the command
is refused after that they stay, and so the record is not as it was before the
call.

The commands of the three operations come from one shape, `send`, and what the
save does before it sends one is `stamp`, which writes the times of `timesOf`.
-/

namespace EntityMapper

namespace Database

/-- Without tables there is nothing that a command could be run on. -/
theorem exists_evaluate_error (c : Command) : ∃ e, evaluate ∅ c = .error e := by
  have hexecute (statement : Statement) (params : List Value) :
      ∃ e, Store.execute ∅ statement params = .error e := by
    cases statement with
    | select q =>
      rw [Store.execute, Store.select]
      cases q.groupBy.isEmpty <;> exact ⟨_, rfl⟩
    | insert q => exact ⟨_, rfl⟩
    | update q => exact ⟨_, rfl⟩
    | delete q => exact ⟨_, rfl⟩
  unfold evaluate
  split
  · exact ⟨_, rfl⟩
  · split
    · exact ⟨_, rfl⟩
    · exact hexecute _ _

end Database

namespace LocalStore

theorem exists_execute_error (c : Command) (time : Int64) (log : List Command) :
    ∃ e after, execute c ⟨⟨∅, log⟩, time⟩ = (.error e, after) := by
  obtain ⟨e, he⟩ := Database.exists_evaluate_error c
  rw [execute, Database.run, he]
  exact ⟨_, _, rfl⟩

end LocalStore

namespace Session

variable {σ : Type} {s : Session σ} {r left : Record} {state after : σ}
  {e : MappingError}

open Effect

/-! ## The parts of a save -/

/-- The times that storing a record writes: that of its creation only if it has
no row and none is given. -/
def timesOf (r : Record) (now : Value) : Pairs :=
  if r.stored || (r.bound? createdAt).isSome then [(updatedAt, now)]
  else [(createdAt, now), (updatedAt, now)]

/-- Write the times of the record at hand. -/
def stamp (s : Session σ) : EffectOn Record σ Unit := do
  if (← held).entity.timestamps then
    let now ← s.now.alongside
    writeAll fun record => record.forceFill (timesOf record now)

/-- Send a command for the record at hand, and change the record when it has
succeeded. -/
def send (s : Session σ) (operation : Operation)
    (command : Record → Except MappingError Command) (f : Record → Record) :
    EffectOn Record σ Unit := do
  let command ← orThrow (command (← held))
  discard (s.run operation command).alongside
  change f

/-- The command that inserts a record. -/
def insertion (s : Session σ) (r : Record) : Except MappingError Command :=
  compiled (s.grammar.insert (.new r.entity.table) r.attributes.toList)

/-- The command that updates the row of a record. -/
def modification (s : Session σ) (r : Record) : Except MappingError Command := do
  compiled (s.grammar.update (rowIntent r.entity (← persistedKey r)) r.changes)

/-- The command that deletes the row of a record. -/
def deletion (s : Session σ) (r : Record) : Except MappingError Command := do
  compiled (s.grammar.delete (rowIntent r.entity (← persistedKey r)))

/-- The record after its row was inserted. -/
def inserted (r : Record) : Record := { r.syncBaseline with stored := true }

/-- The record after its row was deleted. -/
def deleted (r : Record) : Record := { r with stored := false }

theorem timesOf_new (h : r.stored = false) (now : Value) :
    timesOf r now = if (r.bound? createdAt).isNone then
        [(createdAt, now), (updatedAt, now)] else [(updatedAt, now)] := by
  unfold timesOf
  rw [h, Bool.false_or]
  cases r.bound? createdAt <;> rfl

theorem timesOf_stored (h : r.stored = true) (now : Value) :
    timesOf r now = [(updatedAt, now)] := by
  unfold timesOf
  rw [h, Bool.true_or, if_pos rfl]

theorem write_apply (key : String) (value : Value) (r : Record) (state : σ) :
    write key value (r, state) = match r.set key value with
      | .ok written => (.ok (), written, state)
      | .error e => (.error e, r, state) := by
  rw [write, bind_ok (held_apply r state), bind_apply, orThrow_apply]
  cases r.set key value <;> rfl

theorem now_alongside {time : Int64} {next : σ}
    (hclock : s.backend.clock state = (time, next)) (r : Record) :
    s.now.alongside (r, state) = (.ok (.timestamp time), r, next) := by
  rw [alongside_apply, now, hclock]

theorem stamp_off (h : r.entity.timestamps = false) :
    s.stamp (r, state) = (.ok (), r, state) := by
  rw [stamp, bind_ok (held_apply r state), h]
  rfl

theorem stamp_on (h : r.entity.timestamps = true) {time : Int64} {next : σ}
    (hclock : s.backend.clock state = (time, next)) :
    s.stamp (r, state) = ((r.forceFill (timesOf r (.timestamp time))).1,
      (r.forceFill (timesOf r (.timestamp time))).2, next) := by
  rw [stamp, bind_ok (held_apply r state), if_pos h,
    bind_ok (now_alongside hclock r)]
  rfl

/-- The times that storing a record writes into it; none if its entity type
keeps none. -/
def stampPairs (s : Session σ) (r : Record) (state : σ) : Pairs :=
  if r.entity.timestamps then
    timesOf r (.timestamp (s.backend.clock state).1) else []

theorem stamp_apply (s : Session σ) (r : Record) (state : σ) :
    s.stamp (r, state) = ((r.forceFill (s.stampPairs r state)).1,
      (r.forceFill (s.stampPairs r state)).2,
      if r.entity.timestamps then (s.backend.clock state).2 else state) := by
  unfold stampPairs
  cases htimes : r.entity.timestamps with
  | false => exact stamp_off htimes
  | true => exact stamp_on htimes rfl

/-- A command for the record is sent if there is one, and the record changes if
it succeeds. -/
theorem send_apply (s : Session σ) (operation : Operation)
    (command : Record → Except MappingError Command) (f : Record → Record)
    (r : Record) (state : σ) :
    s.send operation command f (r, state) = match command r with
      | .error e => (.error e, r, state)
      | .ok c => match s.backend.execute c state with
        | (.ok _, after) => (.ok (), f r, after)
        | (.error e, after) => (.error (.execution operation e), r, after) := by
  rw [send, bind_ok (held_apply r state), bind_apply, orThrow_apply]
  cases command r with
  | error e => rfl
  | ok c =>
    dsimp only
    rw [bind_apply, discard_apply, alongside_apply, run]
    obtain ⟨_ | _, _⟩ := s.backend.execute c state <;> rfl

/-- An insertion writes the times and then sends the row. -/
theorem insertRecord_apply (hkey : r.key?.isNone = false)
    (hstored : r.stored = false) :
    s.insertRecord (r, state) =
      (s.stamp >>= fun _ => s.send .insert s.insertion inserted) (r, state) := by
  unfold insertRecord
  rw [bind_ok (held_apply r state), hkey, if_neg Bool.false_ne_true]
  cases htimes : r.entity.timestamps with
  | false =>
    rw [bind_ok (stamp_off htimes)]
    rfl
  | true =>
    obtain ⟨⟨time, next⟩, hclock⟩ : ∃ read, s.backend.clock state = read := ⟨_, rfl⟩
    dsimp only
    rw [if_pos rfl, bind_ok (now_alongside hclock r), bind_apply s.stamp,
      stamp_on htimes hclock, timesOf_new hstored]
    cases (r.bound? createdAt).isNone with
    | false =>
      rw [if_neg Bool.false_ne_true, if_neg Bool.false_ne_true, bind_apply,
        write_apply, Record.forceFill]
      cases r.set updatedAt (.timestamp time) <;> rfl
    | true =>
      rw [if_pos rfl, if_pos rfl, bind_apply, write_apply, Record.forceFill]
      cases r.set createdAt (.timestamp time) with
      | error e => rfl
      | ok written =>
        dsimp only
        rw [bind_apply, write_apply, Record.forceFill]
        cases written.set updatedAt (.timestamp time) <;> rfl

/-- An update writes the time of change and then sends the changes. -/
theorem updateRecord_apply (hdirty : r.isDirty = true) (hstored : r.stored = true) :
    s.updateRecord (r, state) =
      (s.stamp >>= fun _ => s.send .update s.modification Record.syncBaseline)
        (r, state) := by
  have htail : (do
      let record ← held
      let key ← orThrow (persistedKey record)
      let command ← orThrow
        (compiled (s.grammar.update (rowIntent record.entity key) record.changes))
      discard (s.run .update command).alongside
      change Record.syncBaseline : EffectOn Record σ Unit) =
      s.send .update s.modification Record.syncBaseline := by
    funext ⟨r, state⟩
    rw [send, bind_ok (held_apply r state), bind_ok (held_apply r state),
      modification]
    cases persistedKey r <;> rfl
  unfold updateRecord
  rw [bind_ok (held_apply r state), if_pos hdirty]
  cases htimes : r.entity.timestamps with
  | false =>
    rw [bind_ok (stamp_off htimes), if_neg Bool.false_ne_true]
    exact congrFun htail (r, state)
  | true =>
    obtain ⟨⟨time, next⟩, hclock⟩ : ∃ read, s.backend.clock state = read := ⟨_, rfl⟩
    dsimp only
    rw [if_pos rfl, bind_ok (now_alongside hclock r), bind_apply s.stamp,
      stamp_on htimes hclock, timesOf_stored hstored, htail, bind_apply,
      write_apply, Record.forceFill]
    cases r.set updatedAt (.timestamp time) <;> rfl

theorem save_unstored (s : Session σ) (hstored : r.stored = false) :
    s.save (r, state) = s.insertRecord (r, state) := by
  rw [save, bind_ok (held_apply r state), hstored, if_neg Bool.false_ne_true]

theorem save_stored (s : Session σ) (hstored : r.stored = true) :
    s.save (r, state) = s.updateRecord (r, state) := by
  rw [save, bind_ok (held_apply r state), hstored, if_pos rfl]

theorem save_new (hkey : r.key?.isNone = false) (hstored : r.stored = false) :
    s.save (r, state) =
      (s.stamp >>= fun _ => s.send .insert s.insertion inserted) (r, state) := by
  calc
    s.save (r, state) = s.insertRecord (r, state) := s.save_unstored hstored
    _ = (s.stamp >>= fun _ => s.send .insert s.insertion inserted) (r, state) :=
      insertRecord_apply hkey hstored

theorem save_keyless (hkey : r.key?.isNone = true) (hstored : r.stored = false) :
    s.save (r, state) = (.error (.missingPrimaryKey r.entity.name), r, state) := by
  rw [s.save_unstored hstored, insertRecord, bind_ok (held_apply r state),
    if_pos hkey]
  rfl

theorem save_dirty (hdirty : r.isDirty = true) (hstored : r.stored = true) :
    s.save (r, state) =
      (s.stamp >>= fun _ => s.send .update s.modification Record.syncBaseline)
        (r, state) := by
  calc
    s.save (r, state) = s.updateRecord (r, state) := s.save_stored hstored
    _ = (s.stamp >>= fun _ => s.send .update s.modification Record.syncBaseline)
        (r, state) :=
      updateRecord_apply hdirty hstored

theorem save_clean (hclean : r.isDirty = false) (hstored : r.stored = true) :
    s.save (r, state) = (.ok (), r, state) := by
  rw [s.save_stored hstored, updateRecord, bind_ok (held_apply r state), hclean]
  rfl

theorem delete_stored (hstored : r.stored = true) :
    s.delete (r, state) = s.send .delete s.deletion deleted (r, state) := by
  rw [delete, bind_ok (held_apply r state), send, bind_ok (held_apply r state),
    if_pos hstored, deletion]
  cases persistedKey r <;> rfl

theorem delete_unstored (hstored : r.stored = false) :
    s.delete (r, state) = (.ok (), r, state) := by
  rw [delete, bind_ok (held_apply r state), hstored]
  rfl

theorem refresh_apply (s : Session σ) (r : Record) (state : σ) :
    s.refresh (r, state) = match persistedKey r with
      | .error e => (.error e, r, state)
      | .ok key =>
          match s.selectRows ((rowIntent r.entity key).withLimit 1) state with
        | (.error e, after) => (.error e, r, after)
        | (.ok (row :: _), after) => (.ok (), r.reload row, after)
        | (.ok [], after) => (.error (.notFound r.entity.name), r, after) := by
  rw [refresh, bind_ok (held_apply r state), bind_apply, orThrow_apply]
  cases persistedKey r with
  | error e => rfl
  | ok key =>
    dsimp only
    rw [bind_apply, alongside_apply]
    obtain ⟨_ | _ | _, _⟩ :=
      s.selectRows ((rowIntent r.entity key).withLimit 1) state <;> rfl

/-! ## Failures -/

/-- What a session does to a record and its row. -/
inductive Persist
  | save
  | delete
  | refresh
deriving DecidableEq

def persist (s : Session σ) : Persist → EffectOn Record σ Unit
  | .save => s.save
  | .delete => s.delete
  | .refresh => s.refresh

/-- Whether an operation writes times into the record before it sends a command:
a save does if the entity has timestamps and there is something to store. -/
def Persist.writesTimes (r : Record) : Persist → Bool
  | .save => r.entity.timestamps && (if r.stored then r.isDirty else r.key?.isSome)
  | .delete | .refresh => false

/-- Two records that differ at most in the given attributes: in what they hold
and in whether they are noted as changed. -/
structure SameBut (names : List String) (before after : Record) : Prop where
  entity : after.entity = before.entity
  snapshot : after.snapshot = before.snapshot
  stored : after.stored = before.stored
  relations : after.relations = before.relations
  raw : ∀ key, key ∉ names → after.raw? key = before.raw? key
  dirty : ∀ key, key ∉ names →
    after.isAttributeDirty key = before.isAttributeDirty key

theorem sameBut_self (names : List String) (r : Record) : SameBut names r r :=
  ⟨rfl, rfl, rfl, rfl, fun _ _ => rfl, fun _ _ => rfl⟩

theorem sameBut_forceFill {names : List String} {pairs : Pairs}
    (h : ∀ pair ∈ pairs, pair.1 ∈ names) (r : Record) :
    SameBut names r (r.forceFill pairs).2 := by
  induction pairs generalizing r with
  | nil => exact sameBut_self names r
  | cons pair rest ih =>
    obtain ⟨hname, hrest⟩ := List.forall_mem_cons.mp h
    rw [Record.forceFill]
    split
    · next written hset =>
      obtain ⟨value, rfl⟩ := Record.set_eq_ok hset
      have hother : ∀ key, key ∉ names → pair.1 ≠ key :=
        fun key hkey heq => hkey (heq ▸ hname)
      have hlater := ih hrest (r.put pair.1 value)
      refine ⟨hlater.entity, hlater.snapshot, hlater.stored, hlater.relations,
        fun key hkey => ?_, fun key hkey => ?_⟩
      · rw [hlater.raw key hkey, Record.raw?_put_of_ne (hother key hkey)]
      · rw [hlater.dirty key hkey,
          Record.isAttributeDirty_put_of_ne (hother key hkey)]
    · exact sameBut_self names r

theorem mem_timesOf {now : Value} {pair : String × Value}
    (h : pair ∈ timesOf r now) : pair.1 ∈ [createdAt, updatedAt] := by
  unfold timesOf at h
  split at h
  · rw [List.mem_singleton.mp h]
    exact List.mem_cons_of_mem _ (List.mem_singleton_self _)
  · rcases List.mem_cons.mp h with rfl | h
    · exact List.mem_cons_self ..
    · rw [List.mem_singleton.mp h]
      exact List.mem_cons_of_mem _ (List.mem_singleton_self _)

/-- A command that fails leaves the record as it is. -/
theorem send_error {operation : Operation}
    {command : Record → Except MappingError Command} {f : Record → Record}
    (h : s.send operation command f (r, state) = (.error e, left, after)) :
    left = r := by
  rw [send_apply] at h
  split at h
  · cases h
    rfl
  · split at h <;> cases h
    rfl

theorem refresh_error (h : s.refresh (r, state) = (.error e, left, after)) :
    left = r := by
  rw [refresh_apply] at h
  split at h
  · cases h
    rfl
  · split at h <;> cases h <;> rfl

/-- If a command fails after the times were written, the record is left with
these. -/
theorem stamp_send_error {operation : Operation}
    {command : Record → Except MappingError Command} {f : Record → Record}
    (h : (s.stamp >>= fun _ => s.send operation command f) (r, state) =
      (.error e, left, after)) : left = if r.entity.timestamps then
        (r.forceFill (timesOf r (.timestamp (s.backend.clock state).1))).2
      else r := by
  cases htimes : r.entity.timestamps with
  | false =>
    rw [bind_ok (stamp_off htimes)] at h
    exact send_error h
  | true =>
    rw [if_pos rfl]
    rw [bind_apply, stamp_on htimes rfl] at h
    cases hfill : (r.forceFill (timesOf r (.timestamp (s.backend.clock state).1))).1
        with
    | error fault =>
      rw [hfill] at h
      cases h
      rfl
    | ok done =>
      rw [hfill] at h
      exact send_error h

theorem save_error (h : s.save (r, state) = (.error e, left, after)) :
    left = if Persist.save.writesTimes r then
        (r.forceFill (timesOf r (.timestamp (s.backend.clock state).1))).2
      else r := by
  unfold Persist.writesTimes
  cases hstored : r.stored with
  | true =>
    cases hdirty : r.isDirty with
    | true =>
      rw [save_dirty hdirty hstored] at h
      simpa using stamp_send_error h
    | false =>
      rw [save_clean hdirty hstored] at h
      cases h
  | false =>
    cases hkey : r.key?.isNone with
    | true =>
      rw [save_keyless hkey hstored] at h
      cases h
      simp [Option.isNone_iff_eq_none.mp hkey]
    | false =>
      rw [save_new hkey hstored] at h
      simpa [← Option.not_isNone, hkey] using stamp_send_error h

theorem delete_error (h : s.delete (r, state) = (.error e, left, after)) :
    left = r := by
  cases hstored : r.stored with
  | true =>
    rw [delete_stored hstored] at h
    exact send_error h
  | false =>
    rw [delete_unstored hstored] at h
    cases h

/-- A failed persist leaves the record as it was, unless it is a save that
writes times: then the record is left with the times that were written, and is
otherwise as it was. -/
theorem failed_persist (s : Session σ) (op : Persist) (r left : Record)
    (state after : σ) (e : MappingError)
    (hfail : s.persist op (r, state) = (.error e, left, after)) :
    (op.writesTimes r = false → left = r) ∧ (op.writesTimes r = true →
        left = (r.forceFill (timesOf r (.timestamp (s.backend.clock state).1))).2) ∧
      SameBut [createdAt, updatedAt] r left := by
  have hleft : left = if op.writesTimes r then
      (r.forceFill (timesOf r (.timestamp (s.backend.clock state).1))).2
          else r := by
    cases op with
    | save => exact save_error hfail
    | delete => exact delete_error hfail
    | refresh => exact refresh_error hfail
  cases hwrites : op.writesTimes r with
  | false =>
    rw [hwrites, if_neg Bool.false_ne_true] at hleft
    rw [hleft]
    exact ⟨fun _ => rfl, nofun, sameBut_self _ r⟩
  | true =>
    rw [hwrites, if_pos rfl] at hleft
    rw [hleft]
    exact ⟨nofun, fun _ => rfl, sameBut_forceFill (fun _ => mem_timesOf) r⟩

/-- A user with an id and times. -/
def timedUser : EntityType where
  name := "User"
  table := "users"
  timestamps := true

/-- An unsaved user. -/
def unsavedUser : Record := (Record.new timedUser).put "id" (.int 1)

/-- A session over a database without tables, which refuses every command. -/
def bareSession : Session LocalStore := .new {} LocalStore.backend

/-- The save of the user writes both times, and is then refused. -/
theorem save_unsavedUser :
    ∃ e after, bareSession.persist .save (unsavedUser, {}) = (.error e,
      (unsavedUser.forceFill (timesOf unsavedUser (.timestamp 1700000000000000))).2,
      after) := by
  have hclock : bareSession.backend.clock {} =
      (1700000000000000, ⟨{}, 1700000000000000 + 1⟩) := rfl
  have hfill : (unsavedUser.forceFill
      (timesOf unsavedUser (.timestamp 1700000000000000))).1 = .ok () := rfl
  rw [persist, save_new rfl rfl, bind_apply, stamp_on rfl hclock, hfill]
  dsimp only
  obtain ⟨c, hc⟩ : ∃ c, bareSession.insertion (unsavedUser.forceFill
      (timesOf unsavedUser (.timestamp 1700000000000000))).2 = .ok c := ⟨_, rfl⟩
  obtain ⟨e, after, hexecute⟩ :=
    LocalStore.exists_execute_error c (1700000000000000 + 1) []
  rw [send_apply, hc]
  dsimp only
  refine ⟨.execution .insert e, after, ?_⟩
  rw [show bareSession.backend.execute c ⟨{}, 1700000000000000 + 1⟩ =
    _ from hexecute]

theorem failed_persist_unsavedUser : ∃ e left after,
    bareSession.persist .save (unsavedUser, {}) = (.error e, left, after) ∧
      left = (unsavedUser.forceFill
          (timesOf unsavedUser (.timestamp 1700000000000000))).2 := by
  obtain ⟨e, after, hfail⟩ := save_unsavedUser
  exact ⟨e, _, after, hfail,
    (failed_persist bareSession .save _ _ _ _ e hfail).2.1 rfl⟩

/-- The refused save leaves both times in the attributes of the user, and in its
changes. -/
theorem failed_save_keeps_times : ∃ e left after,
    bareSession.persist .save (unsavedUser, {}) = (.error e, left, after) ∧
      unsavedUser.attributes.keys = ["id"] ∧ unsavedUser.dirty.keys = ["id"] ∧
      left.attributes.keys = ["created_at", "id", "updated_at"] ∧
      left.dirty.keys = ["created_at", "id", "updated_at"] := by
  obtain ⟨e, after, hfail⟩ := save_unsavedUser
  exact ⟨e, _, after, hfail, rfl, rfl, rfl, rfl⟩

end Session

end EntityMapper
