import EntityMapper.Proofs.Grammar.Refused
import EntityMapper.Proofs.Session.SyntheticPivot

/-!
# What a bulk write may write

A bulk write passes over the names that an entity type guards and writes the
others one after another, so it comes to a forced write of the part of the list
that is not guarded (`fill_eq_forceFill`). From this follow what it leaves
alone, whether it succeeds or not, and what it writes if it succeeds.

A record that is created from a list therefore has no attributes but those that
are not guarded, and the times. Its insertion names these, but as column
references: a name with dots is read as its last segment, and one with an
opening bracket is passed on as it is. So a name that is not guarded can reach a
column whose name is.
-/

namespace EntityMapper

/-! ## The gate -/

namespace EntityType

variable {e : EntityType} {name : String}

/-- An entity type guards a name against bulk writes: there is a list of names
that may be written, and it lacks the name; or there is none, and the list of
those that may not has the name or a star. -/
def Guards (e : EntityType) (name : String) : Prop :=
  (e.fillable ≠ [] ∧ name ∉ e.fillable) ∨
    (e.fillable = [] ∧ (name ∈ e.guarded ∨ "*" ∈ e.guarded))

theorem guards_iff : e.Guards name ↔ e.isFillable name = false := by
  unfold Guards isFillable
  cases e.fillable with
  | nil => simp [or_iff_not_imp_left]
  | cons first rest => simp

theorem not_guards_iff : ¬e.Guards name ↔ e.isFillable name = true := by
  rw [guards_iff, Bool.not_eq_false]

theorem isTotallyGuarded_iff :
    e.isTotallyGuarded = true ↔ e.fillable = [] ∧ "*" ∈ e.guarded := by
  simp [isTotallyGuarded]

theorem guards_of_isTotallyGuarded (h : e.isTotallyGuarded = true) (name : String) :
    e.Guards name :=
  .inr ((isTotallyGuarded_iff.mp h).imp_right .inr)

end EntityType

namespace Record

open Session (SameBut sameBut_self sameBut_forceFill)

variable {r left : Record} {attributes : Pairs} {key : String} {value : Value}

/-- The part of a list that a bulk write of a record may write. -/
def admitted (r : Record) (attributes : Pairs) : Pairs :=
  attributes.filter fun pair => r.entity.isFillable pair.1

/-- Unless nothing may be written, a bulk write is a forced write of what may be. -/
theorem fill_eq_forceFill (h : r.entity.isTotallyGuarded = false)
    (attributes : Pairs) :
    r.fill attributes = r.forceFill (r.admitted attributes) := by
  induction attributes generalizing r with
  | nil => rfl
  | cons pair rest ih =>
    obtain ⟨key, value⟩ := pair
    rw [fill, admitted]
    cases hfillable : r.entity.isFillable key with
    | true =>
      rw [List.filter_cons_of_pos (by simpa using hfillable), if_pos rfl, forceFill]
      cases hset : r.set key value with
      | error e => rfl
      | ok written =>
        obtain ⟨stored, rfl⟩ := set_eq_ok hset
        exact ih h
    | false =>
      rw [List.filter_cons_of_neg (by simpa using hfillable), if_neg (by simp), h,
        if_neg (by simp)]
      exact ih h

/-- Where nothing may be written, the first attribute of a list is refused. -/
theorem fill_cons_of_isTotallyGuarded (h : r.entity.isTotallyGuarded = true)
    (key : String) (value : Value) (rest : Pairs) :
    r.fill ((key, value) :: rest) =
      (.error (.massAssignment r.entity.name key), r) := by
  rw [fill, EntityType.guards_iff.mp (EntityType.guards_of_isTotallyGuarded h key),
    h, if_neg (by simp), if_pos rfl]

theorem mem_admitted {pair : String × Value} :
    pair ∈ r.admitted attributes ↔ pair ∈ attributes ∧ ¬r.entity.Guards pair.1 := by
  rw [admitted, List.mem_filter, EntityType.not_guards_iff]

/-- A bulk write changes no more than what may be written, whether it succeeds
or not. -/
theorem sameBut_fill (r : Record) (attributes : Pairs) :
    SameBut ((r.admitted attributes).map Prod.fst) r (r.fill attributes).2 := by
  cases htotal : r.entity.isTotallyGuarded with
  | false =>
    rw [fill_eq_forceFill htotal]
    exact sameBut_forceFill (fun pair hpair => List.mem_map_of_mem hpair) r
  | true =>
    cases attributes with
    | nil => exact sameBut_self _ r
    | cons pair rest =>
      rw [fill_cons_of_isTotallyGuarded htotal]
      exact sameBut_self _ r

/-- A write that succeeds puts the stored form. -/
theorem set_eq_ok_storedForm {written : Record}
    (h : r.set key value = .ok written) :
    ∃ stored, storedForm r.entity key value = .ok stored ∧
      written = r.put key stored := by
  rw [set] at h
  cases hstored : storedForm r.entity key value with
  | error e =>
    rw [hstored] at h
    cases h
  | ok stored =>
    rw [hstored] at h
    exact ⟨stored, rfl, (Except.ok.inj h).symm⟩

/-- A forced write that succeeds holds the stored form of the last value for
each name. -/
theorem forceFill_last {before rest : Pairs}
    (h : r.forceFill (before ++ (key, value) :: rest) = (.ok (), left))
    (hlast : key ∉ rest.map Prod.fst) :
    ∃ stored, storedForm r.entity key value = .ok stored ∧
      left.raw? key = some stored := by
  induction before generalizing r with
  | nil =>
    rw [List.nil_append, forceFill] at h
    cases hset : r.set key value with
    | error e =>
      rw [hset] at h
      cases h
    | ok written =>
      rw [hset] at h
      obtain ⟨stored, hstored, rfl⟩ := set_eq_ok_storedForm hset
      have hrest : (r.put key stored).forceFill rest = (.ok (), left) := h
      have hsame : SameBut (rest.map Prod.fst) (r.put key stored)
          ((r.put key stored).forceFill rest).2 :=
        sameBut_forceFill (fun _ hpair => List.mem_map_of_mem hpair) _
      rw [hrest] at hsame
      refine ⟨stored, hstored, ?_⟩
      calc
        left.raw? key = (r.put key stored).raw? key :=
          hsame.raw key hlast
        _ = some stored := raw?_put_self r key stored
  | cons pair before ih =>
    rw [List.cons_append, forceFill] at h
    cases hset : r.set pair.1 pair.2 with
    | error e =>
      rw [hset] at h
      cases h
    | ok written =>
      rw [hset] at h
      obtain ⟨stored, -, rfl⟩ := set_eq_ok_storedForm hset
      have hrest :
          (r.put pair.1 stored).forceFill (before ++ (key, value) :: rest) =
            (.ok (), left) := h
      exact ih (r := r.put pair.1 stored) hrest

/-- A bulk write that succeeds holds the stored form of the last value for each
name that is not guarded. -/
theorem fill_last {before rest : Pairs}
    (h : r.fill (before ++ (key, value) :: rest) = (.ok (), left))
    (hlast : key ∉ rest.map Prod.fst) (hkey : ¬r.entity.Guards key) :
    ∃ stored, storedForm r.entity key value = .ok stored ∧
      left.raw? key = some stored := by
  have htotal : r.entity.isTotallyGuarded = false := by
    by_contra htotal
    exact hkey (EntityType.guards_of_isTotallyGuarded (by simpa using htotal) key)
  have hfillable := EntityType.not_guards_iff.mp hkey
  rw [fill_eq_forceFill htotal, admitted, List.filter_append,
    List.filter_cons_of_pos (by simpa using hfillable)] at h
  refine forceFill_last h fun hmem => hlast ?_
  obtain ⟨pair, hpair, hname⟩ := List.mem_map.mp hmem
  exact List.mem_map.mpr ⟨pair, List.mem_of_mem_filter hpair, hname⟩

end Record

/-! ## Columns without dots -/

theorem Grammar.segments_of_not_mem {path : List Char} (h : '.' ∉ path) :
    segments path = [path] := by
  induction path with
  | nil => rfl
  | cons c rest ih =>
    obtain ⟨hc, hrest⟩ := not_or.mp (List.mem_cons.not.mp h)
    rw [segments, if_neg (Ne.symm hc), ih hrest]

theorem columnOf_of_not_mem {column : String} (h : '.' ∉ column.toList) :
    columnOf column = column := by
  rw [columnOf, lastSegment, Grammar.segments_of_not_mem h]
  exact String.ofList_toList

namespace Session

open Effect

variable {σ : Type} {s : Session σ} {e : EntityType} {attributes : Pairs}
  {name : String}

/-! ## Created records -/

/-- A name that a record created from a list may have: one of the list that is
not guarded, or that of a time. -/
def Admits (e : EntityType) (attributes : Pairs) (name : String) : Prop :=
  (name ∈ attributes.map Prod.fst ∧ ¬e.Guards name) ∨ name ∈ e.timeNames

/-- A command that inserts admitted names. If none of them is a function call,
whatever statement it is read as is an insertion into columns with these names,
or with their last segments. -/
structure Creates (s : Session σ) (e : EntityType) (attributes : Pairs)
    (c : Command) : Prop where
  written : ∃ pairs, s.grammar.insert (.new e.table) pairs = .ok c ∧
    ∀ pair ∈ pairs, Admits e attributes pair.1
  read : (∀ pair ∈ attributes, ¬e.Guards pair.1 → NoCall pair.1) →
    ∀ parsed, ParsedCommand.parse c.text = .ok parsed → ∃ statement,
        parsed.statement = .insert statement ∧ statement.table = columnOf e.table ∧
          ∀ column ∈ statement.columns, ∃ name, Admits e attributes name ∧
            (column = name ∨ '.' ∈ name.toList ∧ column = columnOf name)

theorem noCall_timeNames {name : String} (h : name ∈ e.timeNames) :
    NoCall name := by
  have hcalls : ∀ name ∈ [createdAt, updatedAt], NoCall name := by decide
  unfold EntityType.timeNames at h
  split at h
  · exact hcalls name h
  · cases h

theorem creates_of_insert {pairs : Pairs} {c : Command}
    (hpairs : ∀ pair ∈ pairs, Admits e attributes pair.1)
    (hc : s.grammar.insert (.new e.table) pairs = .ok c) :
    s.Creates e attributes c := by
  refine ⟨⟨pairs, hc, hpairs⟩, fun hcalls parsed hparse => ?_⟩
  have hnames : ∀ pair ∈ pairs, NoCall pair.1 := by
    intro pair hpair
    rcases hpairs pair hpair with ⟨hmem, hguards⟩ | htime
    · obtain ⟨given, hgiven, hname⟩ := List.mem_map.mp hmem
      rw [← hname] at hguards ⊢
      exact hcalls given hgiven hguards
    · exact noCall_timeNames htime
  obtain ⟨htable, hcolumns⟩ := Grammar.readsBack_of_parse_insert hnames hc hparse
  have hread := Grammar.parse_insert_readsBack htable hcolumns hc
  obtain rfl := Except.ok.inj (hparse.symm.trans hread)
  refine ⟨_, rfl, rfl, fun column hcolumn => ?_⟩
  obtain ⟨pair, hpair, rfl⟩ := List.mem_map.mp hcolumn
  refine ⟨pair.1, hpairs pair hpair, ?_⟩
  by_cases hdot : '.' ∈ pair.1.toList
  · exact .inr ⟨hdot, rfl⟩
  · exact .inl (columnOf_of_not_mem hdot)

/-- The record that a bulk write makes of a new one. -/
def filled (e : EntityType) (attributes : Pairs) : Record :=
  ((Record.new e).fill attributes).2

theorem sameBut_filled (e : EntityType) (attributes : Pairs) :
    SameBut (((Record.new e).admitted attributes).map Prod.fst) (.new e)
      (filled e attributes) :=
  Record.sameBut_fill _ attributes

/-- Creating a record fills a new one and saves it. -/
theorem create_state (he : s.entities.get? name = some e)
    (attributes : Pairs) (state : σ) :
    (s.create name attributes state).2 =
      match ((Record.new e).fill attributes).1 with
      | .ok _ => (s.save (filled e attributes, state)).2.2
      | .error _ => state := by
  have hentity : s.entity name = .ok e := by rw [entity, he]
  have hfill : (writeAll (fun record => record.fill attributes) :
        EffectOn Record σ Unit) (.new e, state) =
      (((Record.new e).fill attributes).1, filled e attributes, state) := rfl
  rw [create, hentity, bind_ok (orThrow_apply _ state),
    bind_ok (holding_apply _ _ state), bind_apply, hfill]
  cases ((Record.new e).fill attributes).1 with
  | error fault => rfl
  | ok done =>
    dsimp only
    rw [bind_apply, orThrow_apply]
    cases (s.save (filled e attributes, state)).1 <;> rfl

/-- The insertion of a record with the times written into it is one of admitted
names. -/
theorem creates_insertion {d : Record}
    (h : SameBut e.timeNames (filled e attributes) d) {c : Command}
    (hc : s.insertion d = .ok c) : s.Creates e attributes c := by
  have hfilled := sameBut_filled e attributes
  rw [insertion, h.entity, hfilled.entity] at hc
  refine creates_of_insert (fun pair hpair => ?_) (compiled_eq_ok.mp hc)
  have hsome : (d.raw? pair.1).isSome = true :=
    NameMap.lookup_isSome_iff.mpr (List.mem_map_of_mem hpair)
  by_cases htime : pair.1 ∈ e.timeNames
  · exact .inr htime
  · by_cases hname : pair.1 ∈ ((Record.new e).admitted attributes).map Prod.fst
    · obtain ⟨given, hgiven, heq⟩ := List.mem_map.mp hname
      obtain ⟨hmem, hguards⟩ := Record.mem_admitted.mp hgiven
      exact .inl ⟨heq ▸ List.mem_map_of_mem hmem, heq ▸ hguards⟩
    · rw [h.raw _ htime, hfilled.raw _ hname] at hsome
      cases hsome

/-- Whatever is sent to create a record inserts admitted names. -/
theorem sends_create (he : s.entities.get? name = some e) (attributes : Pairs)
    (before : σ × List Command) :
    Sends (s.Creates e attributes) before
      (s.recording.create name attributes before).2 := by
  rw [create_state (s := s.recording) he]
  cases ((Record.new e).fill attributes).1 with
  | error fault => exact sends_of_eq rfl
  | ok done =>
    dsimp only
    have hfilled := sameBut_filled e attributes
    cases hkey : (filled e attributes).key?.isNone with
    | true =>
      rw [save_keyless hkey hfilled.stored]
      exact sends_of_eq rfl
    | false =>
      rw [save_new hkey hfilled.stored]
      have hsame := s.recording.sameBut_stamp (filled e attributes) before
      have hlog := s.log_stamp (filled e attributes) before
      rw [show (filled e attributes).entity = e from hfilled.entity] at hsame
      rcases hstamp : s.recording.stamp (filled e attributes, before) with
        ⟨fault | _, d, next⟩
      · rw [bind_error hstamp]
        rw [hstamp] at hlog
        exact sends_of_eq hlog
      · rw [bind_ok hstamp]
        rw [hstamp] at hsame hlog
        exact (sends_of_eq hlog).trans
          (sends_send (fun c => creates_insertion hsame) next)

/-- **Bulk writes spare what is guarded.** Whether a bulk write succeeds or not,
a guarded name holds what it did. If it succeeds, the other names of the list
hold the stored form of their last values. Where everything is guarded, a list
is refused and nothing is changed. And what is sent to create a record from a
list inserts names of the list that are not guarded, and times. -/
theorem bulk_writes_spare_guarded :
    (∀ (r : Record) (attributes : Pairs) (key : String), r.entity.Guards key →
      (r.fill attributes).2.raw? key = r.raw? key ∧
        (r.fill attributes).2.baseline? key = r.baseline? key ∧
        (r.fill attributes).2.isAttributeDirty key = r.isAttributeDirty key) ∧
    (∀ (r left : Record) (before rest : Pairs) (key : String) (value : Value),
      r.fill (before ++ (key, value) :: rest) = (.ok (), left) →
        key ∉ rest.map Prod.fst → ¬r.entity.Guards key →
          ∃ stored, Record.storedForm r.entity key value = .ok stored ∧
            left.raw? key = some stored) ∧
    (∀ (r : Record) (attributes : Pairs), r.entity.fillable = [] →
      "*" ∈ r.entity.guarded → attributes ≠ [] →
        ∃ fault, r.fill attributes = (.error fault, r)) ∧
    ∀ {σ : Type} (s : Session σ) (name : String) (e : EntityType)
      (attributes : Pairs) (before : σ × List Command),
      s.entities.get? name = some e →
        Sends (s.Creates e attributes) before
          (s.recording.create name attributes before).2 := by
  refine ⟨fun r attributes key hkey => ?_, fun r left before rest key value =>
    Record.fill_last, fun r attributes hfillable hstar hsome => ?_,
    fun s name e attributes before he => sends_create he attributes before⟩
  · have hsame := r.sameBut_fill attributes
    have hother : key ∉ (r.admitted attributes).map Prod.fst := fun hmem => by
      obtain ⟨pair, hpair, rfl⟩ := List.mem_map.mp hmem
      exact (Record.mem_admitted.mp hpair).2 hkey
    exact ⟨hsame.raw key hother, congrArg (·.get? key) hsame.snapshot,
      hsame.dirty key hother⟩
  · obtain ⟨⟨key, value⟩, rest, rfl⟩ := List.exists_cons_of_ne_nil hsome
    exact ⟨_, Record.fill_cons_of_isTotallyGuarded
      (EntityType.isTotallyGuarded_iff.mpr ⟨hfillable, hstar⟩) key value rest⟩

/-! ## A user with a guarded role -/

/-- Users whose role is guarded, and whose visits are stored as the next number. -/
def guardedUser : EntityType where
  name := "User"
  table := "users"
  casts := .ofList [("visits", .int)]
  transforms := .ofList [("visits", { setter := some Transform.increment })]
  guarded := ["role"]
  timestamps := true

/-- Users of whom nothing may be written. -/
def sealedUser : EntityType := { guardedUser with guarded := ["*"] }

/-- A session over a backend that gives prepared answers. -/
def guardSession : Session ScriptedStore :=
  (Session.new {} (ScriptedStore.backend false)).register guardedUser

/-- The answer to an insertion. -/
def insertionAnswer : ScriptedStore := { answers := [.ok (.affected 1)] }

/-- The attributes of a new user, with a role, and with visits twice. -/
def signUp : Pairs :=
  [("id", .int 1), ("visits", .int 1), ("role", .text "admin"), ("visits", .int 4)]

/-- A stored user with a role. -/
def guest : Record :=
  .hydrate guardedUser (.ofList [("id", .int 1), ("role", .text "guest")])

/-- A stored user of whom nothing may be written. -/
def sealedGuest : Record := .hydrate sealedUser (.ofList [("id", .int 1)])

theorem bulk_writes_spare_guarded_signUp : guardedUser.Guards "role" ∧
    ¬guardedUser.Guards "visits" ∧ (guest.fill signUp).1 = .ok () ∧
    (guest.fill signUp).2.raw? "role" = some (.text "guest") ∧
    (guest.fill signUp).2.raw? "visits" = some (.int 5) ∧
    (∃ fault, sealedGuest.fill signUp = (.error fault, sealedGuest)) ∧
    guardSession.entities.get? "User" = some guardedUser ∧
    ∃ c, (guardSession.recording.create "User" signUp (insertionAnswer, [])).2.2 =
        [c] ∧
      c.text =
        "INSERT INTO users (created_at, id, updated_at, visits) VALUES (?, ?, ?, ?)" ∧
      guardSession.Creates guardedUser signUp c := by
  obtain ⟨hspares, hlast, hrefused, hcreate⟩ := bulk_writes_spare_guarded
  have hrole : guardedUser.Guards "role" := EntityType.guards_iff.mpr rfl
  have hvisits : ¬guardedUser.Guards "visits" := EntityType.not_guards_iff.mpr rfl
  obtain ⟨stored, hstored, hfour⟩ := hlast guest _ (signUp.take 3) [] "visits"
    (.int 4) rfl List.not_mem_nil hvisits
  obtain rfl : .int 5 = stored := Except.ok.inj hstored
  have hlog : (guardSession.recording.create "User" signUp
        (insertionAnswer, [])).2.2 =
      [⟨"INSERT INTO users (created_at, id, updated_at, visits) VALUES (?, ?, ?, ?)",
        [.timestamp 1700000000000000, .int 1, .timestamp 1700000000000000,
          .int 5]⟩] := rfl
  obtain ⟨sent, hsent, hcreates⟩ := hcreate guardSession "User" guardedUser signUp
    (insertionAnswer, []) rfl
  rw [hlog, List.nil_append] at hsent
  exact ⟨hrole, hvisits, rfl, (hspares guest signUp "role" hrole).1, hfour,
    hrefused sealedGuest signUp rfl
      (List.mem_singleton_self _) (List.cons_ne_nil _ _),
    rfl, _, hlog, rfl, hcreates _ (hsent ▸ List.mem_singleton_self _)⟩

/-- The columns of an insertion, as it is read. -/
def insertedColumns? (c : Command) : Option (List String) :=
  match ParsedCommand.parse c.text with
  | .ok ⟨.insert statement, _⟩ => some statement.columns
  | _ => none

/-- The entity type of users guards the role. But a name with a table is another
name to it, and the same column to the one who reads the insertion. And two
names that are passed on as function calls can have the role between them, and
close each other's quotation. -/
theorem create_reaches_guarded :
    guardedUser.Guards "role" ∧ "role" ∉ guardedUser.timeNames ∧
      (∃ c, (guardSession.recording.create "User" [("id", .int 1),
            ("users.role", .text "admin")] (insertionAnswer, [])).2.2 = [c] ∧
        insertedColumns? c = some ["created_at", "id", "updated_at", "role"]) ∧
      ∃ c, (guardSession.recording.create
          "User" [("id", .int 1), ("role, \"(", .text "admin"), ("s(\"", .null)]
          (insertionAnswer, [])).2.2 = [c] ∧
        insertedColumns? c =
          some ["created_at", "id", "role", "(, s(", "updated_at"] := by
  refine ⟨EntityType.guards_iff.mpr rfl, by decide,
    ⟨⟨"INSERT INTO users (created_at, id, updated_at, users.role) VALUES (?, ?, ?, ?)",
        [.timestamp 1700000000000000, .int 1, .timestamp 1700000000000000,
          .text "admin"]⟩, rfl, ?_⟩,
    ⟨⟨"INSERT INTO users (created_at, id, role, \"(, s(\", updated_at) VALUES (?, ?, ?, ?, ?)",
        [.timestamp 1700000000000000, .int 1, .text "admin", .null,
          .timestamp 1700000000000000]⟩, rfl, ?_⟩⟩
  · decide +kernel
  · decide +kernel

end Session

end EntityMapper
