import EntityMapper.Model.Record
import EntityMapper.Proofs.Equality
import EntityMapper.Proofs.NameMap

/-!
# What a record knows to be changed

A record keeps the names of its changed attributes while it is written to, it
does not compare itself with its baseline when it is asked. This module proves
that the two are the same: after any history of a record, an attribute is noted
as changed iff its value is not the one of the baseline. Every change keeps one
invariant, `Tracks`, failing ones included, since a bulk write that fails leaves
what it wrote before.

A NaN is the exception. A record that is loaded with one is clean although the
NaN differs from itself, so the statement is about values that equal themselves.
-/

namespace EntityMapper.Record

/-! ## Histories -/

/-- What can be done to a record. -/
inductive Change
  | set (key : String) (value : Value)
  | fill (attributes : Pairs)
  | forceFill (attributes : Pairs)
  | associate (relation : String) (owner : Record)
  | dissociate (relation : String)
  | syncBaseline
  | reload (row : Row)
  | mergeSynthetic (key : String) (value : Value)
  | setRelation (name : String) (related : Related Record)

/-- The record a write gives; if the write fails, the record it was tried on. -/
def settle (r : Record) :
    Except MappingError Record → Except MappingError Unit × Record
  | .ok written => (.ok (), written)
  | .error e => (.error e, r)

/-- Make a change: whether it succeeded, and the record as it is then. -/
def apply (r : Record) : Change → Except MappingError Unit × Record
  | .set key value => r.settle (r.set key value)
  | .fill attributes => r.fill attributes
  | .forceFill attributes => r.forceFill attributes
  | .associate relation owner => r.settle (r.associate relation owner)
  | .dissociate relation => r.settle (r.dissociate relation)
  | .syncBaseline => (.ok (), r.syncBaseline)
  | .reload row => (.ok (), r.reload row)
  | .mergeSynthetic key value => (.ok (), r.mergeSynthetic key value)
  | .setRelation name related => (.ok (), r.setRelation name related)

/-- A record with its history: it began as a new or a loaded one and went
through changes, each of which may have failed. -/
inductive Reached : Record → Prop
  | new (entity : EntityType) : Reached (.new entity)
  | hydrate (entity : EntityType) (row : Row) : Reached (.hydrate entity row)
  | change {r : Record} (h : Reached r) (c : Change) : Reached (r.apply c).2

/-! ## The invariant -/

/-- The noted names are in order, a noted attribute has a value that is not that
of the baseline, and one that is not noted is as in the baseline. -/
structure Tracks (r : Record) : Prop where
  ordered : r.dirty.WellFormed
  changed : ∀ key, r.isAttributeDirty key = true →
    ∃ value, r.raw? key = some value ∧ sameValue (r.baseline? key) value = false
  kept : ∀ key, r.isAttributeDirty key = false → r.raw? key = r.baseline? key ∨
    ∃ value, r.raw? key = some value ∧ sameValue (r.baseline? key) value = true

variable {r : Record}

/-- A record without noted names tracks its changes if it is its own baseline. -/
theorem tracks_of_clean (hdirty : r.dirty = ∅) (h : r.snapshot = r.attributes) :
    r.Tracks where
  ordered := hdirty ▸ NameMap.wellFormed_empty
  changed key hkey := by simp [isAttributeDirty, hdirty, NameMap.contains] at hkey
  kept key _ := .inl (by rw [raw?, baseline?, h])

theorem tracks_new (entity : EntityType) : (Record.new entity).Tracks :=
  tracks_of_clean rfl rfl

theorem tracks_hydrate (entity : EntityType) (row : Row) :
    (Record.hydrate entity row).Tracks :=
  tracks_of_clean rfl rfl

theorem tracks_syncBaseline (r : Record) : r.syncBaseline.Tracks :=
  tracks_of_clean rfl rfl

theorem tracks_reload (r : Record) (row : Row) : (r.reload row).Tracks :=
  tracks_of_clean rfl rfl

/-- Relations have no part in tracking. -/
theorem Tracks.setRelation (h : r.Tracks) (name : String)
    (related : Related Record) : (r.setRelation name related).Tracks :=
  ⟨h.ordered, h.changed, h.kept⟩

/-! ## Writing one attribute -/

theorem raw?_put (r : Record) (key other : String) (value : Value) :
    (r.put key value).raw? other =
      if key = other then some value else r.raw? other :=
  NameMap.get?_insert r.attributes key other value

theorem raw?_put_self (r : Record) (key : String) (value : Value) :
    (r.put key value).raw? key = some value := by
  rw [raw?_put, if_pos rfl]

theorem raw?_put_of_ne {key other : String} (h : key ≠ other) (r : Record)
    (value : Value) : (r.put key value).raw? other = r.raw? other := by
  rw [raw?_put, if_neg h]

/-- The first write takes the baseline; no write changes it. -/
theorem baseline?_put (r : Record) (key other : String) (value : Value) :
    (r.put key value).baseline? other = r.baseline? other := rfl

theorem isAttributeDirty_put (r : Record) (key other : String) (value : Value) :
    (r.put key value).isAttributeDirty other = if key = other then
        !sameValue (r.baseline? key) value else r.isAttributeDirty other := by
  unfold put isAttributeDirty baseline?
  dsimp only
  cases sameValue (r.snapshot.get? key) value <;>
    by_cases h : key = other <;> simp [h]

theorem isAttributeDirty_put_of_ne {key other : String} (h : key ≠ other)
    (r : Record) (value : Value) :
    (r.put key value).isAttributeDirty other = r.isAttributeDirty other := by
  rw [isAttributeDirty_put, if_neg h]

theorem Tracks.put (h : r.Tracks) (key : String) (value : Value) :
    (r.put key value).Tracks where
  ordered := by
    unfold Record.put
    dsimp only
    split
    · exact h.ordered.erase key
    · exact h.ordered.insert key ()
  changed other hdirty := by
    rw [isAttributeDirty_put] at hdirty
    rw [raw?_put, baseline?_put]
    by_cases hkey : key = other
    · subst hkey
      rw [if_pos rfl] at hdirty ⊢
      exact ⟨value, rfl, by simpa using hdirty⟩
    · rw [if_neg hkey] at hdirty ⊢
      exact h.changed other hdirty
  kept other hclean := by
    rw [isAttributeDirty_put] at hclean
    rw [raw?_put, baseline?_put]
    by_cases hkey : key = other
    · subst hkey
      rw [if_pos rfl] at hclean ⊢
      exact .inr ⟨value, rfl, by simpa using hclean⟩
    · rw [if_neg hkey] at hclean ⊢
      exact h.kept other hclean

/-- A synthetic value goes into the attributes and the baseline alike. -/
theorem Tracks.mergeSynthetic (h : r.Tracks) (key : String) (value : Value) :
    (r.mergeSynthetic key value).Tracks := by
  have hraw (other : String) : (r.mergeSynthetic key value).raw? other =
      if key = other then some value else r.raw? other :=
    NameMap.get?_insert r.attributes key other value
  have hbaseline (other : String) : (r.mergeSynthetic key value).baseline? other =
      if key = other then some value else r.baseline? other :=
    NameMap.get?_insert r.snapshot key other value
  have hdirty (other : String) :
      (r.mergeSynthetic key value).isAttributeDirty other =
        (!decide (key = other) && r.isAttributeDirty other) :=
    NameMap.contains_erase r.dirty key other
  constructor
  · exact h.ordered.erase key
  · intro other hother
    rw [hdirty, Bool.and_eq_true, Bool.not_eq_true',
      decide_eq_false_iff_not] at hother
    rw [hraw, hbaseline, if_neg hother.1, if_neg hother.1]
    exact h.changed other hother.2
  · intro other hother
    rw [hraw, hbaseline]
    by_cases hkey : key = other
    · rw [if_pos hkey, if_pos hkey]
      exact .inl rfl
    · rw [hdirty, decide_eq_false hkey, Bool.not_false, Bool.true_and] at hother
      rw [if_neg hkey, if_neg hkey]
      exact h.kept other hother

/-! ## Every change -/

theorem set_eq_ok {key : String} {value : Value} {written : Record}
    (h : r.set key value = .ok written) : ∃ stored, written = r.put key stored := by
  unfold set at h
  cases hstored : storedForm r.entity key value with
  | error e => simp [hstored, Except.map] at h
  | ok stored =>
    rw [hstored] at h
    exact ⟨stored, (Except.ok.inj h).symm⟩

theorem Tracks.set (h : r.Tracks) {key : String} {value : Value} {written : Record}
    (hset : r.set key value = .ok written) : written.Tracks := by
  obtain ⟨stored, rfl⟩ := set_eq_ok hset
  exact h.put key stored

theorem Tracks.forceFill (h : r.Tracks) (attributes : Pairs) :
    (r.forceFill attributes).2.Tracks := by
  induction attributes generalizing r with
  | nil => exact h
  | cons pair rest ih =>
    obtain ⟨key, value⟩ := pair
    rw [Record.forceFill]
    split
    · next hset => exact ih (h.set hset)
    · exact h

theorem Tracks.fill (h : r.Tracks) (attributes : Pairs) :
    (r.fill attributes).2.Tracks := by
  induction attributes generalizing r with
  | nil => exact h
  | cons pair rest ih =>
    obtain ⟨key, value⟩ := pair
    rw [Record.fill]
    split
    · split
      · next hset => exact ih (h.set hset)
      · exact h
    · split
      · exact h
      · exact ih h

theorem Tracks.settle (h : r.Tracks) {result : Except MappingError Record}
    (hresult : ∀ written, result = .ok written → written.Tracks) :
    (r.settle result).2.Tracks := by
  cases result with
  | ok written => exact hresult written rfl
  | error e => exact h

/-- An attribute written as part of setting a relation. -/
theorem Tracks.setThenRelate (h : r.Tracks) {key name : String} {value : Value}
    {related : Related Record} {written : Record}
    (hwritten : (do return (← r.set key value).setRelation name related) =
      Except.ok written) : written.Tracks := by
  cases hset : r.set key value with
  | error e => simp [hset, bind, Except.bind] at hwritten
  | ok changed =>
    rw [hset] at hwritten
    obtain rfl := Except.ok.inj hwritten
    exact (h.set hset).setRelation name related

theorem Tracks.associate (h : r.Tracks) {name : String} {owner written : Record}
    (hwritten : r.associate name owner = .ok written) : written.Tracks := by
  unfold Record.associate at hwritten
  cases howner : r.declaredOwner name with
  | error e => simp [howner, bind, Except.bind] at hwritten
  | ok belongs =>
    rw [howner] at hwritten
    simp only [bind, Except.bind] at hwritten
    split at hwritten
    · simp [throw, throwThe, MonadExceptOf.throw] at hwritten
    · exact h.setThenRelate hwritten

theorem Tracks.dissociate (h : r.Tracks) {name : String} {written : Record}
    (hwritten : r.dissociate name = .ok written) : written.Tracks := by
  unfold Record.dissociate at hwritten
  cases howner : r.declaredOwner name with
  | error e => simp [howner, bind, Except.bind] at hwritten
  | ok belongs =>
    rw [howner] at hwritten
    exact h.setThenRelate hwritten

/-- Every change keeps the invariant, whether it succeeds or not. -/
theorem Tracks.apply (h : r.Tracks) (c : Change) : (r.apply c).2.Tracks := by
  cases c with
  | set key value => exact h.settle fun _ hset => h.set hset
  | fill attributes => exact h.fill attributes
  | forceFill attributes => exact h.forceFill attributes
  | associate relation owner =>
    exact h.settle fun _ hwritten => h.associate hwritten
  | dissociate relation => exact h.settle fun _ hwritten => h.dissociate hwritten
  | syncBaseline => exact tracks_syncBaseline r
  | reload row => exact tracks_reload r row
  | mergeSynthetic key value => exact h.mergeSynthetic key value
  | setRelation name related => exact h.setRelation name related

theorem Reached.tracks (h : Reached r) : r.Tracks := by
  induction h with
  | new entity => exact tracks_new entity
  | hydrate entity row => exact tracks_hydrate entity row
  | change _ c ih => exact ih.apply c

/-! ## What the invariant says -/

/-- Whether an attribute is noted as changed, by comparison with the baseline. -/
theorem Tracks.isAttributeDirty_iff (h : r.Tracks) {key : String}
    (hself : ∀ value ∈ r.raw? key, (value == value) = true) :
    r.isAttributeDirty key = true ↔ (r.raw? key == r.baseline? key) = false := by
  constructor
  · intro hdirty
    obtain ⟨value, hraw, hdiffers⟩ := h.changed key hdirty
    rw [hraw]
    cases hbaseline : r.baseline? key with
    | none => rfl
    | some old =>
      rw [hbaseline] at hdiffers
      rw [← Bool.not_eq_true] at hdiffers ⊢
      exact fun hsame => hdiffers (PartialEquivBEq.symm (α := Value) hsame)
  · intro hdiffers
    cases hdirty : r.isAttributeDirty key with
    | true => rfl
    | false =>
      rcases h.kept key hdirty with hsame | ⟨value, hraw, hsame⟩
      · rw [← hsame] at hdiffers
        cases hraw : r.raw? key with
        | none => simp [hraw] at hdiffers
        | some value =>
          rw [hraw] at hdiffers
          exact absurd (hself value hraw) (by simpa using hdiffers)
      · cases hbaseline : r.baseline? key with
        | none => simp [hbaseline, sameValue] at hsame
        | some old =>
          rw [hraw, hbaseline] at hdiffers
          rw [hbaseline] at hsame
          exact absurd (PartialEquivBEq.symm (α := Value) hsame)
            (by simpa using hdiffers)

theorem Tracks.mem_changes_iff (h : r.Tracks) {key : String} {value : Value} :
    (key, value) ∈ r.changes ↔
      r.isAttributeDirty key = true ∧ r.raw? key = some value := by
  rw [changes, List.mem_map, isAttributeDirty, NameMap.contains_iff]
  constructor
  · rintro ⟨other, hmem, heq⟩
    obtain ⟨rfl, rfl⟩ := Prod.mk.inj heq
    obtain ⟨stored, hraw, -⟩ := h.changed other (NameMap.contains_iff.mpr hmem)
    exact ⟨hmem, by rw [hraw, Option.getD_some]⟩
  · rintro ⟨hmem, hraw⟩
    exact ⟨key, hmem, by rw [hraw, Option.getD_some]⟩

theorem Tracks.changes_ordered (h : r.Tracks) :
    (r.changes.map Prod.fst).Pairwise fun first second => first < second := by
  have hkeys : r.changes.map Prod.fst = r.dirty.keys := by
    simp [changes, Function.comp_def]
  rw [hkeys, NameMap.keys]
  exact List.pairwise_map.mpr h.ordered

/-- A write that fails leaves the record as it is. -/
theorem settle_error {result : Except MappingError Record} {e : MappingError}
    (h : (r.settle result).1 = .error e) : (r.settle result).2 = r := by
  cases result with
  | ok written => cases h
  | error _ => rfl

/-- After any history of a record: an attribute is noted as changed iff its
value is not the one of the baseline; the changes are these attributes with
their values, each once and in order; and a write that fails leaves the record
as it is. -/
theorem reached_changes (h : Reached r) :
    (∀ key, (∀ value ∈ r.raw? key, (value == value) = true) →
      (r.isAttributeDirty key = true ↔ (r.raw? key == r.baseline? key) = false)) ∧
      ((r.changes.map Prod.fst).Pairwise fun first second => first < second) ∧
      (∀ key value, (key, value) ∈ r.changes ↔
        r.isAttributeDirty key = true ∧ r.raw? key = some value) ∧
      ∀ key value e, (r.apply (.set key value)).1 = .error e →
        (r.apply (.set key value)).2 = r :=
  have htracks := h.tracks
  ⟨fun _ hself => htracks.isAttributeDirty_iff hself, htracks.changes_ordered,
    fun _ _ => htracks.mem_changes_iff, fun _ _ _ he => settle_error he⟩

/-! ### A shop with a history -/

/-- A shop: its day of opening is cast to a date, its tag is stored as a list of
one. -/
def shop : EntityType where
  name := "Shop"
  table := "shops"
  casts := (∅ : NameMap Cast).insert "opened" .date
  transforms :=
    (∅ : NameMap Transform).insert "tag" { setter := some Transform.wrap }
  relations :=
    (∅ : NameMap Relation).insert "owner" (.belongsTo ⟨"User", "owner_id", "id"⟩)

/-- A bulk write that fails at its third attribute, when it has changed the tag
and written the balance as it was. -/
def failingEdit : Pairs :=
  [("tag", .text "grocer"), ("balance", .float (.zero true)),
    ("opened", .text "soon"), ("note", .text "never written")]

/-- A loaded shop after the failing bulk write, a mark that does not count as a
change, and the loss of its owner. -/
def editedShop : Record :=
  let loaded : Row := (((∅ : Row).insert "balance" (.float (.zero false))).insert
      "owner_id" (.int 3)).insert "tag" (.list [])
  let filled := ((Record.hydrate shop loaded).apply (.fill failingEdit)).2
  let marked := (filled.apply (.mergeSynthetic "rank" (.int 1))).2
  (marked.apply (.dissociate "owner")).2

theorem reached_editedShop : Reached editedShop :=
  .change (.change (.change (.hydrate shop _) (.fill failingEdit))
      (.mergeSynthetic "rank" (.int 1))) (.dissociate "owner")

/-- The shop is changed in its tag and its owner; its balance differs from the
loaded one only in the sign of zero, and is not a change. -/
theorem reached_changes_editedShop :
    editedShop.changes = [("owner_id", .null), ("tag", .list [.text "grocer"])] ∧
      editedShop.raw? "balance" = some (.float (.zero true)) ∧
      (editedShop.isAttributeDirty "balance" = true ↔
        (editedShop.raw? "balance" == editedShop.baseline? "balance") = false) ∧
      (("owner_id", .null) ∈ editedShop.changes ↔
        editedShop.isAttributeDirty "owner_id" = true ∧
          editedShop.raw? "owner_id" = some .null) := by
  obtain ⟨hdirty, -, hmem, -⟩ := reached_changes reached_editedShop
  refine ⟨rfl, rfl, hdirty "balance" fun value hvalue => ?_, hmem "owner_id" .null⟩
  obtain rfl : .float (.zero true) = value := Option.some.inj hvalue
  decide

end EntityMapper.Record
