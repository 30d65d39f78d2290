import EntityMapper.Proofs.Model.Changes

/-!
# Snapshots and rows

The snapshot of a record is what its row holds, up to values that are equal
without being the same: a write that only changes the sign of a zero is not
noted as a change, and so the row keeps the other zero. Rows are compared
accordingly. Writing the noted changes of a record over a row that is alike to
its snapshot gives a row that is alike to the record.
-/

namespace EntityMapper

/-- Two rows that hold at each name the same or an equal value. -/
def Alike (row other : Row) : Prop :=
  ∀ name, row.get? name = other.get? name ∨
    (row.get? name == other.get? name) = true

theorem alike_refl (row : Row) : Alike row row := fun _ => .inl rfl

theorem same_trans {α : Type} [BEq α] [PartialEquivBEq α] {a b c : α}
    (h : a = b ∨ (a == b) = true) (hnext : b = c ∨ (b == c) = true) :
    a = c ∨ (a == c) = true := by
  rcases h with rfl | hequal
  · exact hnext
  · rcases hnext with rfl | hequal'
    · exact .inr hequal
    · exact .inr (PartialEquivBEq.trans hequal hequal')

theorem Alike.trans {row other next : Row} (h : Alike row other)
    (hnext : Alike other next) : Alike row next :=
  fun name => same_trans (h name) (hnext name)

/-- A record that tracks its changes differs from its snapshot at most in the
noted ones. -/
theorem Record.Tracks.alike_of_clean {r : Record} (h : r.Tracks) {name : String}
    (hclean : r.isAttributeDirty name = false) :
    r.baseline? name = r.raw? name ∨ (r.baseline? name == r.raw? name) = true := by
  rcases h.kept name hclean with hsame | ⟨value, hraw, hsame⟩
  · exact .inl hsame.symm
  · rw [hraw]
    cases hbaseline : r.baseline? name with
    | none => simp [hbaseline, Record.sameValue] at hsame
    | some old =>
      rw [hbaseline] at hsame
      exact .inr hsame

/-- The changes of a record, looked up by name. -/
theorem Record.Tracks.get?_changes {r : Record} (h : r.Tracks) (name : String) :
    (⟨r.changes⟩ : Row).get? name =
      if r.isAttributeDirty name then r.raw? name else none := by
  have hlookup :=
    NameMap.lookup_map (fun key => (r.raw? key).getD .null) r.dirty.keys name
  rw [NameMap.get?, changes, hlookup]
  cases hdirty : r.isAttributeDirty name with
  | true =>
    obtain ⟨value, hraw, -⟩ := h.changed name hdirty
    rw [if_pos (NameMap.contains_iff.mp hdirty), hraw]
    rfl
  | false =>
    have hmem : name ∉ r.dirty.keys := fun hmem => by
      rw [isAttributeDirty, NameMap.contains_iff.mpr hmem] at hdirty
      cases hdirty
    rw [if_neg hmem]
    rfl

/-- A row that takes over the changes of a record holds what the record does. -/
theorem Record.Tracks.alike_extend {r : Record} (h : r.Tracks) {row : Row}
    (halike : Alike row r.snapshot) :
    Alike (row.extend ⟨r.changes⟩) r.attributes := by
  have hordered : NameMap.WellFormed (⟨r.changes⟩ : Row) :=
    List.pairwise_map.mp h.changes_ordered
  intro name
  rw [NameMap.get?_extend row hordered, h.get?_changes]
  cases hdirty : r.isAttributeDirty name with
  | true =>
    obtain ⟨value, hraw, -⟩ := h.changed name hdirty
    rw [if_pos rfl, hraw, Option.some_or]
    exact .inl hraw.symm
  | false =>
    rw [if_neg Bool.false_ne_true, Option.none_or]
    exact same_trans (halike name) (h.alike_of_clean hdirty)

end EntityMapper
