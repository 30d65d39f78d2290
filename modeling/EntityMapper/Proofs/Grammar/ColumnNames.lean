import EntityMapper.Model.Entity
import EntityMapper.Proofs.Grammar.Written
import EntityMapper.Proofs.NameMap

/-!
# Names of columns

A column whose text is read back as the name it was written for, not only as the
last segment of a path. Rows with such names are written and read without a
change of their names.
-/

namespace EntityMapper

namespace Grammar

/-- The text of a name is read as that name. -/
structure NamesColumn (g : Grammar) (name : String) : Prop where
  readsBack : g.ReadsBack name
  single : columnOf name = name

theorem namesColumn_times (g : Grammar) :
    ∀ name ∈ [createdAt, updatedAt], g.NamesColumn name := by
  have hreadable : ∀ name ∈ [createdAt, updatedAt], g.ReadablePath name := by
    obtain ⟨dialect, qualifier⟩ := g
    cases dialect with
    | cql => exact of_decide_eq_true rfl
    | sql => exact of_decide_eq_true rfl
  have hsingle : ∀ name ∈ [createdAt, updatedAt], columnOf name = name := by decide
  exact fun name hname => ⟨(hreadable name hname).readsBack, hsingle name hname⟩

theorem map_columnOf {g : Grammar} {values : Pairs}
    (h : ∀ pair ∈ values, g.NamesColumn pair.1) :
    (values.map fun pair => (columnOf pair.1, pair.2)) = values := by
  calc
    (values.map fun pair => (columnOf pair.1, pair.2)) = values.map id := by
      refine List.map_congr_left fun pair hpair => ?_
      rw [(h pair hpair).single]
      rfl
    _ = values := List.map_id values

/-- A condition on one column is conveyed if the column is read back. -/
theorem conveys_column {g : Grammar} {column : String} {c : Condition}
    (hcolumn : g.ReadsBack column) (hone : c.columns = [column])
    (htoken : ComparesTokens c) (hraw : c.rawText? = none) : g.Conveys c := by
  refine ⟨fun name hname => ?_, htoken, hraw⟩
  rw [hone, List.mem_singleton] at hname
  exact hname ▸ hcolumn

/-- A select list of columns is read as those columns, unless one of them is a
star. -/
theorem written_columns {g : Grammar} {names : List String} (hsome : names ≠ [])
    (h : ∀ name ∈ names, g.NamesColumn name) (hstar : "*" ∉ names) :
    WrittenList (g.selection (.columns names)).toList
      (.columns (names.map fun name => ⟨name, none⟩)) := by
  have hselected :
      ∀ name ∈ names, Parser.Selected (g.columnTokens name) ⟨name, none⟩ := by
    intro name hname
    have hpath := (h name hname).readsBack.path
    have hne : name ≠ "*" := fun heq => hstar (heq ▸ hname)
    rw [show lastSegment name.toList = name from (h name hname).single] at hpath
    exact .plain (hpath.path hne) hne
  have hlist : g.selection (.columns names) = g.columnize names := by
    cases names with
    | nil => exact absurd rfl hsome
    | cons name rest => rfl
  rw [hlist]
  exact ⟨_, lexes_columnize g fun name hname => (h name hname).readsBack.lexed,
      fun rest n =>
    Parser.takes_columns hsome hselected rest n⟩

/-- An ordered row of which every name is read as itself. -/
structure Owns (g : Grammar) (row : Row) : Prop where
  ordered : row.WellFormed
  names : ∀ name, row.contains name = true → g.NamesColumn name

variable {g : Grammar} {row : Row}

theorem Owns.insert (h : g.Owns row) {name : String} (hname : g.NamesColumn name)
    (value : Value) : g.Owns (row.insert name value) where
  ordered := h.ordered.insert name value
  names other hother := by
    rw [NameMap.contains_insert, Bool.or_eq_true, decide_eq_true_eq] at hother
    rcases hother with rfl | hother
    · exact hname
    · exact h.names other hother

theorem Owns.extend (h : g.Owns row) {values : Pairs}
    (hvalues : ∀ pair ∈ values, g.NamesColumn pair.1) :
    g.Owns (row.extend ⟨values⟩) := by
  unfold NameMap.extend
  induction values generalizing row with
  | nil => exact h
  | cons pair rest ih =>
    obtain ⟨hpair, hrest⟩ := List.forall_mem_cons.mp hvalues
    exact ih (h.insert hpair pair.2) hrest

theorem Owns.entries (h : g.Owns row) :
    ∀ pair ∈ row.entries, g.NamesColumn pair.1 :=
  fun pair hpair =>
    h.names pair.1 (NameMap.contains_iff.mpr (List.mem_map_of_mem hpair))

end Grammar

end EntityMapper
