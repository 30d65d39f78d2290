import EntityMapper.Proofs.Session.LoadedTree

/-!
# Loading records together and alone

Paths are loaded onto a list of records by rounds: the relation that heads a
group is resolved for every record, all that it leads to is gathered in one
list, the tails of the group are loaded onto that list, and its records are
handed back to their parents. No record sees the others: each is left with its
own tree, as if the paths were loaded onto it alone.

The invariant is `Agrees`, between a round and the trees of the records it runs
on. Handing the records back undoes the gathering, since replacing records one
by one keeps the shape of each result (`refill_flatMap`); a round of a group
agrees if loading its tails does, a list of groups agrees if each group does,
and paths agree by induction on the fuel.
-/

namespace EntityMapper

namespace Session

open Effect Related

variable {s : Session LocalStore} {store : LocalStore} {tables : Tables}
  {records : List Record} {load : List String → Record → Option Record}
  {group : PathGroup}

/-- Results are put back together from their items in order: each gets the items
that were taken from it, so nothing is handed to another parent. -/
theorem refill_flatMap {f : Record → Option Record}
    {results shown : List (Related Record)}
    (h : results.mapM (traverse? f) = some shown) :
    refill results (shown.flatMap toList) = shown := by
  induction results generalizing shown with
  | nil =>
    obtain rfl := Option.some.inj h
    rfl
  | cons related rest ih =>
    rw [mapM_eq_some_iff, List.forall₂_cons_left_iff] at h
    obtain ⟨first, others, hfirst, hothers, rfl⟩ := h
    have hrest := ih (mapM_eq_some_iff.mpr hothers)
    rw [traverse?_eq_some_iff] at hfirst
    rw [List.flatMap_cons]
    cases related with
    | one item =>
      cases item with
      | none =>
        cases first with
        | one other =>
          cases other with
          | none => exact congrArg (Related.one none :: ·) hrest
          | some _ => exact hfirst.elim
        | many items => exact hfirst.elim
      | some item =>
        cases first with
        | one other =>
          cases other with
          | none => exact hfirst.elim
          | some shown => exact congrArg (Related.one (some shown) :: ·) hrest
        | many items => exact hfirst.elim
    | many items =>
      cases first with
      | one other => exact hfirst.elim
      | many shown =>
        have hlength : items.length = shown.length := List.Forall₂.length_eq hfirst
        calc
          refill (.many items :: rest) (shown ++ others.flatMap toList) =
              .many shown :: refill rest (others.flatMap toList) := by
            rw [refill, hlength, List.take_left, List.drop_left]
          _ = .many shown :: others := by rw [hrest]

/-! ## Loading records together -/

/-- What is expected of an effect on records: it leaves others and sends
commands, in some order, or it fails. -/
def Agrees (store : LocalStore) (expected : Option (List Record))
    (commands : List Command)
    (outcome : Except MappingError Unit × List Record × LocalStore) : Prop :=
  match expected with
  | some loaded =>
    ∃ sent, outcome = (.ok (), loaded, store.logged sent) ∧ sent.Perm commands
  | none => ∃ e left, outcome = (.error e, left)

/-- Whether paths that are loaded with some fuel leave each record with its tree. -/
def LoadsTrees (s : Session LocalStore) (tables : Tables) (fuel : Nat) : Prop :=
  ∀ paths records store, store.database.tables = tables →
    Agrees store (records.mapM (s.tree tables fuel paths))
      (records.flatMap (s.treeCommands tables fuel paths))
      (s.loadWithin fuel paths (records, store))

/-- Load paths onto related records; where there are none there is nothing to
load. -/
def loadChildren {σ : Type} (s : Session σ) (fuel : Nat) (tails : List String)
    (children : List Record) : Effect σ (List Record) :=
  if children.isEmpty then pure children else do
    let (outcome, loaded) ← holding children (s.loadWithin fuel tails)
    orThrow outcome
    return loaded

/-- Load one relation and what is below it onto the records at hand. -/
def loadGroup {σ : Type} (s : Session σ) (fuel : Nat) (group : PathGroup) :
    EffectOn (List Record) σ Unit := do
  let results ← (s.resolveAll group.head (← held)).alongside
  change fun records => attachAll group.head records results
  if !group.tails.isEmpty then
    change fun records => records.map (dropRelation group.head)
    let loaded ←
      (s.loadChildren fuel group.tails (results.flatMap Related.toList)).alongside
    change fun records => attachAll group.head records (refill results loaded)

theorem loadWithin_succ {σ : Type} (s : Session σ) (fuel : Nat)
    (paths : List String) :
    s.loadWithin (fuel + 1) paths =
      (PathGroup.ofPaths paths).forM (s.loadGroup fuel) := rfl

theorem run_resolve (hlocal : s.backend.execute = LocalStore.execute)
    (htables : store.database.tables = tables) (r : Record) (name : String) :
    s.resolve r name store = (answer (s.resolve r name) tables,
      store.logged (sent (s.resolve r name) tables)) :=
  htables ▸ (reads_resolve hlocal r name).run store

/-- A relation is resolved once for each record, in turn. -/
theorem resolveAll_ok (hlocal : s.backend.execute = LocalStore.execute)
    (htables : store.database.tables = tables) {name : String}
    {results : List (Related Record)}
    (h : records.mapM (s.related? tables name) = some results) :
    s.resolveAll name records store = (.ok results,
      store.logged (records.flatMap fun r => sent (s.resolve r name) tables)) := by
  induction records generalizing results store with
  | nil =>
    obtain rfl := Option.some.inj h
    rw [List.flatMap_nil, LocalStore.logged_nil]
    rfl
  | cons r rest ih =>
    rw [mapM_eq_some_iff, List.forall₂_cons_left_iff] at h
    obtain ⟨related, others, hrelated, hothers, rfl⟩ := h
    have hresolve := run_resolve hlocal htables r name
    rw [related?_eq_some_iff.mp hrelated] at hresolve
    have hnext : (store.logged (sent (s.resolve r name) tables)).database.tables =
        tables := htables
    have hrest := ih hnext (mapM_eq_some_iff.mpr hothers)
    rw [LocalStore.logged_append] at hrest
    rw [resolveAll, bind_ok hresolve, bind_ok hrest]
    rfl

theorem resolveAll_error (hlocal : s.backend.execute = LocalStore.execute)
    (htables : store.database.tables = tables) {name : String}
    (h : records.mapM (s.related? tables name) = none) :
    ∃ e next, s.resolveAll name records store = (.error e, next) := by
  induction records generalizing store with
  | nil => cases h
  | cons r rest ih =>
    have hresolve := run_resolve hlocal htables r name
    rw [resolveAll]
    cases hrelated : answer (s.resolve r name) tables with
    | error e =>
      rw [hrelated] at hresolve
      exact ⟨e, _, bind_error hresolve⟩
    | ok related =>
      rw [hrelated] at hresolve
      have hnone : rest.mapM (s.related? tables name) = none := by
        rw [List.mapM_cons, related?_eq_some_iff.mpr hrelated] at h
        cases hrest : rest.mapM (s.related? tables name) with
        | none => rfl
        | some others =>
          rw [hrest] at h
          cases h
      have hnext : (store.logged (sent (s.resolve r name) tables)).database.tables =
          tables :=
        htables
      obtain ⟨e, next, herror⟩ := ih hnext hnone
      exact ⟨e, next, (bind_ok hresolve).trans (bind_error herror)⟩

/-- The relation of one name is placed on each record in turn. -/
theorem mapM_branch {results shown : List (Related Record)}
    (hresults : records.mapM (s.related? tables group.head) = some results)
    (hshown : results.mapM (traverse? (load group.tails)) = some shown) :
    records.mapM (s.branch tables load group) = some (if group.tails.isEmpty then
        attachAll group.head records results
      else attachAll group.head ((attachAll group.head records results).map
        (dropRelation group.head)) shown) := by
  induction records generalizing results shown with
  | nil =>
    obtain rfl := Option.some.inj hresults
    cases group.tails.isEmpty <;> rfl
  | cons r rest ih =>
    rw [mapM_eq_some_iff, List.forall₂_cons_left_iff] at hresults
    obtain ⟨related, others, hrelated, hothers, rfl⟩ := hresults
    rw [mapM_eq_some_iff, List.forall₂_cons_left_iff] at hshown
    obtain ⟨first, more, hfirst, hmore, rfl⟩ := hshown
    have hrest := ih (mapM_eq_some_iff.mpr hothers) (mapM_eq_some_iff.mpr hmore)
    have hbranch : s.branch tables load group r =
        some (placed group r related first) := by
      rw [branch, hrelated]
      simp [hfirst]
    rw [List.mapM_cons, hbranch, hrest, placed]
    cases group.tails.isEmpty <;> rfl

/-- The records that are related to some records, in their order. -/
theorem flatMap_children {name : String} {results : List (Related Record)}
    (h : records.mapM (s.related? tables name) = some results) :
    records.flatMap (s.children tables name) = results.flatMap toList := by
  rw [mapM_eq_some_iff] at h
  induction h with
  | nil => rfl
  | @cons r related rest others hrelated _ ih =>
    calc
      (r :: rest).flatMap (s.children tables name) =
          s.children tables name r ++ others.flatMap toList := by
        rw [List.flatMap_cons, ih]
      _ = related.toList ++ others.flatMap toList := by
        rw [children, hrelated]
        rfl
      _ = (related :: others).flatMap toList := List.flatMap_cons.symm

theorem exists_of_mapM_branch {loaded : List Record}
    (h : records.mapM (s.branch tables load group) = some loaded) :
    ∃ results shown, records.mapM (s.related? tables group.head) = some results ∧
      results.mapM (traverse? (load group.tails)) = some shown := by
  rw [mapM_eq_some_iff] at h
  induction h with
  | nil => exact ⟨[], [], rfl, rfl⟩
  | cons hbranch _ ih =>
    obtain ⟨results, shown, hresults, hshown⟩ := ih
    obtain ⟨related, first, hrelated, hfirst, -⟩ := exists_of_branch hbranch
    refine ⟨related :: results, first :: shown, ?_, ?_⟩
    · rw [List.mapM_cons, hrelated, hresults]
      rfl
    · rw [List.mapM_cons, hfirst, hshown]
      rfl

/-- If a relation cannot be resolved on every record, or what it gives cannot be
replaced, it cannot be placed on every record. -/
theorem mapM_branch_none
    (h : ∀ results, records.mapM (s.related? tables group.head) = some results →
      results.mapM (traverse? (load group.tails)) = none) :
    records.mapM (s.branch tables load group) = none := by
  rw [Option.eq_none_iff_forall_ne_some]
  intro loaded hloaded
  obtain ⟨results, shown, hresults, hshown⟩ := exists_of_mapM_branch hloaded
  rw [h results hresults] at hshown
  cases hshown

theorem loadChildren_ok {fuel : Nat} {tails : List String}
    {children loaded : List Record} {commands : List Command}
    (h : Agrees store
      (some loaded) commands (s.loadWithin fuel tails (children, store)))
    (hnone : children = [] → loaded = [] ∧ commands = []) :
    ∃ sent, s.loadChildren fuel tails children store =
        (.ok loaded, store.logged sent) ∧ sent.Perm commands := by
  unfold loadChildren
  cases hempty : children.isEmpty with
  | true =>
    obtain ⟨rfl, rfl⟩ := hnone (List.isEmpty_iff.mp hempty)
    refine ⟨[], ?_, List.Perm.refl _⟩
    rw [if_pos rfl, List.isEmpty_iff.mp hempty, LocalStore.logged_nil]
    rfl
  | false =>
    obtain ⟨sent, houtcome, hperm⟩ := h
    refine ⟨sent, ?_, hperm⟩
    rw [if_neg Bool.false_ne_true, bind_ok (holding_apply _ _ _), houtcome]
    rfl

theorem loadChildren_error {fuel : Nat} {tails : List String}
    {children : List Record} {commands : List Command}
    (h : Agrees store none commands (s.loadWithin fuel tails (children, store)))
    (hsome : children ≠ []) :
    ∃ e next, s.loadChildren fuel tails children store = (.error e, next) := by
  obtain ⟨e, left, houtcome⟩ := h
  refine ⟨e, left.2, ?_⟩
  have hempty : children.isEmpty = false := by simpa using hsome
  unfold loadChildren
  rw [hempty, if_neg Bool.false_ne_true, bind_ok (holding_apply _ _ _), houtcome]
  rfl

/-- A relation that cannot be read of every record leaves the records as they
are. -/
theorem loadGroup_error {σ : Type} {s : Session σ} {state next : σ}
    {e : MappingError}
    (h : s.resolveAll group.head records state = (.error e, next)) (fuel : Nat) :
    s.loadGroup fuel group (records, state) = (.error e, records, next) := by
  unfold loadGroup
  rw [bind_ok (held_apply _ _)]
  exact bind_error (by rw [alongside_apply, h])

theorem loadGroup_apply {σ : Type} {s : Session σ} {state next : σ} {fuel : Nat}
    {results : List (Related Record)}
    (h : s.resolveAll group.head records state = (.ok results, next)) :
    s.loadGroup fuel group (records, state) = if group.tails.isEmpty then
        (.ok (), attachAll group.head records results, next) else
          match s.loadChildren fuel group.tails (results.flatMap toList) next with
        | (.ok loaded, after) => (.ok (), attachAll group.head
            ((attachAll group.head records results).map (dropRelation group.head))
            (refill results loaded), after)
        | (.error e, after) =>
            (.error e, (attachAll group.head records results).map
              (dropRelation group.head), after) := by
  have hresults : (s.resolveAll group.head records).alongside (records, state) =
      (.ok results, records, next) := by rw [alongside_apply, h]
  unfold loadGroup
  rw [bind_ok (held_apply _ _), bind_ok hresults, bind_ok (change_apply _ _ _)]
  cases group.tails.isEmpty with
  | true => rfl
  | false =>
    rw [Bool.not_false, if_pos rfl, if_neg Bool.false_ne_true,
      bind_ok (change_apply _ _ _), bind_apply, alongside_apply]
    obtain ⟨_ | _, _⟩ :=
      s.loadChildren fuel group.tails (results.flatMap toList) next <;> rfl

/-- The commands for some relations, and then for what is below all of them, are
those for each record in another order. -/
theorem perm_branchCommands (below : List String → Record → List Command)
    {results : List (Related Record)}
    (h : records.mapM (s.related? tables group.head) = some results) :
    ((records.flatMap fun r => sent (s.resolve r group.head) tables) ++
      (results.flatMap toList).flatMap (below group.tails)).Perm
      (records.flatMap (s.branchCommands tables below group)) := by
  rw [← flatMap_children h, List.flatMap_assoc]
  exact List.flatMap_append_perm _ _ _

/-- Whether a group that is loaded onto records leaves each of them with its
branch. -/
def LoadsBranches (s : Session LocalStore) (tables : Tables) (fuel : Nat)
    (group : PathGroup) (records : List Record) (store : LocalStore) : Prop :=
  Agrees store (records.mapM (s.branch tables (s.tree tables fuel) group))
    (records.flatMap (s.branchCommands tables (s.treeCommands tables fuel) group))
    (s.loadGroup fuel group (records, store))

section Branches

variable (hlocal : s.backend.execute = LocalStore.execute)
  (htables : store.database.tables = tables) {fuel : Nat}
  {results : List (Related Record)}

include hlocal htables

/-- A relation that cannot be resolved on some record is not loaded. -/
theorem loadGroup_unresolved
    (h : records.mapM (s.related? tables group.head) = none) :
    s.LoadsBranches tables fuel group records store := by
  obtain ⟨e, next, herror⟩ := resolveAll_error hlocal htables h
  unfold LoadsBranches
  rw [mapM_branch_none (by simp [h])]
  exact ⟨e, (records, next), loadGroup_error herror fuel⟩

/-- A group without tails: its relation is all there is to load. -/
theorem loadGroup_leaf
    (h : records.mapM (s.related? tables group.head) = some results)
    (hleaf : group.tails = []) :
    s.LoadsBranches tables fuel group records store := by
  have hsame : results.mapM (traverse? (s.tree tables fuel group.tails)) =
      some results := by
    have hitself (related : Related Record) :
        related.traverse? (s.tree tables fuel group.tails) = some related := by
      rw [hleaf]
      calc
        related.traverse? (s.tree tables fuel []) = related.traverse? some :=
          traverse?_congr fun item _ => tree_nil tables fuel item
        _ = some related := traverse?_some related
    calc
      results.mapM (traverse? (s.tree tables fuel group.tails)) =
          results.mapM some :=
        mapM_congr fun related _ => hitself related
      _ = some results := mapM_some results
  have hnothing : (results.flatMap toList).flatMap
        (s.treeCommands tables fuel group.tails) = [] := by
    rw [hleaf, List.flatMap_eq_nil_iff]
    exact fun child _ => treeCommands_nil tables fuel child
  have hcommands := perm_branchCommands (s.treeCommands tables fuel) h
  rw [hnothing, List.append_nil] at hcommands
  unfold LoadsBranches
  rw [mapM_branch h hsame, loadGroup_apply (resolveAll_ok hlocal htables h), hleaf]
  exact ⟨_, rfl, hcommands⟩

/-- A group with tails, if they are loaded onto the records that the relation
leads to. -/
theorem loadGroup_deep (ih : s.LoadsTrees tables fuel)
    (h : records.mapM (s.related? tables group.head) = some results)
    (hdeep : group.tails ≠ []) :
    s.LoadsBranches tables fuel group records store := by
  have hempty : group.tails.isEmpty = false := by simpa using hdeep
  have hitems := mapM_flatMap_toList (s.tree tables fuel group.tails) results
  have hbelow := ih group.tails (results.flatMap toList) (store.logged
      (records.flatMap fun r => sent (s.resolve r group.head) tables)) htables
  rw [hitems] at hbelow
  unfold LoadsBranches
  rw [loadGroup_apply (resolveAll_ok hlocal htables h), hempty]
  cases hshown : results.mapM (traverse? (s.tree tables fuel group.tails)) with
  | none =>
    rw [hshown] at hbelow hitems
    have hsome : results.flatMap toList ≠ [] := fun hnil => by
      rw [hnil] at hitems
      cases hitems
    obtain ⟨e, next, herror⟩ := loadChildren_error hbelow hsome
    have hfail : ∀ others,
        records.mapM (s.related? tables group.head) = some others →
          others.mapM (traverse? (s.tree tables fuel group.tails)) = none := by
      intro others hothers
      obtain rfl := Option.some.inj (h.symm.trans hothers)
      exact hshown
    rw [mapM_branch_none hfail, herror]
    exact ⟨e, _, rfl⟩
  | some shown =>
    rw [hshown] at hbelow hitems
    have hnone : results.flatMap toList = [] →
        shown.flatMap toList = [] ∧ (results.flatMap toList).flatMap
            (s.treeCommands tables fuel group.tails) = [] := by
      intro hnil
      rw [hnil] at hitems ⊢
      exact ⟨(Option.some.inj hitems).symm, rfl⟩
    obtain ⟨sent, hload, hperm⟩ := loadChildren_ok hbelow hnone
    rw [mapM_branch h hshown, hempty, hload]
    dsimp only
    rw [refill_flatMap hshown, LocalStore.logged_append]
    exact ⟨_, rfl, (hperm.append_left _).trans (perm_branchCommands _ h)⟩

/-- A group is loaded onto the records as onto each of them, if its tails are. -/
theorem loadGroup_agrees (ih : s.LoadsTrees tables fuel) (group : PathGroup) :
    s.LoadsBranches tables fuel group records store := by
  cases hresults : records.mapM (s.related? tables group.head) with
  | none => exact loadGroup_unresolved hlocal htables hresults
  | some results =>
    by_cases hleaf : group.tails = []
    · exact loadGroup_leaf hlocal htables hresults hleaf
    · exact loadGroup_deep hlocal htables ih hresults hleaf

end Branches

/-! ## Whole lists of paths -/

theorem agrees_unchanged (records : List Record) (store : LocalStore) :
    Agrees store (some records) [] (.ok (), records, store) :=
  ⟨[], by rw [LocalStore.logged_nil], List.Perm.refl _⟩

/-- One effect after another does what is expected of both. -/
theorem agrees_bind {x y : EffectOn (List Record) LocalStore Unit}
    {expected : Option (List Record)} {next : List Record → Option (List Record)}
    {first both : List Command} {second : List Record → List Command}
    (hx : Agrees store expected first (x (records, store)))
    (hy : ∀ loaded sent, expected = some loaded → Agrees (store.logged sent)
        (next loaded) (second loaded) (y (loaded, store.logged sent)))
    (hboth : ∀ loaded,
      expected = some loaded → (first ++ second loaded).Perm both) :
    Agrees store (expected >>= next) both
      ((x >>= fun _ => y) (records, store)) := by
  cases hexpected : expected with
  | none =>
    rw [hexpected] at hx
    obtain ⟨e, left, houtcome⟩ := hx
    exact ⟨e, left, bind_error houtcome⟩
  | some loaded =>
    rw [hexpected] at hx
    obtain ⟨sent, houtcome, hperm⟩ := hx
    have hrest := hy loaded sent hexpected
    rw [bind_ok houtcome]
    change Agrees store (next loaded) both (y (loaded, store.logged sent))
    cases hnext : next loaded with
    | none =>
      rw [hnext] at hrest
      exact hrest
    | some others =>
      rw [hnext] at hrest
      obtain ⟨more, hmore, hmorePerm⟩ := hrest
      rw [LocalStore.logged_append] at hmore
      exact ⟨_, hmore, (hperm.append hmorePerm).trans (hboth loaded hexpected)⟩

theorem flatMap_branchCommands {below : List String → Record → List Command}
    {loaded : List Record}
    (h : records.mapM (s.branch tables load group) = some loaded)
    (groups : List PathGroup) :
    (loaded.flatMap fun r =>
      groups.flatMap fun group => s.branchCommands tables below group r) =
      records.flatMap fun r => groups.flatMap fun group =>
        s.branchCommands tables below group r := by
  rw [mapM_eq_some_iff] at h
  induction h with
  | nil => rfl
  | cons hbranch _ ih =>
    rw [List.flatMap_cons, List.flatMap_cons, ih]
    simp only [(sameRow_of_branch hbranch).branchCommands]

theorem loadGroups_agrees (hlocal : s.backend.execute = LocalStore.execute)
    {fuel : Nat} (ih : s.LoadsTrees tables fuel) (groups : List PathGroup)
    (htables : store.database.tables = tables) :
    Agrees store (records.mapM fun r => groups.foldlM
        (fun r group => s.branch tables (s.tree tables fuel) group r) r)
      (records.flatMap fun r => groups.flatMap fun group =>
        s.branchCommands tables (s.treeCommands tables fuel) group r)
      (groups.forM (s.loadGroup fuel) (records, store)) := by
  induction groups generalizing records store with
  | nil =>
    have hsame : (records.mapM fun r => ([] : List PathGroup).foldlM
          (fun r group => s.branch tables (s.tree tables fuel) group r) r) =
        some records :=
      mapM_some records
    have hnone :
        (records.flatMap fun r => ([] : List PathGroup).flatMap fun group =>
        s.branchCommands tables (s.treeCommands tables fuel) group r) = [] :=
      List.flatMap_eq_nil_iff.mpr fun _ _ => rfl
    rw [hsame, hnone]
    exact agrees_unchanged records store
  | cons group rest irest =>
    simp only [List.foldlM_cons]
    rw [mapM_bind]
    refine agrees_bind (loadGroup_agrees hlocal htables ih group) (fun _ sent _ =>
        irest (show (store.logged sent).database.tables = tables from htables))
      fun loaded hloaded => ?_
    rw [flatMap_branchCommands hloaded]
    exact List.flatMap_append_perm _ _ _

/-- Paths are loaded onto records as onto each of them. -/
theorem loadWithin_agrees (hlocal : s.backend.execute = LocalStore.execute)
    (fuel : Nat) : s.LoadsTrees tables fuel := by
  induction fuel with
  | zero =>
    intro paths records store _
    have hsame : records.mapM (s.tree tables 0 paths) = some records :=
      mapM_some records
    have hnone : records.flatMap (s.treeCommands tables 0 paths) = [] :=
      List.flatMap_eq_nil_iff.mpr fun _ _ => rfl
    rw [hsame, hnone]
    exact agrees_unchanged records store
  | succ fuel ih =>
    intro paths records store htables
    rw [loadWithin_succ]
    exact loadGroups_agrees hlocal ih (PathGroup.ofPaths paths) htables

/-! ## Loading a record alone -/

/-- Whether paths, loaded onto a record alone, leave it as another. -/
def LoadsTo (s : Session LocalStore) (store : LocalStore) (paths : List String)
    (r d : Record) : Prop :=
  ∃ after, s.load paths ([r], store) = (.ok (), [d], after)

/-- The commands that paths, loaded onto a record alone, send. -/
def loadCommands (s : Session LocalStore) (tables : Tables) (paths : List String)
    (r : Record) : List Command :=
  sent (holding [r] (s.load paths)) tables

variable {fuel : Nat} {paths : List String} {r d : Record} {loaded : List Record}

theorem load_agrees (hlocal : s.backend.execute = LocalStore.execute)
    (hfits : PathGroup.Fits fuel paths) (records : List Record)
    (store : LocalStore) :
    Agrees store (records.mapM (s.tree store.database.tables fuel paths))
      (records.flatMap (s.treeCommands store.database.tables fuel paths))
      (s.load paths (records, store)) := by
  rw [tree_eq_of_fits hfits (PathGroup.fits_longest paths),
    treeCommands_eq_of_fits hfits (PathGroup.fits_longest paths)]
  exact loadWithin_agrees hlocal _ paths records store rfl

theorem load_ok_iff (hlocal : s.backend.execute = LocalStore.execute)
    (hfits : PathGroup.Fits fuel paths) :
    (∃ after, s.load paths (records, store) = (.ok (), loaded, after)) ↔
      records.mapM (s.tree store.database.tables fuel paths) = some loaded := by
  have hagrees := load_agrees hlocal hfits records store
  cases hmapM : records.mapM (s.tree store.database.tables fuel paths) with
  | none =>
    rw [hmapM] at hagrees
    obtain ⟨e, left, houtcome⟩ := hagrees
    rw [houtcome]
    refine ⟨?_, fun h => nomatch h⟩
    rintro ⟨_, h⟩
    cases (Prod.mk.inj h).1
  | some expected =>
    rw [hmapM] at hagrees
    obtain ⟨sent, houtcome, -⟩ := hagrees
    rw [houtcome]
    refine ⟨fun ⟨_, h⟩ => congrArg some (Prod.mk.inj (Prod.mk.inj h).2).1,
      fun h => ?_⟩
    obtain rfl := Option.some.inj h
    exact ⟨_, rfl⟩

theorem loadsTo_iff (hlocal : s.backend.execute = LocalStore.execute)
    (hfits : PathGroup.Fits fuel paths) :
    s.LoadsTo store paths r d ↔
      s.tree store.database.tables fuel paths r = some d := by
  unfold LoadsTo
  rw [load_ok_iff hlocal hfits, mapM_eq_some_iff, List.forall₂_cons]
  simp

theorem loadsTo_eq (hlocal : s.backend.execute = LocalStore.execute)
    (hfits : PathGroup.Fits fuel paths) :
    s.LoadsTo store paths =
      fun r d => s.tree store.database.tables fuel paths r = some d :=
  funext₂ fun _ _ => propext (loadsTo_iff hlocal hfits)

theorem load_commands (hlocal : s.backend.execute = LocalStore.execute)
    (hfits : PathGroup.Fits fuel paths) {after : LocalStore}
    (h : s.load paths (records, store) = (.ok (), loaded, after)) :
    ∃ commands, after = store.logged commands ∧ commands.Perm
        (records.flatMap (s.treeCommands store.database.tables fuel paths)) := by
  have hagrees := load_agrees hlocal hfits records store
  rw [(load_ok_iff hlocal hfits).mp ⟨after, h⟩] at hagrees
  obtain ⟨sent, houtcome, hperm⟩ := hagrees
  rw [h] at houtcome
  exact ⟨sent, congrArg (fun outcome => outcome.2.2) houtcome, hperm⟩

theorem loadCommands_perm (hlocal : s.backend.execute = LocalStore.execute)
    (hfits : PathGroup.Fits fuel paths) (h : s.tree tables fuel paths r = some d) :
    (s.treeCommands tables fuel paths r).Perm (s.loadCommands tables paths r) := by
  obtain ⟨after, hload⟩ : s.LoadsTo (.fresh tables) paths r d :=
    (loadsTo_iff hlocal hfits).mpr h
  obtain ⟨commands, rfl, hperm⟩ := load_commands hlocal hfits hload
  have hcommands : s.loadCommands tables paths r = commands := by
    rw [loadCommands, sent, holding_apply, hload]
    rfl
  rw [hcommands]
  simpa using hperm.symm

/-- The commands for a record are those of resolving its relations and of
loading what they lead to alone. -/
theorem treeCommands_perm (hlocal : s.backend.execute = LocalStore.execute)
    (hfits : PathGroup.Fits (fuel + 1) paths)
    (h : s.tree tables (fuel + 1) paths r = some d) :
    (s.treeCommands tables (fuel + 1) paths r).Perm
      ((PathGroup.ofPaths paths).flatMap fun group =>
      s.branchCommands tables (s.loadCommands tables) group r) := by
  refine List.Perm.flatMap_left _ fun group hgroup => ?_
  obtain ⟨related, shown, hrelated, hshown, -⟩ :=
    (loaded_tree h).placed group hgroup
  refine List.Perm.append_left _ (List.Perm.flatMap_left _ fun child hchild => ?_)
  rw [children, hrelated] at hchild
  obtain ⟨x, hx⟩ := exists_of_traverse? hshown hchild
  exact loadCommands_perm hlocal (hfits.tails hgroup) hx

/-- Paths are loaded onto records as onto each of them alone. Nothing but the
log of the store changes; up to their order, the commands are those of resolving
each head once for each record and of loading its tails onto each record that it
leads to, alone. The heads of the groups are the distinct first names of the
paths, and their tails are what follows these names.

A record keeps its row and the relations that are no heads. A relation that is a
head is what resolving it gives, in the same shape and order, with each record
loaded alone. Neither the order of the paths nor a path given again makes a
difference. -/
theorem load_eq_loading_alone (s : Session LocalStore)
    (hlocal : s.backend.execute = LocalStore.execute) (store : LocalStore)
    (paths : List String) :
    (∀ records loaded,
      (∃ after, s.load paths (records, store) = (.ok (), loaded, after)) ↔
        List.Forall₂ (s.LoadsTo store paths) records loaded) ∧
      (∀ records loaded after,
        s.load paths (records, store) = (.ok (), loaded, after) → ∃ commands,
            after = store.logged commands ∧ commands.Perm (records.flatMap fun r =>
        (PathGroup.ofPaths paths).flatMap fun group =>
          sent (s.resolve r group.head) store.database.tables ++
            (s.children store.database.tables group.head r).flatMap
              (s.loadCommands store.database.tables group.tails))) ∧
    PathGroup.Groups (PathGroup.ofPaths paths) paths ∧
    (∀ r d, s.LoadsTo store paths r d → SameRow r d ∧ (∀ name,
        ¬PathGroup.Heads paths name → d.relation? name = r.relation? name) ∧
        ∀ group ∈ PathGroup.ofPaths paths,
          ∃ related shown, (s.resolve r group.head store).1 = .ok related ∧
            d.relation? group.head = some shown ∧
            related.Pointwise (s.LoadsTo store group.tails) shown) ∧
    ∀ others, (∀ path, path ∈ paths ↔ path ∈ others) →
        ∀ r d, s.LoadsTo store paths r d → ∃ e, s.LoadsTo store others r e ∧
          SameRow d e ∧ (∀ name, e.relation? name = d.relation? name) ∧
          (r.relations.WellFormed → e = d) := by
  obtain ⟨fuel, hfits⟩ : ∃ fuel, PathGroup.Fits (fuel + 1) paths :=
    ⟨_, PathGroup.fits_longest paths⟩
  refine ⟨fun records loaded => ?_, fun records loaded after h => ?_,
    PathGroup.groups_ofPaths paths, fun r d h => ?_, fun others hsame r d h => ?_⟩
  · rw [load_ok_iff hlocal hfits, mapM_eq_some_iff, loadsTo_eq hlocal hfits]
  · obtain ⟨commands, hafter, hperm⟩ := load_commands hlocal hfits h
    have hloaded := (load_ok_iff hlocal hfits).mp ⟨after, h⟩
    refine ⟨commands, hafter, hperm.trans (List.Perm.flatMap_left _ fun r hr => ?_)⟩
    obtain ⟨d, hd⟩ := exists_of_mapM hloaded hr
    exact treeCommands_perm hlocal hfits hd
  · have hloaded := loaded_tree ((loadsTo_iff hlocal hfits).mp h)
    refine ⟨hloaded.row, fun name hname => hloaded.kept name ?_,
      fun group hgroup => ?_⟩
    · rwa [(PathGroup.groups_ofPaths paths).heads]
    · obtain ⟨related, shown, hrelated, hshown, hrelation⟩ :=
        hloaded.placed group hgroup
      refine ⟨related, shown, ?_, hrelation, ?_⟩
      · rw [run_resolve hlocal rfl]
        exact related?_eq_some_iff.mp hrelated
      · rw [loadsTo_eq hlocal (hfits.tails hgroup)]
        exact traverse?_eq_some_iff.mp hshown
  · have hothers : PathGroup.Fits (fuel + 1) others := fun path hpath =>
      hfits path ((hsame path).mpr hpath)
    have htree := (loadsTo_iff hlocal hfits).mp h
    obtain ⟨e, he, hrow, hrelations⟩ := exists_tree_of_mem_iff hlocal
      (fun _ _ _ hsame hchild => tree_eq_of_mem_iff hlocal hsame hchild) hsame htree
    refine ⟨e, (loadsTo_iff hlocal hothers).mpr he, hrow, hrelations, fun hr => ?_⟩
    exact hrow.eq_of_relations (wellFormed_of_foldlM hr htree)
      (wellFormed_of_foldlM hr he) hrelations

/-! ### Users, their posts and the comments on these -/

def userType : EntityType where
  name := "User"
  table := "users"
  relations := .ofList [("posts", .ownsMany ⟨"Post", "author_id", "id"⟩)]

def postType : EntityType where
  name := "Post"
  table := "posts"
  relations := .ofList [("comments", .ownsMany ⟨"Comment", "post_id", "id"⟩)]

def commentType : EntityType where
  name := "Comment"
  table := "comments"

def blogSession : Session LocalStore :=
  (((Session.new {} LocalStore.backend).register userType).register
    postType).register commentType

def user (id : Int64) : Record := (Record.new userType).put "id" (.int id)

/-- The first user has two posts, on the second of which there is a comment. -/
def blogStore : LocalStore where
  database :=
    { tables := .ofList
        [("posts", ⟨["id"], [.ofList [("id", .int 10), ("author_id", .int 1)],
            .ofList [("id", .int 11), ("author_id", .int 1)]]⟩),
          ("comments",
            ⟨["id"], [.ofList [("id", .int 100), ("post_id", .int 11)]]⟩)] }

/-- A user with posts and one without are loaded together; the posts of the
first are loaded as alone, and the order of the paths makes no difference. -/
theorem load_eq_loading_alone_blog : ∃ ada linus after,
    blogSession.load ["posts.comments", "posts"] ([user 1, user 2], blogStore) =
        (.ok (), [ada, linus], after) ∧
      blogSession.LoadsTo blogStore ["posts", "posts.comments", "posts"]
        (user 1) ada ∧
      blogSession.LoadsTo blogStore ["posts", "posts.comments", "posts"]
        (user 2) linus ∧
      ∃ related shown, (blogSession.resolve (user 1) "posts" blogStore).1 =
          .ok related ∧ related.size = 2 ∧ ada.relation? "posts" = some shown ∧
        related.Pointwise (blogSession.LoadsTo blogStore ["comments"]) shown := by
  have hsame : ∀ path, path ∈ ["posts.comments", "posts"] ↔
      path ∈ ["posts", "posts.comments", "posts"] := by
    intro path
    simp only [List.mem_cons, List.not_mem_nil]
    tauto
  have hok : (blogSession.load ["posts.comments", "posts"]
      ([user 1, user 2], blogStore)).1.isOk = true := by decide +kernel
  have hsize : (blogSession.resolve (user 1) "posts" blogStore).1.toOption.map
        Related.size = some 2 := by decide +kernel
  have hgroups : PathGroup.ofPaths ["posts.comments", "posts"] =
      [⟨"posts", ["comments"]⟩] := by
    decide +kernel
  obtain ⟨⟨outcome, loaded, after⟩, hrun⟩ : ∃ result,
      blogSession.load ["posts.comments", "posts"] ([user 1, user 2], blogStore) =
        result := ⟨_, rfl⟩
  rw [hrun] at hok
  obtain _ | ⟨⟩ := outcome
  · cases hok
  obtain ⟨htogether, -, -, hrelations, horder⟩ :=
    load_eq_loading_alone blogSession rfl blogStore ["posts.comments", "posts"]
  have halone := (htogether [user 1, user 2] loaded).mp ⟨after, hrun⟩
  simp only [List.forall₂_cons_left_iff, List.forall₂_nil_left_iff] at halone
  obtain ⟨ada, -, hada, ⟨linus, -, hlinus, rfl, rfl⟩, rfl⟩ := halone
  have hreordered (id : Int64) (d : Record)
      (h : blogSession.LoadsTo blogStore ["posts.comments", "posts"] (user id) d) :
      blogSession.LoadsTo blogStore ["posts", "posts.comments", "posts"]
        (user id) d := by
    obtain ⟨e, he, -, -, heq⟩ := horder _ hsame (user id) d h
    exact heq NameMap.wellFormed_empty ▸ he
  obtain ⟨-, -, hheads⟩ := hrelations (user 1) ada hada
  rw [hgroups] at hheads
  obtain ⟨related, shown, hrelated, hshown, hpointwise⟩ :=
    hheads _ (List.mem_singleton_self _)
  dsimp only at hrelated hshown hpointwise
  rw [hrelated] at hsize
  exact ⟨ada, linus, after, hrun, hreordered 1 ada hada, hreordered 2 linus hlinus,
    related, shown, hrelated, Option.some.inj hsize, hshown, hpointwise⟩

end Session

end EntityMapper
