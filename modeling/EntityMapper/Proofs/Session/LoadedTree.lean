import EntityMapper.Proofs.NameMap
import EntityMapper.Proofs.Session.ReadOnly
import EntityMapper.Proofs.Session.RelationPaths
import Mathlib.Data.List.Perm.Basic

/-!
# The tree of a record

What loading paths onto one record comes to, told without a store: the relation
that heads a group of paths is resolved, and every record that it leads to
becomes a tree of the tails of the group. `Session.tree` is that recursion and
`Session.treeCommands` are the commands it needs; both are functions of the
tables. More fuel than the longest path asks for makes no difference.

A tree is told by its relations (`Loaded`): the groups are loaded in turn, but
each of them writes the relation of its own head only, and resolving reads no
relation. So trees of the same paths in another order are the same.
-/

namespace EntityMapper

/-! ## Lists of partial results -/

section Partial

variable {α β γ : Type} {f : α → Option β} {g : β → Option γ}

theorem mapM_eq_some_iff {xs : List α} {ys : List β} :
    xs.mapM f = some ys ↔ List.Forall₂ (fun x y => f x = some y) xs ys := by
  induction xs generalizing ys with
  | nil =>
    rw [List.mapM_nil, List.forall₂_nil_left_iff]
    exact ⟨fun h => (Option.some.inj h).symm, fun h => congrArg some h.symm⟩
  | cons x rest ih =>
    rw [List.mapM_cons, List.forall₂_cons_left_iff]
    simp only [Option.bind_eq_bind, Option.bind_eq_some_iff, Option.pure_def,
      Option.some.injEq, ih]
    constructor
    · rintro ⟨y, hy, ys, hys, rfl⟩
      exact ⟨y, ys, hy, hys, rfl⟩
    · rintro ⟨y, ys, hy, hys, rfl⟩
      exact ⟨y, hy, ys, hys, rfl⟩

theorem exists_of_mapM {xs : List α} {ys : List β} (h : xs.mapM f = some ys)
    {x : α} (hx : x ∈ xs) : ∃ y, f x = some y := by
  rw [mapM_eq_some_iff] at h
  induction h with
  | nil => cases hx
  | cons hfirst _ ih =>
    rcases List.mem_cons.mp hx with rfl | hx
    · exact ⟨_, hfirst⟩
    · exact ih hx

/-- Two passes over a list are one pass of both. -/
theorem mapM_bind (f : α → Option β) (g : β → Option γ) (xs : List α) :
    xs.mapM (fun x => f x >>= g) = xs.mapM f >>= fun ys => ys.mapM g := by
  induction xs with
  | nil => rfl
  | cons x rest ih =>
    rw [List.mapM_cons, List.mapM_cons, ih]
    cases f x with
    | none => rfl
    | some y =>
      cases rest.mapM f with
      | none => simp
      | some ys => simp [List.mapM_cons]

theorem mapM_congr {g : α → Option β} {xs : List α} (h : ∀ x ∈ xs, f x = g x) :
    xs.mapM f = xs.mapM g := by
  induction xs with
  | nil => rfl
  | cons x rest ih =>
    obtain ⟨hx, hrest⟩ := List.forall_mem_cons.mp h
    rw [List.mapM_cons, List.mapM_cons, hx, ih hrest]

theorem mapM_some (xs : List α) : xs.mapM some = some xs := by
  induction xs with
  | nil => rfl
  | cons x rest ih =>
    rw [List.mapM_cons, ih]
    rfl

theorem foldlM_congr {step other : β → α → Option β} {xs : List α} {b : β}
    (h : ∀ x ∈ xs, ∀ b, step b x = other b x) :
    xs.foldlM step b = xs.foldlM other b := by
  induction xs generalizing b with
  | nil => rfl
  | cons x rest ih =>
    obtain ⟨hx, hrest⟩ := List.forall_mem_cons.mp h
    rw [List.foldlM_cons, List.foldlM_cons, hx]
    exact congrArg _ (funext fun _ => ih hrest)

end Partial

namespace Related

variable {α β : Type}

/-- Replace the items of a result, if each of them can be replaced. -/
def traverse? (f : α → Option β) : Related α → Option (Related β)
  | .one none => some (.one none)
  | .one (some item) => (f item).map fun shown => .one (some shown)
  | .many items => (items.mapM f).map .many

/-- Results of one shape whose items are related one by one, in their order. -/
def Pointwise (relation : α → β → Prop) : Related α → Related β → Prop
  | .one none, .one none => True
  | .one (some a), .one (some b) => relation a b
  | .many as, .many bs => List.Forall₂ relation as bs
  | _, _ => False

theorem traverse?_some (related : Related α) :
    related.traverse? some = some related := by
  cases related with
  | one item => cases item <;> rfl
  | many items =>
    rw [traverse?, mapM_some]
    rfl

theorem traverse?_eq_some_iff {f : α → Option β} {related : Related α}
    {shown : Related β} :
    related.traverse? f = some shown ↔
      related.Pointwise (fun a b => f a = some b) shown := by
  cases related with
  | one item =>
    cases item with
    | none => cases shown with
      | one other => cases other <;> simp [traverse?, Pointwise]
      | many items => simp [traverse?, Pointwise]
    | some item => cases shown with
      | one other => cases other <;> simp [traverse?, Pointwise]
      | many items => simp [traverse?, Pointwise]
  | many items => cases shown with
    | one other => simp [traverse?, Pointwise]
    | many others => simp [traverse?, Pointwise, mapM_eq_some_iff]

theorem traverse?_congr {f g : α → Option β} {related : Related α}
    (h : ∀ item ∈ related.toList, f item = g item) :
    related.traverse? f = related.traverse? g := by
  cases related with
  | one item =>
    cases item with
    | none => rfl
    | some item => rw [traverse?, traverse?, h item (List.mem_singleton_self _)]
  | many items =>
    have hitems : items.mapM f = items.mapM g := mapM_congr h
    rw [traverse?, traverse?, hitems]

theorem exists_of_traverse? {f : α → Option β} {related : Related α}
    {shown : Related β} (h : related.traverse? f = some shown) {item : α}
    (hitem : item ∈ related.toList) : ∃ y, f item = some y := by
  cases related with
  | one only =>
    cases only with
    | none => cases hitem
    | some first =>
      obtain rfl := List.mem_singleton.mp hitem
      exact (Option.map_eq_some_iff.mp h).imp fun _ hy => hy.1
  | many items =>
    obtain ⟨others, hothers, -⟩ := Option.map_eq_some_iff.mp h
    exact exists_of_mapM hothers hitem

/-- The items of some results are replaced all at once. -/
theorem mapM_flatMap_toList (f : α → Option β) (results : List (Related α)) :
    (results.flatMap toList).mapM f =
      (results.mapM (traverse? f)).map fun shown => shown.flatMap toList := by
  have htoList (related : Related α) :
      related.toList.mapM f = (related.traverse? f).map toList := by
    cases related with
    | one item =>
      cases item with
      | none => rfl
      | some item =>
        cases hitem : f item <;> simp [toList, traverse?, hitem]
    | many items => simp [toList, traverse?, Function.comp_def]
  induction results with
  | nil => rfl
  | cons related rest ih =>
    calc
      ((related :: rest).flatMap toList).mapM f = (do
          let first ← (related.traverse? f).map toList
          let others ← (rest.mapM (traverse? f)).map fun shown =>
            shown.flatMap toList
          return first ++ others) := by
        rw [List.flatMap_cons, List.mapM_append, htoList, ih]
      _ = ((related :: rest).mapM (traverse? f)).map fun shown =>
            shown.flatMap toList := by
        rw [List.mapM_cons]
        cases related.traverse? f with
        | none => rfl
        | some shown => cases rest.mapM (traverse? f) <;> rfl

end Related

namespace Session

open Effect Related

/-! ## Loading one record -/

section Tree

variable (s : Session LocalStore) (tables : Tables)

/-- The result of a relation of a record, if it can be resolved. -/
def related? (name : String) (r : Record) : Option (Related Record) :=
  (answer (s.resolve r name) tables).toOption

/-- The records that a relation leads to. -/
def children (name : String) (r : Record) : List Record :=
  (s.related? tables name r).elim [] toList

/-- A record with the result of a relation, and with what that result is
replaced by if there are further paths below it. -/
def placed (group : PathGroup) (r : Record) (related shown : Related Record) :
    Record :=
  if group.tails.isEmpty then r.setRelation group.head related
  else (dropRelation group.head (r.setRelation group.head related)).setRelation
    group.head shown

/-- A record with one relation, of which every record is loaded in turn. -/
def branch (load : List String → Record → Option Record) (group : PathGroup)
    (r : Record) : Option Record := do
  let related ← s.related? tables group.head r
  let shown ← related.traverse? (load group.tails)
  return placed group r related shown

/-- A record with the relations of some paths, loaded one record at a time. -/
def tree : (fuel : Nat) → (paths : List String) → Record → Option Record
  | 0, _, r => some r
  | fuel + 1, paths, r =>
    (PathGroup.ofPaths paths).foldlM
      (fun r group => s.branch tables (tree fuel) group r) r

/-- The commands for one relation of a record and for what is below it. -/
def branchCommands (below : List String → Record → List Command)
    (group : PathGroup) (r : Record) : List Command :=
  sent (s.resolve r group.head) tables ++
    (s.children tables group.head r).flatMap (below group.tails)

/-- The commands for the relations of some paths of a record. -/
def treeCommands : (fuel : Nat) → (paths : List String) → Record → List Command
  | 0, _, _ => []
  | fuel + 1, paths, r => (PathGroup.ofPaths paths).flatMap fun group =>
    s.branchCommands tables (treeCommands fuel) group r

end Tree

variable {s : Session LocalStore} {store : LocalStore} {tables : Tables}
  {records : List Record}

theorem related?_eq_some_iff {name : String} {r : Record}
    {related : Related Record} : s.related? tables name r = some related ↔
      answer (s.resolve r name) tables = .ok related := by
  unfold related?
  cases answer (s.resolve r name) tables <;> simp [Except.toOption]

theorem tree_nil (tables : Tables) (fuel : Nat) (r : Record) :
    s.tree tables fuel [] r = some r := by
  cases fuel <;> rfl

theorem treeCommands_nil (tables : Tables) (fuel : Nat) (r : Record) :
    s.treeCommands tables fuel [] r = [] := by
  cases fuel <;> rfl

/-! ## What a loaded relation leaves as it was -/

/-- Two records that differ at most in their relations. -/
def SameRow (r d : Record) : Prop := d = { r with relations := d.relations }

theorem SameRow.refl (r : Record) : SameRow r r := by
  cases r
  rfl

theorem SameRow.symm {r d : Record} (h : SameRow r d) : SameRow d r := by
  rw [h]
  cases r
  rfl

theorem SameRow.trans {r d e : Record} (h : SameRow r d) (hnext : SameRow d e) :
    SameRow r e := by
  unfold SameRow at *
  rw [hnext, h]

theorem sameRow_placed (group : PathGroup) (r : Record)
    (related shown : Related Record) :
    SameRow r (placed group r related shown) := by
  unfold placed
  split <;> rfl

variable {load : List String → Record → Option Record} {group : PathGroup}
  {r d e : Record}

theorem exists_of_branch (h : s.branch tables load group r = some d) :
    ∃ related shown, s.related? tables group.head r = some related ∧
      related.traverse? (load group.tails) = some shown ∧
      d = placed group r related shown := by
  simp only [branch, Option.bind_eq_bind, Option.bind_eq_some_iff] at h
  obtain ⟨related, hrelated, shown, hshown, hplaced⟩ := h
  exact ⟨related, shown, hrelated, hshown, (Option.some.inj hplaced).symm⟩

theorem sameRow_of_branch (h : s.branch tables load group r = some d) :
    SameRow r d := by
  obtain ⟨related, shown, -, -, rfl⟩ := exists_of_branch h
  exact sameRow_placed group r related shown

/-- Relations and commands of a record are those of its row. -/
theorem SameRow.resolve (h : SameRow r d) (name : String) :
    s.resolve d name = s.resolve r name :=
  s.resolve_congr (by rw [h]) (by rw [h]) name

theorem SameRow.related? (h : SameRow r d) (name : String) :
    s.related? tables name d = s.related? tables name r := by
  rw [Session.related?, h.resolve, Session.related?]

theorem SameRow.branchCommands (h : SameRow r d)
    (below : List String → Record → List Command) (group : PathGroup) :
    s.branchCommands tables below group d =
      s.branchCommands tables below group r := by
  calc
    s.branchCommands tables below group d =
        sent (s.resolve r group.head) tables ++
          (s.children tables group.head d).flatMap (below group.tails) := by
      rw [Session.branchCommands, h.resolve]
    _ = s.branchCommands tables below group r := by
      rw [children, h.related?, Session.branchCommands, children]

theorem branch_congr {other : List String → Record → Option Record}
    (h : load group.tails = other group.tails) :
    s.branch tables load group = s.branch tables other group := by
  funext r
  rw [branch, branch, h]

theorem branchCommands_congr {below other : List String → Record → List Command}
    (h : below group.tails = other group.tails) :
    s.branchCommands tables below group = s.branchCommands tables other group := by
  funext r
  rw [branchCommands, branchCommands, h]

/-! ## Enough fuel -/

section Fuel

variable {n m : Nat} {paths : List String}

/-- Fuel that is enough makes no difference. -/
theorem tree_eq_of_fits (hn : PathGroup.Fits n paths)
    (hm : PathGroup.Fits m paths) :
    s.tree tables n paths = s.tree tables m paths := by
  induction n generalizing m paths with
  | zero =>
    funext r
    rw [hn.eq_nil, tree_nil, tree_nil]
  | succ n ih =>
    cases m with
    | zero =>
      funext r
      rw [hm.eq_nil, tree_nil, tree_nil]
    | succ m =>
      funext r
      rw [tree, tree]
      exact foldlM_congr fun group hgroup r =>
        congrFun (branch_congr (ih (hn.tails hgroup) (hm.tails hgroup))) r

theorem treeCommands_eq_of_fits (hn : PathGroup.Fits n paths)
    (hm : PathGroup.Fits m paths) :
    s.treeCommands tables n paths = s.treeCommands tables m paths := by
  induction n generalizing m paths with
  | zero =>
    funext r
    rw [hn.eq_nil, treeCommands_nil, treeCommands_nil]
  | succ n ih =>
    cases m with
    | zero =>
      funext r
      rw [hm.eq_nil, treeCommands_nil, treeCommands_nil]
    | succ m =>
      funext r
      rw [treeCommands, treeCommands]
      exact List.flatMap_congr fun group hgroup =>
        congrFun (branchCommands_congr (ih (hn.tails hgroup) (hm.tails hgroup))) r

end Fuel

/-! ## The relations of a loaded record -/

theorem relation?_placed {related shown : Related Record}
    (h : group.tails = [] → shown = related) (r : Record) (name : String) :
    (placed group r related shown).relation? name =
      if group.head = name then some shown else r.relation? name := by
  unfold placed
  split
  · next hempty =>
    rw [h (List.isEmpty_iff.mp hempty)]
    exact NameMap.get?_insert ..
  · simp only [Record.relation?, Record.setRelation, dropRelation,
      NameMap.get?_insert, NameMap.get?_erase]
    split <;> rfl

theorem wellFormed_placed (h : r.relations.WellFormed)
    (related shown : Related Record) :
    (placed group r related shown).relations.WellFormed := by
  unfold placed
  split
  · exact h.insert ..
  · exact ((h.insert ..).erase _).insert ..

/-- A record onto which groups of paths were loaded: its row is as before, and
so are the relations that head no group. The relation that heads a group is the
result of resolving it, each record of which is loaded with the tails of the
group. -/
structure Loaded (s : Session LocalStore) (tables : Tables)
    (load : List String → Record → Option Record) (groups : List PathGroup)
    (r d : Record) : Prop where
  row : SameRow r d
  kept : ∀ name, name ∉ groups.map PathGroup.head →
    d.relation? name = r.relation? name
  placed : ∀ group ∈ groups,
    ∃ related shown, s.related? tables group.head r = some related ∧
      related.traverse? (load group.tails) = some shown ∧
      d.relation? group.head = some shown

variable {groups : List PathGroup}

theorem loaded_of_foldlM (hnodup : (groups.map PathGroup.head).Nodup)
    (hnil : ∀ r, load [] r = some r)
    (h : groups.foldlM (fun r group => s.branch tables load group r) r = some d) :
    Loaded s tables load groups r d := by
  induction groups generalizing r with
  | nil =>
    obtain rfl := Option.some.inj h
    exact ⟨.refl r, fun _ _ => rfl, List.forall_mem_nil _⟩
  | cons group rest ih =>
    rw [List.foldlM_cons, Option.bind_eq_bind, Option.bind_eq_some_iff] at h
    obtain ⟨e, hbranch, hrest⟩ := h
    obtain ⟨hfresh, hnodup⟩ := List.nodup_cons.mp hnodup
    have hd := ih hnodup hrest
    have hrow := sameRow_of_branch hbranch
    obtain ⟨related, shown, hrelated, hshown, rfl⟩ := exists_of_branch hbranch
    have hleaf : group.tails = [] → shown = related := by
      intro hempty
      rw [hempty, traverse?_congr fun item _ => hnil item, traverse?_some] at hshown
      exact (Option.some.inj hshown).symm
    refine ⟨hrow.trans hd.row, fun name hname => ?_,
      List.forall_mem_cons.mpr ⟨?_, ?_⟩⟩
    · rw [List.map_cons, List.mem_cons, not_or] at hname
      rw [hd.kept name hname.2, relation?_placed hleaf, if_neg (Ne.symm hname.1)]
    · refine ⟨related, shown, hrelated, hshown, ?_⟩
      rw [hd.kept group.head hfresh, relation?_placed hleaf, if_pos rfl]
    · intro other hother
      obtain ⟨found, loaded, hfound, hloaded, hplaced⟩ := hd.placed other hother
      exact ⟨found, loaded, hrow.related? other.head ▸ hfound, hloaded, hplaced⟩

/-- Groups can be loaded in turn if each of them can be loaded. -/
theorem exists_foldlM_branch
    (h : ∀ group ∈ groups, ∃ related shown, s.related? tables group.head r =
        some related ∧ related.traverse? (load group.tails) = some shown) :
    ∃ d, groups.foldlM (fun r group => s.branch tables load group r) r =
      some d := by
  induction groups generalizing r with
  | nil => exact ⟨r, rfl⟩
  | cons group rest ih =>
    obtain ⟨⟨related, shown, hrelated, hshown⟩, hrest⟩ := List.forall_mem_cons.mp h
    have hbranch : s.branch tables load group r =
        some (placed group r related shown) := by
      rw [branch, hrelated]
      simp [hshown]
    have hrow := sameRow_placed group r related shown
    obtain ⟨d, hd⟩ := ih fun other hother => by
      rw [hrow.related?]
      exact hrest other hother
    refine ⟨d, ?_⟩
    rw [List.foldlM_cons, hbranch]
    exact hd

theorem wellFormed_of_foldlM (hr : r.relations.WellFormed)
    (h : groups.foldlM (fun r group => s.branch tables load group r) r = some d) :
    d.relations.WellFormed := by
  induction groups generalizing r with
  | nil =>
    obtain rfl := Option.some.inj h
    exact hr
  | cons group rest ih =>
    rw [List.foldlM_cons, Option.bind_eq_bind, Option.bind_eq_some_iff] at h
    obtain ⟨e, hbranch, hrest⟩ := h
    obtain ⟨related, shown, -, -, rfl⟩ := exists_of_branch hbranch
    exact ih (wellFormed_placed hr related shown) hrest

/-- Records of one row with the same relations in order are the same. -/
theorem SameRow.eq_of_relations (h : SameRow d e) (hd : d.relations.WellFormed)
    (he : e.relations.WellFormed)
    (hsame : ∀ name, e.relation? name = d.relation? name) : e = d := by
  have hrelations : e.relations = d.relations := he.ext hd hsame
  rw [h, hrelations]
  cases d
  rfl

/-! ## The order of the paths -/

variable {fuel : Nat} {paths others : List String}

theorem loaded_tree (h : s.tree tables (fuel + 1) paths r = some d) :
    Loaded s tables (s.tree tables fuel) (PathGroup.ofPaths paths) r d :=
  loaded_of_foldlM (PathGroup.groups_ofPaths paths).nodup (tree_nil tables fuel) h

theorem bare_of_related? (hlocal : s.backend.execute = LocalStore.execute)
    {name : String} {related : Related Record}
    (h : s.related? tables name r = some related) : related.Bare :=
  (reads_resolve hlocal r name).value tables related (related?_eq_some_iff.mp h)

/-- Records loaded with the same paths in another order are those loaded before,
if that is so of the records below them. -/
theorem exists_tree_of_mem_iff (hlocal : s.backend.execute = LocalStore.execute)
    (hbelow : ∀ paths others child,
      (∀ path, path ∈ paths ↔ path ∈ others) → child.relations.WellFormed →
        s.tree tables fuel paths child = s.tree tables fuel others child)
    (hsame : ∀ path, path ∈ paths ↔ path ∈ others)
    (h : s.tree tables (fuel + 1) paths r = some d) :
    ∃ e, s.tree tables (fuel + 1) others r = some e ∧ SameRow d e ∧
      ∀ name, e.relation? name = d.relation? name := by
  have hd := loaded_tree h
  have hplaced : ∀ other ∈ PathGroup.ofPaths others, ∃ related shown,
      s.related? tables other.head r = some related ∧
      related.traverse? (s.tree tables fuel other.tails) = some shown ∧
      d.relation? other.head = some shown := by
    intro other hother
    obtain ⟨group, hgroup, hhead, htails⟩ :=
      PathGroup.exists_group_of_mem_iff (fun path => (hsame path).symm) hother
    obtain ⟨related, shown, hrelated, hshown, hrelation⟩ := hd.placed group hgroup
    rw [hhead] at hrelated hrelation
    refine ⟨related, shown, hrelated, ?_, hrelation⟩
    rw [← hshown]
    refine traverse?_congr fun child hchild => hbelow _ _ child htails ?_
    rw [bare_of_related? hlocal hrelated child hchild]
    exact NameMap.wellFormed_empty
  obtain ⟨e, he⟩ := exists_foldlM_branch fun other hother =>
    (hplaced other hother).imp fun _ => .imp fun _ h => ⟨h.1, h.2.1⟩
  have hloaded := loaded_tree he
  refine ⟨e, he, hd.row.symm.trans hloaded.row, fun name => ?_⟩
  by_cases hname : name ∈ (PathGroup.ofPaths others).map PathGroup.head
  · obtain ⟨other, hother, rfl⟩ := List.mem_map.mp hname
    obtain ⟨related, shown, hrelated, hshown, hrelation⟩ := hplaced other hother
    obtain ⟨found, loaded, hfound, hloaded, hother⟩ := hloaded.placed other hother
    obtain rfl := Option.some.inj (hrelated.symm.trans hfound)
    obtain rfl := Option.some.inj (hshown.symm.trans hloaded)
    rw [hother, hrelation]
  · rw [hloaded.kept name hname]
    rw [(PathGroup.groups_ofPaths others).heads, ← PathGroup.heads_congr hsame,
      ← (PathGroup.groups_ofPaths paths).heads] at hname
    exact (hd.kept name hname).symm

/-- The tree of a record does not depend on the order of the paths, nor on how
often one of them is given. -/
theorem tree_eq_of_mem_iff (hlocal : s.backend.execute = LocalStore.execute)
    (hsame : ∀ path, path ∈ paths ↔ path ∈ others) (hr : r.relations.WellFormed) :
    s.tree tables fuel paths r = s.tree tables fuel others r := by
  induction fuel generalizing paths others r with
  | zero => rfl
  | succ fuel ih =>
    have hbelow : ∀ paths others child, (∀ path, path ∈ paths ↔ path ∈ others) →
        child.relations.WellFormed →
        s.tree tables fuel paths child = s.tree tables fuel others child :=
      fun _ _ _ hsame hchild => ih hsame hchild
    have hleft {paths others : List String}
        (hsame : ∀ path, path ∈ paths ↔ path ∈ others) (d : Record)
        (h : s.tree tables (fuel + 1) paths r = some d) :
        s.tree tables (fuel + 1) others r = some d := by
      obtain ⟨e, he, hrow, hrelations⟩ :=
        exists_tree_of_mem_iff hlocal hbelow hsame h
      obtain rfl := hrow.eq_of_relations (wellFormed_of_foldlM hr h)
        (wellFormed_of_foldlM hr he) hrelations
      exact he
    exact Option.ext
      fun d => ⟨hleft hsame d, hleft (fun path => (hsame path).symm) d⟩

end Session

end EntityMapper
