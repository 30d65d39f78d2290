import EntityMapper.Proofs.Session.EagerLoading

/-!
# Loads that fail

What loading paths leaves of the records, whether it succeeds or fails, on any
backend. It writes no attribute, so the rows of the records stay as they are. It
takes a relation off the records while the rest of its paths is loaded onto the
records that the relation leads to, and attaches it again at the end. If that
rest fails to load, the relation is not attached again, and every record is left
without it, whatever had been loaded under its name before.

This is the only way in which a record loses a relation, and a load ends with
it, so it loses at most one name. `FailsBelow` says of which name that is. The
groups of the paths are followed one after another: a group that loads gives
each record the relation of its head, and one that fails either leaves the
records as they are or takes that relation off all of them.
-/

namespace EntityMapper

namespace Session

open Effect Related PathGroup

variable {σ : Type} {s : Session σ} {name : String} {group : PathGroup}
  {groups : List PathGroup} {paths : List String} {records after : List Record}
  {state next : σ}

/-! ## Loading without fuel -/

theorem forM_congr {α ρ : Type} {f g : α → EffectOn ρ σ Unit} {xs : List α}
    (h : ∀ x ∈ xs, f x = g x) : xs.forM f = xs.forM g := by
  induction xs with
  | nil => rfl
  | cons x rest ih =>
    obtain ⟨hx, hrest⟩ := List.forall_mem_cons.mp h
    calc
      (x :: rest).forM f = (f x >>= fun _ => rest.forM f) := List.forM_cons ..
      _ = (g x >>= fun _ => rest.forM g) := by rw [hx, ih hrest]
      _ = (x :: rest).forM g := (List.forM_cons ..).symm

theorem loadGroup_congr {n m : Nat}
    (h : s.loadWithin n group.tails = s.loadWithin m group.tails) :
    s.loadGroup n group = s.loadGroup m group := by
  unfold loadGroup loadChildren
  rw [h]

/-- Fuel that is enough makes no difference to what loading does. -/
theorem loadWithin_eq_of_fits (s : Session σ) {n m : Nat} (hn : Fits n paths)
    (hm : Fits m paths) : s.loadWithin n paths = s.loadWithin m paths := by
  induction n generalizing m paths with
  | zero =>
    rw [hn.eq_nil]
    cases m <;> rfl
  | succ n ih =>
    cases m with
    | zero =>
      rw [hm.eq_nil]
      rfl
    | succ m =>
      rw [loadWithin_succ, loadWithin_succ]
      exact forM_congr fun group hgroup =>
        loadGroup_congr (ih (hn.tails hgroup) (hm.tails hgroup))

/-- Load one relation and what is below it, with as much fuel as its tails ask
for. -/
def loadHead (s : Session σ) (group : PathGroup) : EffectOn (List Record) σ Unit :=
  s.loadGroup ((group.tails.map String.length).foldl max 0 + 1) group

/-- Paths are loaded group by group. -/
theorem load_eq (s : Session σ) (paths : List String) :
    s.load paths = (ofPaths paths).forM s.loadHead := by
  rw [load, loadWithin_succ]
  exact forM_congr fun group hgroup => loadGroup_congr (s.loadWithin_eq_of_fits
    ((fits_longest paths).tails hgroup) (fits_longest group.tails))

theorem load_nil (s : Session σ) (records : List Record) (state : σ) :
    s.load [] (records, state) = (.ok (), records, state) := rfl

/-- There is nothing to load onto no records. -/
theorem load_none (s : Session σ) (paths : List String) (state : σ) :
    s.load paths ([], state) = (.ok (), [], state) := by
  rw [load_eq]
  induction ofPaths paths with
  | nil => rfl
  | cons group rest ih =>
    have hread : s.resolveAll group.head [] state = (.ok [], state) := rfl
    have hgroup : s.loadHead group ([], state) = (.ok (), [], state) := by
      rw [loadHead, loadGroup_apply hread]
      cases group.tails.isEmpty <;> rfl
    exact (bind_ok hgroup).trans ih

/-! ## What a group leaves of the records -/

/-- The records are as before but for the relation of one name, which all of
them have or none. -/
def Marked (name : String) (loaded : Bool) (records after : List Record) : Prop :=
  List.Forall₂ (fun r d => SameRow r d ∧ ∀ other, d.relationLoaded other =
      if name = other then loaded else r.relationLoaded other) records after

theorem marked_attachAll (name : String) {results : List (Related Record)}
    (h : results.length = records.length) :
    Marked name true records (attachAll name records results) := by
  induction records generalizing results with
  | nil => exact .nil
  | cons r rest ih =>
    obtain ⟨related, more, rfl⟩ := List.exists_cons_of_length_eq_add_one h
    refine .cons ⟨rfl, fun other => ?_⟩ (ih (Nat.succ.inj h))
    by_cases hname : name = other <;>
      simp [Record.relationLoaded, Record.setRelation, hname]

theorem marked_dropRelation (name : String) (records : List Record) :
    Marked name false records (records.map (dropRelation name)) := by
  induction records with
  | nil => exact .nil
  | cons r rest ih =>
    refine .cons ⟨rfl, fun other => ?_⟩ ih
    by_cases hname : name = other <;>
      simp [Record.relationLoaded, dropRelation, hname]

/-- The last word on a relation counts. -/
theorem Marked.trans {first second : Bool} {mid : List Record}
    (h : Marked name first records mid) (hnext : Marked name second mid after) :
    Marked name second records after := by
  induction h generalizing after with
  | nil => exact hnext
  | cons hr _ ih =>
    obtain ⟨d, others, hd, hothers, rfl⟩ := List.forall₂_cons_left_iff.mp hnext
    refine .cons ⟨hr.1.trans hd.1, fun other => ?_⟩ (ih hothers)
    rw [hd.2, hr.2]
    split <;> rfl

theorem length_resolveAll {results : List (Related Record)}
    (h : s.resolveAll name records state = (.ok results, next)) :
    results.length = records.length := by
  induction records generalizing results state next with
  | nil =>
    obtain ⟨rfl, -⟩ := pure_eq_ok.mp h
    rfl
  | cons r rest ih =>
    obtain ⟨related, mid, -, hrest⟩ := bind_eq_ok.mp h
    obtain ⟨more, last, hmore, hpure⟩ := bind_eq_ok.mp hrest
    obtain ⟨rfl, -⟩ := pure_eq_ok.mp hpure
    exact congrArg Nat.succ (ih hmore)

theorem length_refill (results : List (Related Record)) (loaded : List Record) :
    (refill results loaded).length = results.length := by
  induction results generalizing loaded with
  | nil => rfl
  | cons related rest ih =>
    obtain (_ | _) | items := related <;> exact congrArg Nat.succ (ih _)

/-- Loading a group fails below its head: the relation was read for every
record, and the rest of the paths could not be loaded onto the records that it
leads to. -/
def HeadFailsBelow (s : Session σ) (group : PathGroup) (records : List Record)
    (state : σ) : Prop :=
  ∃ results next e left,
    s.resolveAll group.head records state = (.ok results, next) ∧
      s.load group.tails (results.flatMap toList, next) = (.error e, left)

theorem loadChildren_apply (s : Session σ) (tails : List String)
    (children : List Record) (state : σ) :
    s.loadChildren ((tails.map String.length).foldl max 0 + 1) tails
        children state =
      ((s.load tails (children, state)).1.map fun _ => (s.load tails
          (children, state)).2.1, (s.load tails (children, state)).2.2) := by
  unfold loadChildren
  cases hempty : children.isEmpty with
  | true =>
    rw [List.isEmpty_iff.mp hempty, load_none]
    rfl
  | false =>
    rw [if_neg Bool.false_ne_true, bind_ok (holding_apply _ _ _), ← load]
    obtain ⟨_ | _, _, _⟩ := s.load tails (children, state) <;> rfl

/-- A group whose head is read of every record ends as the load of its tails
does. -/
theorem loadHead_apply {results : List (Related Record)}
    (h : s.resolveAll group.head records state = (.ok results, next)) :
    s.loadHead group (records, state) =
      match s.load group.tails (results.flatMap toList, next) with
      | (.ok (), loaded, after) => (.ok (), if group.tails.isEmpty then
            attachAll group.head records results
          else attachAll group.head ((attachAll group.head records results).map
            (dropRelation group.head)) (refill results loaded), after)
      | (.error e, _, after) =>
          (.error e, (attachAll group.head records results).map
            (dropRelation group.head), after) := by
  rw [loadHead, loadGroup_apply h, loadChildren_apply]
  cases hempty : group.tails.isEmpty with
  | true =>
    rw [List.isEmpty_iff.mp hempty, load_nil]
    rfl
  | false =>
    obtain ⟨_ | _, _, _⟩ := s.load group.tails (results.flatMap toList, next) <;>
      rfl

/-- A group is loaded, and then every record has the relation of its head; or it
fails below its head, and then no record has it; or its head cannot be read, and
nothing is changed. -/
theorem loadHead_cases (s : Session σ) (group : PathGroup)
    (records : List Record) (state : σ) :
    (∃ after next, s.loadHead group (records, state) = (.ok (), after, next) ∧
      ¬s.HeadFailsBelow group records state ∧
      Marked group.head true records after) ∨
      (∃ e after next, s.loadHead group (records, state) = (.error e, after, next) ∧
        s.HeadFailsBelow group records state ∧
        Marked group.head false records after) ∨
      ∃ e next, s.loadHead group (records, state) = (.error e, records, next) ∧
        ¬s.HeadFailsBelow group records state := by
  rcases hread : s.resolveAll group.head records state with ⟨e | results, next⟩
  · refine .inr (.inr ⟨e, next, loadGroup_error hread _, ?_⟩)
    rintro ⟨results, _, _, _, hok, -⟩
    cases hread.symm.trans hok
  · have hattached := marked_attachAll group.head (length_resolveAll hread)
    have hdropped := hattached.trans (marked_dropRelation group.head _)
    rw [loadHead_apply hread]
    rcases hload : s.load group.tails (results.flatMap toList, next) with
      ⟨e | _, loaded, last⟩
    · exact .inr
        (.inl ⟨e, _, last, rfl, ⟨results, next, e, _, hread, hload⟩, hdropped⟩)
    · refine .inl ⟨_, last, rfl, ?_, ?_⟩
      · rintro ⟨_, _, _, _, hok, hfail⟩
        obtain ⟨hresults, rfl⟩ := Prod.mk.inj (hread.symm.trans hok)
        obtain rfl := Except.ok.inj hresults
        cases hload.symm.trans hfail
      · split
        · exact hattached
        · have hlength := (length_refill results loaded).trans
            ((length_resolveAll hread).trans hdropped.length_eq)
          exact hdropped.trans (marked_attachAll group.head hlength)

/-! ## Which relation a load loses -/

/-- Loading groups fails below the relation of a name: the groups before its own
are loaded, and its own fails below its head. -/
inductive FailsBelow (s : Session σ) (name : String) :
    List PathGroup → List Record → σ → Prop
  | here {group : PathGroup} {rest : List PathGroup} {records : List Record}
      {state : σ} (hhead : group.head = name)
      (hfails : s.HeadFailsBelow group records state) :
      FailsBelow s name (group :: rest) records state
  | later {group : PathGroup} {rest : List PathGroup}
      {records loaded : List Record} {state next : σ}
      (hload : s.loadHead group (records, state) = (.ok (), loaded, next))
      (hrest : FailsBelow s name rest loaded next) :
      FailsBelow s name (group :: rest) records state

/-- What follows the relation in the paths is what fails to load. -/
theorem FailsBelow.exists_follows
    (h : s.FailsBelow name (ofPaths paths) records state) :
    ∃ tail, Follows paths name tail := by
  have hgroup (groups : List PathGroup) (records : List Record) (state : σ)
      (h : s.FailsBelow name groups records state) :
      ∃ group ∈ groups, group.head = name ∧ ∃ tail, tail ∈ group.tails := by
    induction h with
    | @here group rest records state hhead hfails =>
      obtain ⟨results, next, e, left, -, hload⟩ := hfails
      refine ⟨group, List.mem_cons_self .., hhead,
        List.exists_mem_of_ne_nil _ fun hnil => ?_⟩
      rw [hnil, load_nil] at hload
      cases hload
    | later _ _ ih => exact ih.imp fun group h => ⟨List.mem_cons_of_mem _ h.1, h.2⟩
  obtain ⟨group, hmem, rfl, tail, htail⟩ := hgroup _ _ _ h
  exact ⟨tail, ((groups_ofPaths paths).mem_tails hmem).mp htail⟩

/-- Every record keeps its row and its relations, except that none has the
relation of one name. -/
def KeepsBut (lost : Option String) (records after : List Record) : Prop :=
  List.Forall₂ (fun r d => SameRow r d ∧ ∀ name, if lost = some name
    then d.relationLoaded name = false
    else r.relationLoaded name = true → d.relationLoaded name = true) records after

theorem keepsBut_refl (records : List Record) : KeepsBut none records records :=
  List.forall₂_same.mpr fun r _ => ⟨.refl r, fun _ => id⟩

theorem Marked.keepsBut {loaded : Bool} (h : Marked name loaded records after) :
    KeepsBut (if loaded then none else some name) records after := by
  refine h.imp fun r d hd => ⟨hd.1, fun other => ?_⟩
  rw [hd.2]
  cases loaded with
  | true =>
    intro hr
    split
    · rfl
    · exact hr
  | false =>
    by_cases hname : name = other
    · simp [hname]
    · simp [hname]

theorem KeepsBut.trans {lost : Option String} {mid : List Record}
    (h : KeepsBut none records mid) (hnext : KeepsBut lost mid after) :
    KeepsBut lost records after := by
  induction h generalizing after with
  | nil => exact hnext
  | cons hr _ ih =>
    obtain ⟨d, others, hd, hothers, rfl⟩ := List.forall₂_cons_left_iff.mp hnext
    refine .cons ⟨hr.1.trans hd.1, fun other => ?_⟩ (ih hothers)
    have hmid := hr.2 other
    have hlast := hd.2 other
    split at hlast
    · next hlost => rwa [if_pos hlost]
    · next hkept =>
      rw [if_neg hkept]
      exact fun hloaded => hlast (hmid hloaded)

/-- Whether every record that had a relation loaded has it afterwards. -/
def KeepsLoaded (name : String) (records after : List Record) : Prop :=
  List.Forall₂ (fun r d => r.relationLoaded name = true →
      d.relationLoaded name = true) records after

theorem KeepsBut.keepsLoaded {lost : Option String}
    (h : KeepsBut lost records after) (hkept : lost ≠ some name) :
    KeepsLoaded name records after := by
  refine h.imp fun r d hd => ?_
  have hname := hd.2 name
  rwa [if_neg hkept] at hname

theorem KeepsBut.gone (h : KeepsBut (some name) records after) :
    ∀ d ∈ after, d.relationLoaded name = false := by
  induction h with
  | nil => exact List.forall_mem_nil _
  | cons hr _ ih => exact List.forall_mem_cons.mpr ⟨by simpa using hr.2 name, ih⟩

/-- Records of which none has a relation any more have kept it if none of them
had it. -/
theorem KeepsBut.keeps_lost_iff (h : KeepsBut (some name) records after) :
    KeepsLoaded name records after ↔
      ∀ r ∈ records, r.relationLoaded name = false := by
  induction h with
  | nil => exact ⟨fun _ => List.forall_mem_nil _, fun _ => .nil⟩
  | @cons r d rest others hr _ ih =>
    have hgone : d.relationLoaded name = false := by simpa using hr.2 name
    rw [KeepsLoaded, List.forall₂_cons, hgone, List.forall_mem_cons,
      ← KeepsLoaded, ih]
    simp

/-- Groups that are loaded in turn take off the records the relation below which
they fail, and no other. -/
theorem exists_lost (s : Session σ) (groups : List PathGroup)
    (records : List Record) (state : σ) :
    ∃ lost : Option String, (∀ name,
        s.FailsBelow name groups records state ↔ lost = some name) ∧
      (∀ name ∈ lost, ∃ e, (groups.forM s.loadHead (records, state)).1 = .error e) ∧
      KeepsBut lost records (groups.forM s.loadHead (records, state)).2.1 := by
  induction groups generalizing records state with
  | nil => exact ⟨none, fun name => ⟨nofun, nofun⟩, nofun, keepsBut_refl records⟩
  | cons group rest ih =>
    have hrun : (group :: rest).forM s.loadHead (records, state) =
        (s.loadHead group >>= fun _ => rest.forM s.loadHead) (records, state) := rfl
    rcases s.loadHead_cases group records state
      with ⟨loaded, next, hload, hbelow, hmarked⟩ |
        ⟨e, after, next, hload, hbelow, hmarked⟩ | ⟨e, next, hload, hbelow⟩
    · obtain ⟨lost, hlost, herror, hkeeps⟩ := ih loaded next
      rw [hrun, bind_ok hload]
      refine ⟨lost, fun name => ?_, herror, hmarked.keepsBut.trans hkeeps⟩
      rw [← hlost]
      constructor
      · rintro (⟨-, hfails⟩ | ⟨hother, hrest⟩)
        · exact absurd hfails hbelow
        · obtain ⟨-, hsame⟩ := Prod.mk.inj (hload.symm.trans hother)
          obtain ⟨rfl, rfl⟩ := Prod.mk.inj hsame
          exact hrest
      · exact .later hload
    · rw [hrun, bind_error hload]
      refine ⟨some group.head, fun name => ?_, fun _ _ => ⟨e, rfl⟩,
        hmarked.keepsBut⟩
      constructor
      · rintro (⟨hhead, -⟩ | ⟨hother, -⟩)
        · exact congrArg some hhead
        · cases hload.symm.trans hother
      · exact fun hname => .here (Option.some.inj hname) hbelow
    · rw [hrun, bind_error hload]
      refine ⟨none, fun name => ⟨?_, nofun⟩, nofun, keepsBut_refl records⟩
      rintro (⟨-, hfails⟩ | ⟨hother, -⟩)
      · exact absurd hfails hbelow
      · cases hload.symm.trans hother

/-- A load leaves the rows of the records as they are, and every record that had
a relation loaded still has it, unless the load fails below that relation. If it
does, the load fails, what it failed to load follows the relation in the paths,
no record has the relation any more, and it is the only one that is lost. So a
relation is unloaded iff the load fails below it and some record had it. -/
theorem load_keeps_relation_iff (s : Session σ) (paths : List String)
    (records : List Record) (state : σ) :
    List.Forall₂ SameRow records (s.load paths (records, state)).2.1 ∧
      (∀ name, KeepsLoaded name records (s.load paths (records, state)).2.1 ↔
        (s.FailsBelow name (ofPaths paths) records state →
          ∀ r ∈ records, r.relationLoaded name = false)) ∧
      ∀ name, s.FailsBelow name (ofPaths paths) records state →
        (∃ e, (s.load paths (records, state)).1 = .error e) ∧
          (∃ tail, Follows paths name tail) ∧
          (∀ d ∈ (s.load paths (records, state)).2.1, d.relationLoaded name =
            false) ∧ ∀ other, s.FailsBelow other (ofPaths paths) records state →
              other = name := by
  obtain ⟨lost, hlost, herror, hkeeps⟩ :=
    s.exists_lost (ofPaths paths) records state
  rw [← load_eq] at herror hkeeps
  refine ⟨hkeeps.imp fun _ _ h => h.1, fun name => ?_, fun name hfails => ?_⟩
  · rw [hlost]
    by_cases hname : lost = some name
    · subst hname
      rw [hkeeps.keeps_lost_iff]
      simp
    · exact iff_of_true (hkeeps.keepsLoaded hname) fun h => absurd h hname
  · obtain rfl := (hlost name).mp hfails
    refine ⟨herror name rfl, hfails.exists_follows, hkeeps.gone,
      fun other hother => ?_⟩
    exact (Option.some.inj ((hlost other).mp hother)).symm

/-! ### A user whose posts were read before -/

/-- A user with a post and without a profile. -/
def knownUser : Record :=
  ((user 1).setRelation "posts" (.many [.hydrate postType
        (.ofList [("id", .int 10), ("author_id", .int 1)])])).setRelation
    "profile" (.one none)

theorem load_ghosts :
    (blogSession.load ["posts.ghost"] ([knownUser], blogStore)).1 =
        .error (.unknownRelation "Post" "ghost") ∧
      (blogSession.load ["posts.ghost"] ([knownUser], blogStore)).2.1.map
          (fun d => (d.relationLoaded "posts", d.relationLoaded "profile")) =
        [(false, true)] := by
  decide +kernel

/-- A load that fails below the posts of a user leaves him without the posts
that he had. -/
theorem failed_load_unloads : knownUser.relationLoaded "posts" = true ∧
    ∃ d after, blogSession.load ["posts.ghost"] ([knownUser], blogStore) =
        (.error (.unknownRelation "Post" "ghost"), [d], after) ∧
      d.relationLoaded "posts" = false := by
  obtain ⟨⟨outcome, loaded, after⟩, hrun⟩ : ∃ result,
    blogSession.load ["posts.ghost"] ([knownUser], blogStore) = result := ⟨_, rfl⟩
  obtain ⟨herror, hloaded⟩ := load_ghosts
  rw [hrun] at herror hloaded
  obtain ⟨d, rfl, hd⟩ := List.map_eq_singleton_iff.mp hloaded
  obtain rfl : outcome = _ := herror
  exact ⟨by decide, d, after, hrun, congrArg Prod.fst hd⟩

theorem load_keeps_relation_iff_knownUser :
    blogSession.FailsBelow "posts" (ofPaths ["posts.ghost"]) [knownUser] blogStore ∧
      List.Forall₂ SameRow [knownUser]
        (blogSession.load ["posts.ghost"] ([knownUser], blogStore)).2.1 ∧
      KeepsLoaded "profile" [knownUser]
        (blogSession.load ["posts.ghost"] ([knownUser], blogStore)).2.1 ∧
      ¬KeepsLoaded "posts" [knownUser]
        (blogSession.load ["posts.ghost"] ([knownUser], blogStore)).2.1 := by
  obtain ⟨hrows, hkeeps, hlost⟩ :=
    load_keeps_relation_iff blogSession ["posts.ghost"] [knownUser] blogStore
  obtain ⟨d, hloaded, hd⟩ := List.map_eq_singleton_iff.mp load_ghosts.2
  have hposts : d.relationLoaded "posts" = false := congrArg Prod.fst hd
  have hgone : ¬KeepsLoaded "posts" [knownUser]
      (blogSession.load ["posts.ghost"] ([knownUser], blogStore)).2.1 := by
    rw [hloaded, KeepsLoaded, List.forall₂_cons, hposts]
    exact fun h => Bool.false_ne_true (h.1 (by decide))
  have hbelow : blogSession.FailsBelow "posts"
      (ofPaths ["posts.ghost"]) [knownUser] blogStore := by
    by_contra hnot
    exact hgone ((hkeeps "posts").mpr fun h => absurd h hnot)
  refine ⟨hbelow, hrows, (hkeeps "profile").mpr fun h => ?_, hgone⟩
  exact absurd ((hlost "posts" hbelow).2.2.2 "profile" h) (by decide)

end Session

end EntityMapper
