import EntityMapper.Session.Eager
import Mathlib.Data.List.Induction
import Mathlib.Data.List.Nodup

/-!
# Paths of relations

Grouping paths by their first names. Which names head a group, and which tails
it has, depends on the set of paths alone: not on their order, nor on how often
one of them is given. A tail is shorter than a path that it comes from, so
loading tails of tails comes to an end.
-/

namespace EntityMapper.PathGroup

/-- A path without the blanks around it, cut at its first dot; nothing if it is
blank. -/
def cut? (path : String) : Option (String × Option String) :=
  match Text.trimChars path.toList with
  | [] => none
  | chars =>
    some (String.ofList (splitPath chars).1, (splitPath chars).2.map String.ofList)

/-- Whether a name is the first one of some path. -/
def Heads (paths : List String) (head : String) : Prop :=
  ∃ path ∈ paths, ∃ tail, cut? path = some (head, tail)

/-- Whether a text follows a first name in some path, and is not empty. -/
def Follows (paths : List String) (head tail : String) : Prop :=
  tail ≠ "" ∧ ∃ path ∈ paths, cut? path = some (head, some tail)

/-- The tails of a group, by its head. -/
def tailsOf (head : String) : List PathGroup → List String
  | [] => []
  | group :: rest => if group.head = head then group.tails else tailsOf head rest

variable {groups : List PathGroup} {paths : List String} {head tail : String}

theorem head_addTail (group : PathGroup) (tail : Option String) :
    (addTail group tail).head = group.head := by
  cases tail with
  | none => rfl
  | some tail =>
    rw [addTail]
    split <;> rfl

theorem mem_addTail {group : PathGroup} {tail : Option String} {name : String} :
    name ∈ (addTail group tail).tails ↔
      name ∈ group.tails ∨ name ≠ "" ∧ tail = some name := by
  cases tail with
  | none => simp [addTail]
  | some tail =>
    rw [addTail]
    by_cases hkept : (tail.isEmpty || group.tails.contains tail) = true
    · rw [if_pos hkept]
      rw [Bool.or_eq_true, String.isEmpty_iff, List.contains_iff_mem] at hkept
      refine ⟨.inl, ?_⟩
      rintro (hmem | ⟨hname, heq⟩)
      · exact hmem
      · obtain rfl := Option.some.inj heq
        exact hkept.resolve_left hname
    · rw [if_neg hkept]
      rw [Bool.or_eq_true, String.isEmpty_iff, not_or] at hkept
      rw [List.mem_append, List.mem_singleton]
      refine or_congr_right ⟨?_, fun h => (Option.some.inj h.2).symm⟩
      rintro rfl
      exact ⟨hkept.1, rfl⟩

theorem heads_add (head : String) (tail : Option String) (groups : List PathGroup) :
    (add head tail groups).map PathGroup.head =
      if head ∈ groups.map PathGroup.head then groups.map PathGroup.head
      else groups.map PathGroup.head ++ [head] := by
  induction groups with
  | nil => simp [add, head_addTail]
  | cons group rest ih =>
    rw [add]
    by_cases hsame : group.head = head
    · rw [if_pos hsame]
      simp [head_addTail, hsame]
    · rw [if_neg hsame, List.map_cons, ih]
      by_cases hmem : head ∈ rest.map PathGroup.head
      · simp [hmem]
      · simp [hmem, Ne.symm hsame]

theorem mem_tailsOf_add (head : String) (tail : Option String)
    (groups : List PathGroup) (other name : String) :
    name ∈ tailsOf other (add head tail groups) ↔ name ∈ tailsOf other groups ∨
        other = head ∧ name ≠ "" ∧ tail = some name := by
  induction groups with
  | nil =>
    rw [add, tailsOf, tailsOf, head_addTail]
    by_cases hother : head = other
    · rw [if_pos hother, mem_addTail]
      simp [hother]
    · rw [if_neg hother]
      simp [tailsOf, Ne.symm hother]
  | cons group rest ih =>
    rw [add]
    by_cases hsame : group.head = head
    · rw [if_pos hsame, tailsOf, tailsOf, head_addTail]
      by_cases hother : group.head = other
      · rw [if_pos hother, if_pos hother, mem_addTail]
        simp [hother.symm.trans hsame]
      · have hne : other ≠ head := fun heq => hother (hsame.trans heq.symm)
        rw [if_neg hother, if_neg hother]
        simp [hne]
    · rw [if_neg hsame, tailsOf, tailsOf]
      by_cases hother : group.head = other
      · have hne : other ≠ head := fun heq => hsame (hother.trans heq)
        rw [if_pos hother, if_pos hother]
        simp [hne]
      · rw [if_neg hother, if_neg hother, ih]

theorem tailsOf_head (hnodup : (groups.map PathGroup.head).Nodup)
    {group : PathGroup} (hgroup : group ∈ groups) :
    tailsOf group.head groups = group.tails := by
  induction groups with
  | nil => cases hgroup
  | cons first rest ih =>
    rw [List.map_cons, List.nodup_cons] at hnodup
    rw [tailsOf]
    rcases List.mem_cons.mp hgroup with rfl | hrest
    · rw [if_pos rfl]
    · have hne : first.head ≠ group.head := fun heq =>
        hnodup.1 (heq ▸ List.mem_map_of_mem hrest)
      rw [if_neg hne, ih hnodup.2 hrest]

/-- Groups that are those of some paths: one for each first name, with the texts
that follow it. -/
structure Groups (groups : List PathGroup) (paths : List String) : Prop where
  nodup : (groups.map PathGroup.head).Nodup
  heads : ∀ head, head ∈ groups.map PathGroup.head ↔ Heads paths head
  tails : ∀ head tail, tail ∈ tailsOf head groups ↔ Follows paths head tail

theorem Groups.mem_tails (h : Groups groups paths) {group : PathGroup}
    (hgroup : group ∈ groups) :
    tail ∈ group.tails ↔ Follows paths group.head tail := by
  rw [← h.tails, tailsOf_head h.nodup hgroup]

theorem heads_append {path head : String} : Heads (paths ++ [path]) head ↔
    Heads paths head ∨ ∃ tail, cut? path = some (head, tail) := by
  simp [Heads, or_and_right, exists_or]

theorem follows_append {path head tail : String} :
    Follows (paths ++ [path]) head tail ↔
      Follows paths head tail ∨ tail ≠ "" ∧ cut? path = some (head, some tail) := by
  simp [Follows, or_and_right, exists_or, and_or_left]

/-- A path that is blank joins no group. -/
theorem Groups.skip (h : Groups groups paths) {path : String}
    (hblank : cut? path = none) : Groups groups (paths ++ [path]) where
  nodup := h.nodup
  heads head := by
    rw [h.heads, heads_append, hblank]
    simp
  tails head tail := by
    rw [h.tails, follows_append, hblank]
    simp

/-- Another path joins the group of its first name. -/
theorem Groups.add (h : Groups groups paths) {path first : String}
    {rest : Option String} (hcut : cut? path = some (first, rest)) :
    Groups (PathGroup.add first rest groups) (paths ++ [path]) where
  nodup := by
    rw [heads_add]
    split
    · exact h.nodup
    · next hnew => exact List.concat_eq_append ▸ List.Nodup.concat hnew h.nodup
  heads head := by
    have hmem : head ∈ (PathGroup.add first rest groups).map PathGroup.head ↔
        head ∈ groups.map PathGroup.head ∨ head = first := by
      rw [heads_add]
      split
      · next hknown => exact (or_iff_left_of_imp fun heq => heq ▸ hknown).symm
      · rw [List.mem_append, List.mem_singleton]
    rw [hmem, h.heads, heads_append, hcut]
    simp [eq_comm]
  tails head tail := by
    rw [mem_tailsOf_add, h.tails, follows_append, hcut]
    simp only [Option.some.injEq, Prod.mk.injEq, eq_comm (a := head)]
    tauto

theorem groups_ofPaths (paths : List String) : Groups (ofPaths paths) paths := by
  induction paths using List.reverseRec with
  | nil =>
    exact ⟨List.nodup_nil, by simp [Heads, ofPaths],
      by simp [tailsOf, Follows, ofPaths]⟩
  | append_singleton paths path ih =>
    rw [ofPaths, List.foldl_concat, ← ofPaths]
    cases hchars : Text.trimChars path.toList with
    | nil => exact ih.skip (by rw [cut?, hchars])
    | cons c chars =>
      have hcut : cut? path = some (String.ofList (splitPath (c :: chars)).1,
          (splitPath (c :: chars)).2.map String.ofList) := by rw [cut?, hchars]
      exact ih.add hcut

/-! ## Tails are shorter -/

theorem length_splitPath {chars head tail : List Char}
    (h : splitPath chars = (head, some tail)) : tail.length < chars.length := by
  induction chars generalizing head with
  | nil => cases h
  | cons c rest ih =>
    rw [splitPath] at h
    split at h
    · obtain rfl := Option.some.inj (congrArg Prod.snd h)
      exact Nat.lt_succ_self _
    · have htail : (splitPath rest).2 = some tail := congrArg Prod.snd h
      exact Nat.lt_succ_of_lt (ih (Prod.ext rfl htail))

theorem length_trimChars (text : List Char) :
    (Text.trimChars text).length ≤ text.length := by
  rw [Text.trimChars, List.length_reverse]
  refine Nat.le_trans (List.dropWhile_suffix _).length_le ?_
  rw [List.length_reverse]
  exact (List.dropWhile_suffix _).length_le

theorem length_of_follows (h : Follows paths head tail) :
    ∃ path ∈ paths, tail.length < path.length := by
  obtain ⟨-, path, hpath, hcut⟩ := h
  refine ⟨path, hpath, ?_⟩
  unfold cut? at hcut
  cases hchars : Text.trimChars path.toList with
  | nil =>
    rw [hchars] at hcut
    cases hcut
  | cons c chars =>
    rw [hchars] at hcut
    obtain ⟨-, htail⟩ := Prod.mk.inj (Option.some.inj hcut)
    obtain ⟨rest, hrest, rfl⟩ := Option.map_eq_some_iff.mp htail
    have hsplit := length_splitPath
      (Prod.ext rfl hrest : splitPath (c :: chars) = (_, some rest))
    have htrim := length_trimChars path.toList
    rw [hchars] at htrim
    rw [String.length_ofList, ← String.length_toList]
    exact Nat.lt_of_lt_of_le hsplit htrim

/-! ## Fuel -/

/-- Whether some fuel is enough to follow paths to their ends. -/
def Fits (fuel : Nat) (paths : List String) : Prop :=
  ∀ path ∈ paths, path.length < fuel

theorem Fits.eq_nil (h : Fits 0 paths) : paths = [] :=
  List.eq_nil_iff_forall_not_mem.mpr
    fun path hpath => Nat.not_lt_zero _ (h path hpath)

theorem Fits.tails {fuel : Nat} (h : Fits (fuel + 1) paths) {group : PathGroup}
    (hgroup : group ∈ ofPaths paths) : Fits fuel group.tails := by
  intro tail htail
  have hfollows := ((groups_ofPaths paths).mem_tails hgroup).mp htail
  obtain ⟨path, hpath, hless⟩ := length_of_follows hfollows
  exact Nat.lt_of_lt_of_le hless (Nat.le_of_lt_succ (h path hpath))

theorem fits_longest (paths : List String) :
    Fits ((paths.map String.length).foldl max 0 + 1) paths := by
  have hfold (lengths : List Nat) (bound : Nat) : bound ≤ lengths.foldl max bound ∧
      ∀ length ∈ lengths, length ≤ lengths.foldl max bound := by
    induction lengths generalizing bound with
    | nil => simp
    | cons length rest ih =>
      obtain ⟨hbound, hrest⟩ := ih (max bound length)
      exact ⟨Nat.le_trans (Nat.le_max_left ..) hbound,
        List.forall_mem_cons.mpr ⟨Nat.le_trans (Nat.le_max_right ..) hbound, hrest⟩⟩
  exact fun path hpath =>
    Nat.lt_succ_of_le ((hfold _ 0).2 _ (List.mem_map_of_mem hpath))

/-! ## Paths in another order -/

variable {others : List String}

theorem heads_congr (hsame : ∀ path, path ∈ paths ↔ path ∈ others) :
    Heads paths head ↔ Heads others head := by
  simp only [Heads, hsame]

/-- The same paths in another order, or given more often, have the same heads
and tails. -/
theorem exists_group_of_mem_iff (hsame : ∀ path, path ∈ paths ↔ path ∈ others)
    {group : PathGroup} (hgroup : group ∈ ofPaths paths) :
    ∃ other ∈ ofPaths others, other.head = group.head ∧
      ∀ tail, tail ∈ group.tails ↔ tail ∈ other.tails := by
  have hheads : group.head ∈ (ofPaths others).map PathGroup.head := by
    have hmem : group.head ∈ (ofPaths paths).map PathGroup.head :=
      List.mem_map_of_mem hgroup
    rwa [(groups_ofPaths others).heads, ← heads_congr hsame,
      ← (groups_ofPaths paths).heads]
  obtain ⟨other, hother, hhead⟩ := List.mem_map.mp hheads
  refine ⟨other, hother, hhead, fun tail => ?_⟩
  rw [(groups_ofPaths paths).mem_tails hgroup,
    (groups_ofPaths others).mem_tails hother, hhead]
  simp only [Follows, hsame]

end EntityMapper.PathGroup
