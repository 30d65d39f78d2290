import Mathlib.Tactic.Common
import EntityMapper.Json.Printer
import EntityMapper.Json.Reader
import EntityMapper.Proofs.NameMap

/-!
# The parts of a document

A document is looked at part by part: what holds of all documents is proved by
one induction whose hypotheses are about the items of an array and the values of
an object. A document that is written as it stands becomes a tree without gaps,
and the tree becomes the document again if no more levels are open than allowed
and the members of each object are in the order of their names.
-/

namespace EntityMapper.Json

namespace Document

/-! ## Induction -/

/-- What holds of an array if it holds of its items, of an object if it holds of
its values, and of all other documents, holds of every document. -/
@[elab_as_elim]
theorem induction_on {P : Document → Prop} (null : P .null)
    (bool : ∀ b, P (.bool b)) (int : ∀ n, P (.int n))
    (float : ∀ x, P (.float x)) (string : ∀ s, P (.string s))
    (array : ∀ items, (∀ d ∈ items, P d) → P (.array items))
    (object : ∀ members, (∀ m ∈ members, P m.2) → P (.object members))
    (d : Document) : P d :=
  @Document.rec P (fun items => ∀ d ∈ items, P d)
    (fun members => ∀ m ∈ members, P m.2)
    (fun m => P m.2) null bool int float string array object (by simp)
    (fun _ _ hitem hrest => List.forall_mem_cons.mpr ⟨hitem, hrest⟩) (by simp)
    (fun _ _ hvalue hrest => List.forall_mem_cons.mpr ⟨hvalue, hrest⟩)
    (fun _ _ hvalue => hvalue) d

/-! ## Parts -/

mutual

/-- A document with everything inside it. -/
def parts : Document → List Document
  | .array items => .array items :: itemParts items
  | .object members => .object members :: memberParts members
  | .null => [.null]
  | .bool b => [.bool b]
  | .int n => [.int n]
  | .float x => [.float x]
  | .string s => [.string s]

def itemParts : List Document → List Document
  | [] => []
  | item :: rest => parts item ++ itemParts rest

def memberParts : List (String × Document) → List Document
  | [] => []
  | (_, value) :: rest => parts value ++ memberParts rest

end

theorem mem_itemParts {p : Document} (items : List Document) :
    p ∈ itemParts items ↔ ∃ d ∈ items, p ∈ d.parts := by
  induction items with
  | nil => simp [itemParts]
  | cons item rest ih => simp [itemParts, ih]

theorem mem_memberParts {p : Document} (members : List (String × Document)) :
    p ∈ memberParts members ↔ ∃ m ∈ members, p ∈ m.2.parts := by
  induction members with
  | nil => simp [memberParts]
  | cons m rest ih =>
    obtain ⟨name, value⟩ := m
    simp [memberParts, ih]

theorem mem_parts_array {p : Document} {items : List Document} :
    p ∈ (array items).parts ↔ p = .array items ∨ ∃ d ∈ items, p ∈ d.parts := by
  rw [parts, List.mem_cons, mem_itemParts]

theorem mem_parts_object {p : Document} {members : List (String × Document)} :
    p ∈ (object members).parts ↔
      p = .object members ∨ ∃ m ∈ members, p ∈ m.2.parts := by
  rw [parts, List.mem_cons, mem_memberParts]

theorem mem_parts_self (d : Document) : d ∈ d.parts := by
  cases d <;> simp [parts]

/-- What every part of a document has to satisfy: it holds of the document
itself and of what is inside. -/
def Throughout (p : Document → Prop) (d : Document) : Prop :=
  ∀ part ∈ d.parts, p part

theorem Throughout.self {p : Document → Prop} {d : Document}
    (h : d.Throughout p) : p d :=
  h d d.mem_parts_self

theorem throughout_array {p : Document → Prop} {items : List Document} :
    (array items).Throughout p ↔
      p (.array items) ∧ ∀ d ∈ items, d.Throughout p := by
  simp only [Throughout, mem_parts_array]
  constructor
  · exact fun h =>
      ⟨h _ (.inl rfl), fun d hd part hpart => h part (.inr ⟨d, hd, hpart⟩)⟩
  · rintro ⟨hself, hitems⟩ part (rfl | ⟨d, hd, hpart⟩)
    · exact hself
    · exact hitems d hd part hpart

theorem throughout_object {p : Document → Prop}
    {members : List (String × Document)} :
    (object members).Throughout p ↔
      p (.object members) ∧ ∀ m ∈ members, m.2.Throughout p := by
  simp only [Throughout, mem_parts_object]
  constructor
  · exact fun h =>
      ⟨h _ (.inl rfl), fun m hm part hpart => h part (.inr ⟨m, hm, hpart⟩)⟩
  · rintro ⟨hself, hmembers⟩ part (rfl | ⟨m, hm, hpart⟩)
    · exact hself
    · exact hmembers m hm part hpart

instance {p : Document → Prop} [DecidablePred p] : DecidablePred (Throughout p) :=
  fun d => inferInstanceAs (Decidable (∀ part ∈ d.parts, p part))

/-- The members of an object are in the order of their names. -/
def IsOrdered : Document → Prop
  | .object members => (⟨members⟩ : NameMap Document).WellFormed
  | _ => True

instance : DecidablePred IsOrdered
  | .object members =>
    inferInstanceAs (Decidable (members.Pairwise fun x y => x.1 < y.1))
  | .null | .bool _ | .int _ | .float _ | .string _ | .array _ => isTrue trivial

/-- A whole number is within the ranges that a document can hold. -/
def IsInRange : Document → Prop
  | .int n => Int64.minValue.toInt ≤ n ∧ n ≤ maxInt
  | _ => True

instance : DecidablePred IsInRange
  | .int n => inferInstanceAs (Decidable (Int64.minValue.toInt ≤ n ∧ n ≤ maxInt))
  | .null | .bool _ | .float _ | .string _ | .array _ | .object _ => isTrue trivial

/-- The documents that exist: whole numbers are in range and objects are in
order, throughout. -/
def WellFormed (d : Document) : Prop :=
  d.Throughout fun part => part.IsOrdered ∧ part.IsInRange

instance : DecidablePred WellFormed := fun d =>
  inferInstanceAs
    (Decidable (d.Throughout fun part => part.IsOrdered ∧ part.IsInRange))

/-! ## Levels -/

mutual

/-- How many arrays and objects stand inside each other at most. -/
def nesting : Document → Nat
  | .array items => itemNesting items + 1
  | .object members => memberNesting members + 1
  | .null => 0
  | .bool _ => 0
  | .int _ => 0
  | .float _ => 0
  | .string _ => 0

def itemNesting : List Document → Nat
  | [] => 0
  | item :: rest => max (nesting item) (itemNesting rest)

def memberNesting : List (String × Document) → Nat
  | [] => 0
  | (_, value) :: rest => max (nesting value) (memberNesting rest)

end

theorem itemNesting_lt {depth : Nat} (hdepth : 0 < depth) (items : List Document) :
    itemNesting items < depth ↔ ∀ d ∈ items, d.nesting < depth := by
  induction items with
  | nil => simpa [itemNesting] using hdepth
  | cons item rest ih => simp [itemNesting, ih]

theorem memberNesting_lt {depth : Nat} (hdepth : 0 < depth)
    (members : List (String × Document)) :
    memberNesting members < depth ↔ ∀ m ∈ members, m.2.nesting < depth := by
  induction members with
  | nil => simpa [memberNesting] using hdepth
  | cons m rest ih =>
    obtain ⟨name, value⟩ := m
    simp [memberNesting, ih]

/-- An array stays below a depth if a level is left for it and its items stay
below the next. -/
theorem nesting_array_lt {depth : Nat} {items : List Document} :
    (array items).nesting < depth ↔
      1 < depth ∧ ∀ d ∈ items, d.nesting < depth - 1 := by
  rw [nesting]
  constructor
  · intro h
    have hdepth : 0 < depth - 1 := by omega
    exact ⟨by omega, (itemNesting_lt hdepth items).mp (by omega)⟩
  · rintro ⟨hdepth, hitems⟩
    have hlt := (itemNesting_lt (Nat.sub_pos_of_lt hdepth) items).mpr hitems
    omega

theorem nesting_object_lt {depth : Nat} {members : List (String × Document)} :
    (object members).nesting < depth ↔
      1 < depth ∧ ∀ m ∈ members, m.2.nesting < depth - 1 := by
  rw [nesting]
  constructor
  · intro h
    have hdepth : 0 < depth - 1 := by omega
    exact ⟨by omega, (memberNesting_lt hdepth members).mp (by omega)⟩
  · rintro ⟨hdepth, hmembers⟩
    have hlt := (memberNesting_lt (Nat.sub_pos_of_lt hdepth) members).mpr hmembers
    omega

/-! ## Texts -/

theorem itemTexts_eq (items : List Document) :
    itemTexts items = items.map chars := by
  induction items with
  | nil => rfl
  | cons item rest ih => rw [itemTexts, ih, List.map_cons]

/-! ## Trees -/

mutual

/-- The tree of the text of a document. -/
def tree : Document → Tree
  | .null => .null
  | .bool b => .bool b
  | .int n => .number (some (.int n))
  | .float x => .number (some (.float x))
  | .string s => .string (some s)
  | .array items => .array (trees items)
  | .object members => .object (memberTrees members)

def trees : List Document → List Tree
  | [] => []
  | item :: rest => tree item :: trees rest

def memberTrees : List (String × Document) → List (Option String × Tree)
  | [] => []
  | (name, value) :: rest => (some name, tree value) :: memberTrees rest

end

theorem trees_eq (items : List Document) : trees items = items.map tree := by
  induction items with
  | nil => rfl
  | cons item rest ih => rw [trees, ih, List.map_cons]

theorem memberTrees_eq (members : List (String × Document)) :
    memberTrees members = members.map fun m => (some m.1, m.2.tree) := by
  induction members with
  | nil => rfl
  | cons m rest ih =>
    obtain ⟨name, value⟩ := m
    rw [memberTrees, ih, List.map_cons]

theorem documents?_trees {depth : Nat} {items : List Document}
    (h : ∀ d ∈ items, d.tree.document? depth = some d) :
    Tree.documents? depth (trees items) = some items := by
  induction items with
  | nil => rfl
  | cons item rest ih =>
    obtain ⟨hitem, hrest⟩ := List.forall_mem_cons.mp h
    simp only [trees, Tree.documents?, hitem, ih hrest]

theorem members?_memberTrees {depth : Nat} {members : List (String × Document)}
    (h : ∀ m ∈ members, m.2.tree.document? depth = some m.2) :
    Tree.members? depth (memberTrees members) = some members := by
  induction members with
  | nil => rfl
  | cons m rest ih =>
    obtain ⟨name, value⟩ := m
    obtain ⟨hvalue, hrest⟩ := List.forall_mem_cons.mp h
    simp only [memberTrees, Tree.members?, hvalue, ih hrest]

/-- Members that are in order stay as they are. -/
theorem ofMembers_of_ordered {members : List (String × Document)}
    (h : (object members).IsOrdered) : ofMembers members = .object members := by
  have hordered : (⟨members⟩ : NameMap Document).WellFormed := h
  rw [ofMembers, hordered.ofList_entries]

/-- The tree of a document is read as the document, if enough levels may be open. -/
theorem document?_tree {d : Document} :
    ∀ {depth : Nat}, d.nesting < depth → d.Throughout IsOrdered →
      d.tree.document? depth = some d := by
  induction d using induction_on with
  | null | bool _ | int _ | float _ | string _ => exact fun _ _ => rfl
  | array items ih =>
    intro depth hdepth hordered
    obtain ⟨hlevel, hitems⟩ := nesting_array_lt.mp hdepth
    obtain ⟨-, horder⟩ := throughout_array.mp hordered
    calc
      (array items).tree.document? depth =
          (Tree.documents? (depth - 1) (trees items)).map array := by
        rw [tree, Tree.document?, if_neg (Nat.not_le.mpr hlevel)]
      _ = some (array items) := by
        rw [documents?_trees fun d hd => ih d hd (hitems d hd) (horder d hd),
          Option.map_some]
  | object members ih =>
    intro depth hdepth hordered
    obtain ⟨hlevel, hmembers⟩ := nesting_object_lt.mp hdepth
    obtain ⟨hself, horder⟩ := throughout_object.mp hordered
    calc
      (object members).tree.document? depth =
          (Tree.members? (depth - 1) (memberTrees members)).map ofMembers := by
        rw [tree, Tree.document?, if_neg (Nat.not_le.mpr hlevel)]
      _ = some (ofMembers members) := by
        rw [members?_memberTrees fun m hm => ih m hm (hmembers m hm) (horder m hm),
          Option.map_some]
      _ = some (object members) := by rw [ofMembers_of_ordered hself]

end Document

end EntityMapper.Json
