import EntityMapper.Proofs.Json.RoundTrip
import EntityMapper.Serial.Fields

/-!
# Readers that undo their writers

A reader of serial forms *decodes* a document as a value if it gives the value
for the tree of the document, whenever as many levels may be open as the
document has. The facts are put together like the serial forms: from words and
numbers over arrays and options to structures with named fields. The documents
hold whole numbers only, so nothing is lost between the document and its text.
-/

namespace EntityMapper

open Json (Document)

namespace Json.Document

/-- Numbers are whole and in range. -/
def IsExact : Document → Prop
  | .int n => Int64.minValue.toInt ≤ n ∧ n ≤ maxInt
  | .float _ => False
  | _ => True

theorem throughout_isExact_array {items : List Document} :
    (array items).Throughout IsExact ↔ ∀ d ∈ items, d.Throughout IsExact := by
  rw [throughout_array]
  exact and_iff_right trivial

theorem throughout_isExact_object {members : List (String × Document)} :
    (object members).Throughout IsExact ↔
      ∀ m ∈ members, m.2.Throughout IsExact := by
  rw [throughout_object]
  exact and_iff_right trivial

theorem throughout_isExact_leaf {d : Document} (h : d.parts = [d])
    (hd : d.IsExact) : d.Throughout IsExact := by
  intro part hpart
  rw [h, List.mem_singleton] at hpart
  rwa [hpart]

/-- The text of a document with whole numbers is read as its tree, however deep
it is. -/
theorem Throughout.read_lenient {d : Document} (h : d.Throughout IsExact) :
    Tree.read false d.chars = .ok d.tree := by
  refine Document.read_lenient (fun part hpart => ?_) fun x hx => h _ hx
  have hexact := h part hpart
  cases part with
  | int n => exact hexact
  | _ => exact trivial

end Json.Document

namespace Serial

variable {α : Type}

/-- The reader gives the value for the tree of the document. -/
structure Decodes (decoder : Decoder α) (document : Document) (a : α) : Prop where
  exact : document.Throughout Document.IsExact
  decode : ∀ depth, document.nesting < depth → decoder depth document.tree = some a

/-- A decoded document is read from its text. -/
theorem Decodes.read_text {decoder : Decoder α} {document : Document} {a : α}
    (h : Decodes decoder document a) (hnesting : document.nesting ≤ 127) :
    read decoder document.text = some a := by
  rw [read, Document.text, String.toList_ofList, h.exact.read_lenient]
  exact h.decode _ (Nat.lt_succ_of_le hnesting)

theorem Decodes.map {β : Type} {decoder : Decoder α} {document : Document} {a : α}
    (h : Decodes decoder document a) (f : α → β) :
    Decodes (fun depth tree => (decoder depth tree).map f) document (f a) :=
  ⟨h.exact, fun depth hdepth => congrArg (Option.map f) (h.decode depth hdepth)⟩

/-! ## Plain values -/

theorem decodes_text (value : String) : Decodes text (.string value) value :=
  ⟨Document.throughout_isExact_leaf rfl trivial, fun _ _ => rfl⟩

theorem decodes_flag (value : Bool) : Decodes flag (.bool value) value :=
  ⟨Document.throughout_isExact_leaf rfl trivial, fun _ _ => rfl⟩

/-- A whole number within the bounds of a reader that are bounds of documents. -/
theorem decodes_whole {low high n : Int} (hlow : low ≤ n) (hhigh : n ≤ high)
    (hmin : Int64.minValue.toInt ≤ low) (hmax : high ≤ Document.maxInt)
    {f : Int → α} {a : α} (h : f n = a) :
    Decodes (fun depth tree => (whole low high depth tree).map f) (.int n) a := by
  refine ⟨Document.throughout_isExact_leaf rfl ⟨by omega, by omega⟩,
    fun depth _ => ?_⟩
  show (if low ≤ n ∧ n ≤ high then some n else none).map f = some a
  rw [if_pos ⟨hlow, hhigh⟩, Option.map_some, h]

theorem decodes_int64 (n : Int64) : Decodes int64 (.int n.toInt) n := by
  have hlow := n.le_toInt
  have hhigh := n.toInt_lt
  refine decodes_whole ?_ ?_ (by decide) (by decide) (Int64.ofInt_toInt n)
  · show -9223372036854775808 ≤ n.toInt
    omega
  · show n.toInt ≤ 9223372036854775808 - 1
    omega

theorem decodes_uint64 (n : UInt64) : Decodes uint64 (.int n.toNat) n := by
  have hlt := n.toNat_lt
  refine decodes_whole (by omega) ?_ (by decide) (by decide) ?_
  · show (n.toNat : Int) ≤ 18446744073709551616 - 1
    omega
  · rw [Int.toNat_natCast, UInt64.ofNat_toNat]

theorem decodes_uint32 (n : UInt32) : Decodes uint32 (.int n.toNat) n := by
  have hlt := n.toNat_lt
  refine decodes_whole (by omega) ?_ (by decide) (by decide) ?_
  · show (n.toNat : Int) ≤ 4294967296 - 1
    omega
  · rw [Int.toNat_natCast, UInt32.ofNat_toNat]

theorem decodes_uint8 (n : UInt8) : Decodes uint8 (.int n.toNat) n := by
  have hlt := n.toNat_lt
  refine decodes_whole (by omega) (by omega) (by decide) (by decide) ?_
  rw [Int.toNat_natCast, UInt8.ofNat_toNat]

/-- A word that names a choice without content. -/
theorem decodes_word {ofName? : String → Option α} {name : String} {a : α}
    (h : ofName? name = some a) :
    Decodes (fun depth tree => (word depth tree).bind ofName?) (.string name) a :=
  ⟨Document.throughout_isExact_leaf rfl trivial, fun _ _ => h⟩

/-! ## Arrays and options -/

theorem mapM_map_eq_some {β : Type} {f : β → Option α} {g : α → β} {xs : List α}
    (h : ∀ x ∈ xs, f (g x) = some x) : (xs.map g).mapM f = some xs := by
  induction xs with
  | nil => rfl
  | cons x xs ih =>
    obtain ⟨hx, hxs⟩ := List.forall_mem_cons.mp h
    rw [List.map_cons, List.mapM_cons, hx, ih hxs]
    rfl

theorem decodes_list {decoder : Decoder α} {write : α → Document} {xs : List α}
    (h : ∀ x ∈ xs, Decodes decoder (write x) x) :
    Decodes (list decoder) (.array (xs.map write)) xs := by
  refine ⟨Document.throughout_isExact_array.mpr ?_, fun depth hdepth => ?_⟩
  · rw [List.forall_mem_map]
    exact fun x hx => (h x hx).exact
  · obtain ⟨hlevel, hitems⟩ := Document.nesting_array_lt.mp hdepth
    rw [List.forall_mem_map] at hitems
    calc
      list decoder depth (Document.array (xs.map write)).tree =
          (xs.map fun x => (write x).tree).mapM (decoder (depth - 1)) := by
        rw [Document.tree, Document.trees_eq, list,
          if_neg (Nat.not_le.mpr hlevel), List.map_map]
        rfl
      _ = some xs :=
        mapM_map_eq_some fun x hx => (h x hx).decode _ (hitems x hx)

theorem decodes_texts (items : List String) :
    Decodes (list text) (texts items) items :=
  decodes_list fun s _ => decodes_text s

theorem decodes_byteArray (bytes : List UInt8) :
    Decodes (list uint8) (byteArray bytes) bytes :=
  decodes_list fun b _ => decodes_uint8 b

/-- An absent value is null; a present one must not be written so. -/
theorem decodes_optional {decoder : Decoder α} {write : α → Document} {o : Option α}
    (h : ∀ a ∈ o, Decodes decoder (write a) a) (hnull : ∀ a ∈ o, write a ≠ .null) :
    Decodes (optional decoder) (ofOption write o) o := by
  cases o with
  | none => exact ⟨Document.throughout_isExact_leaf rfl trivial, fun _ _ => rfl⟩
  | some a =>
    refine ⟨(h a rfl).exact, fun depth hdepth => ?_⟩
    have htree : (write a).tree ≠ .null := by
      have hwrite := hnull a rfl
      cases hd : write a <;> simp_all [Document.tree]
    have hdecode := (h a rfl).decode depth hdepth
    show optional decoder depth (write a).tree = _
    unfold optional
    split
    · next heq => exact absurd heq htree
    · rw [hdecode]
      rfl

/-! ## Structures -/

/-- The trees of the members of an object. -/
def fieldTrees (members : List (String × Document)) : Fields :=
  members.map fun m => (m.1, m.2.tree)

theorem readableMembers_memberTrees (members : List (String × Document)) :
    readableMembers (Document.memberTrees members) = some (fieldTrees members) := by
  rw [readableMembers, Document.memberTrees_eq, fieldTrees]
  induction members with
  | nil => rfl
  | cons m members ih =>
    rw [List.map_cons, List.map_cons, List.mapM_cons, ih]
    rfl

theorem lookup_fieldTrees {name : String} {d : Document}
    {members : List (String × Document)}
    (h : NameMap.lookup name members = some d) :
    NameMap.lookup name (fieldTrees members) = some d.tree := by
  induction members with
  | nil => cases h
  | cons m members ih =>
    obtain ⟨other, value⟩ := m
    rw [NameMap.lookup] at h
    rw [fieldTrees, List.map_cons, NameMap.lookup]
    split at h
    · next heq => rw [if_pos heq, Option.some.inj h]
    · next hne =>
      rw [if_neg hne]
      exact ih h

/-- An object with the fields of a structure, each once. -/
theorem fields_object {members : List (String × Document)} {names : List String}
    (hnames : members.map Prod.fst = names) (hnodup : names.Nodup)
    (short : Bool) {depth : Nat} (hdepth : 1 < depth) :
    fields names short depth (Document.object members).tree =
      some (fieldTrees members) := by
  have hfst : (fieldTrees members).map Prod.fst = names := by
    rw [fieldTrees, List.map_map, ← hnames]
    rfl
  have hknown :
      (fieldTrees members).filter (fun member => names.contains member.1) =
        fieldTrees members := by
    rw [List.filter_eq_self]
    intro member hmember
    rw [List.contains_iff_mem, ← hfst]
    exact List.mem_map_of_mem hmember
  rw [Document.tree, fields, if_neg (Nat.not_le.mpr hdepth),
    readableMembers_memberTrees]
  simp only [bind, Option.bind, hknown, hfst, if_pos hnodup]

/-- A structure is decoded if its fields are, with a level less. -/
theorem decodes_object {members : List (String × Document)} {decoder : Decoder α}
    {a : α} (names : List String) (hnames : members.map Prod.fst = names)
    (hnodup : names.Nodup) (hexact : ∀ m ∈ members, m.2.Throughout Document.IsExact)
    (hdecode : ∀ depth, (∀ m ∈ members, m.2.nesting < depth - 1) →
      fields names false depth (Document.object members).tree =
        some (fieldTrees members) →
      decoder depth (Document.object members).tree = some a) :
    Decodes decoder (.object members) a := by
  refine ⟨Document.throughout_isExact_object.mpr hexact, fun depth hdepth => ?_⟩
  obtain ⟨hlevel, hmembers⟩ := Document.nesting_object_lt.mp hdepth
  exact hdecode depth hmembers (fields_object hnames hnodup false hlevel)

section Fields

variable {β : Type} {members : List (String × Document)} {depth : Nat}
  {decoder : Decoder α} {d : Document} {b : β}

/-- A field that the object has is decoded as its member is, and what follows
reads on from it. -/
theorem bind_required (name : String)
    (hdepth : ∀ m ∈ members, m.2.nesting < depth) {a : α}
    (h : Decodes decoder d a) (hmember : NameMap.lookup name members = some d)
    {rest : α → Option β} (hrest : rest a = some b) :
    ((fieldTrees members).required name decoder depth >>= rest) = some b := by
  rw [Fields.required, lookup_fieldTrees hmember]
  exact Option.bind_eq_some_iff.mpr
    ⟨a, h.decode _ (hdepth _ (NameMap.mem_of_lookup hmember)), hrest⟩

theorem bind_optional (name : String) (hdepth : ∀ m ∈ members, m.2.nesting < depth)
    {o : Option α} (h : Decodes (optional decoder) d o)
    (hmember : NameMap.lookup name members = some d) {rest : Option α → Option β}
    (hrest : rest o = some b) :
    ((fieldTrees members).optional name decoder depth >>= rest) = some b := by
  rw [Fields.optional, Fields.orElse, lookup_fieldTrees hmember]
  exact Option.bind_eq_some_iff.mpr
    ⟨o, h.decode _ (hdepth _ (NameMap.mem_of_lookup hmember)), hrest⟩

end Fields

/-! ## Choices -/

theorem throughout_isExact_tagged {name : String} {content : Document}
    (h : content.Throughout Document.IsExact) :
    (tagged name content).Throughout Document.IsExact :=
  Document.throughout_isExact_object.mpr (by simpa using h)

/-- A choice with content is an object of one level more. -/
theorem nesting_tagged_lt {name : String} {content : Document} {depth : Nat} :
    (tagged name content).nesting < depth ↔
      1 < depth ∧ content.nesting < depth - 1 := by
  rw [tagged, Document.nesting_object_lt]
  simp

theorem alternative_tagged (name : String) (content : Document) {depth : Nat}
    (h : 1 < depth) :
    alternative depth (tagged name content).tree = some (name, some content.tree) :=
  if_neg (Nat.not_le.mpr h)

end Serial

end EntityMapper
