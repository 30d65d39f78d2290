import EntityMapper.Model.Record
import EntityMapper.Proofs.NameMap

/-!
# What the document of a record conceals

A hidden name of an entity is left out of the documents of its records, wherever
they stand in a tree of loaded relations. There are two sides to it. No object
that is made for a record has a member of a name that the record's entity hides
(`Conceals`). And nothing of what is hidden has an influence: two records that
differ only in what their entities hide (`ShowsSame`) have the same document, or
fail with the same error, even if reading a hidden attribute would fail.

Both are seen from a form of the document that no longer mentions hidden names:
the members are gathered from the shown attributes and the shown relations, each
as a list of outcomes under their names (`document_eq`).
-/

namespace EntityMapper

open Json (Document)

/-- The shape of what a relation gives: whether there is a list, and how many
items there are. -/
def Related.shape {α : Type} : Related α → Related Unit
  | .one item => .one (item.map fun _ => ())
  | .many items => .many (items.map fun _ => ())

/-- A sequence that gives a value has a first part that gives one, and with it a
second. -/
theorem exists_of_bind_eq_ok {ε α β : Type} {x : Except ε α} {f : α → Except ε β}
    {b : β} (h : (x >>= f) = .ok b) : ∃ a, x = .ok a ∧ f a = .ok b := by
  cases x with
  | error e => cases h
  | ok a => exact ⟨a, rfl, h⟩

namespace Record

/-! ## Gathering members -/

/-- Members from outcomes under their names; the first failure counts. -/
def gather : List (String × Except MappingError Document) →
    Except MappingError (List (String × Document))
  | [] => .ok []
  | (name, outcome) :: rest => do
    let part ← outcome
    return (name, part) :: (← gather rest)

/-- The shown attributes of a record, as they are read. -/
def shownAttributes (r : Record) : List (String × Except MappingError Document) :=
  (r.attributes.only fun key => !r.entity.isHidden key).keys.map fun key =>
    (key, (r.get key).map Value.document)

/-- The shown relations of a record, with the documents of their results. -/
def shownRelations (r : Record) : NameMap (Except MappingError Document) :=
  (r.relations.only fun name => !r.entity.isHidden name).map relatedDocument

theorem attributeMembers_eq (r : Record) (entries : List (String × Value)) :
    r.attributeMembers (entries.map Prod.fst) =
      gather (((entries.filter fun entry => !r.entity.isHidden entry.1).map
          Prod.fst).map fun key =>
        (key, (r.get key).map Value.document)) := by
  induction entries with
  | nil => rfl
  | cons entry rest ih =>
    rw [List.map_cons, attributeMembers]
    cases hhidden : r.entity.isHidden entry.1 with
    | true => rw [if_pos rfl, List.filter_cons_of_neg (by simp [hhidden]), ih]
    | false =>
      rw [if_neg (by simp), List.filter_cons_of_pos (by simp [hhidden]),
        List.map_cons, List.map_cons, gather, ih]
      cases r.get entry.1 <;> rfl

theorem relationMembers_eq (entity : EntityType)
    (relations : List (String × Related Record)) :
    relationMembers entity relations = gather
        ((relations.filter fun entry => !entity.isHidden entry.1).map fun entry =>
        (entry.1, relatedDocument entry.2)) := by
  induction relations with
  | nil => rfl
  | cons entry rest ih =>
    obtain ⟨name, related⟩ := entry
    rw [relationMembers]
    cases hhidden : entity.isHidden name with
    | true => rw [if_pos rfl, List.filter_cons_of_neg (by simp [hhidden]), ih]
    | false =>
      rw [if_neg (by simp), List.filter_cons_of_pos (by simp [hhidden]),
        List.map_cons, gather, ih]

/-- The document of a record is made of what it shows. -/
theorem document_eq (r : Record) :
    r.document = (do
      let own ← gather r.shownAttributes
      let related ← gather r.shownRelations.entries
      return .ofMembers (own ++ related)) := by
  obtain ⟨entity, attributes, baseline, dirty, stored, relations⟩ := r
  rw [document, NameMap.keys, attributeMembers_eq, relationMembers_eq]
  rfl

theorem get_congr {a b : Record} (hentity : a.entity = b.entity) {key : String}
    (h : a.raw? key = b.raw? key) : a.get key = b.get key := by
  rw [get, get, h, hentity]

theorem get?_shownRelations (r : Record) (name : String) :
    r.shownRelations.get? name = if r.entity.isHidden name then none
        else (r.relation? name).map relatedDocument := by
  rw [shownRelations, NameMap.get?_map, NameMap.get?_only]
  cases r.entity.isHidden name <;> rfl

/-! ## Ordered records -/

/-- The attributes and the relations of a record are in the order of their
names, each name once, and so it is for every record of its relations. -/
inductive Ordered : Record → Prop
  | intro {r : Record} (attributes : r.attributes.WellFormed)
      (relations : r.relations.WellFormed)
      (records : ∀ name related, r.relation? name = some related →
        ∀ child ∈ related.toList, Ordered child) : Ordered r

theorem Ordered.hydrate (entity : EntityType) {row : Row} (h : row.WellFormed) :
    (Record.hydrate entity row).Ordered :=
  ⟨h, NameMap.wellFormed_empty, fun _ _ hrelated => nomatch hrelated⟩

theorem Ordered.setRelation {r : Record} (h : r.Ordered) (name : String)
    {related : Related Record}
    (hrelated : ∀ child ∈ related.toList, child.Ordered) :
    (r.setRelation name related).Ordered := by
  cases h with
  | intro attributes relations records =>
    refine ⟨attributes, relations.insert name related,
      fun other loaded hloaded => ?_⟩
    rw [relation?, Record.setRelation, NameMap.get?_insert] at hloaded
    split at hloaded
    · obtain rfl := Option.some.inj hloaded
      exact hrelated
    · exact records other loaded hloaded

theorem Ordered.attributes {r : Record} (h : r.Ordered) :
    r.attributes.WellFormed := by
  cases h with
  | intro attributes _ _ => exact attributes

theorem Ordered.child {r : Record} (h : r.Ordered) {name : String}
    {related : Related Record} (hrelated : r.relation? name = some related)
    {child : Record} (hchild : child ∈ related.toList) : child.Ordered := by
  cases h with
  | intro _ _ records => exact records name related hrelated child hchild

theorem Ordered.shownRelations {r : Record} (h : r.Ordered) :
    r.shownRelations.WellFormed := by
  cases h with
  | intro _ relations _ => exact (relations.only _).map _

/-! ## Two records that show the same -/

/-- Two records of one entity show the same: their attributes that are not
hidden are the same, and their relations that are not hidden have results of one
shape, with records that show the same. -/
inductive ShowsSame : Record → Record → Prop
  | intro {a b : Record} (entity : a.entity = b.entity)
      (attributes : ∀ key, a.entity.isHidden key = false → a.raw? key = b.raw? key)
      (shapes : ∀ name, a.entity.isHidden name = false →
        (a.relation? name).map Related.shape = (b.relation? name).map Related.shape)
      (records : ∀ name, a.entity.isHidden name = false → ∀ related other,
          a.relation? name = some related → b.relation? name = some other →
            ∀ pair ∈ related.toList.zip other.toList, ShowsSame pair.1 pair.2) :
      ShowsSame a b

/-- Pairwise the same documents, in lists of one length. -/
theorem documents_congr {records others : List Record}
    (hlength : records.length = others.length)
    (h : ∀ pair ∈ records.zip others, document pair.1 = document pair.2) :
    documents records = documents others := by
  induction records generalizing others with
  | nil =>
    cases others with
    | nil => rfl
    | cons _ _ => cases hlength
  | cons record rest ih =>
    cases others with
    | nil => cases hlength
    | cons other others =>
      obtain ⟨hfirst, hrest⟩ := List.forall_mem_cons.mp h
      rw [documents, documents, hfirst, ih (Nat.succ.inj hlength) hrest]

theorem relatedDocument_congr {related other : Related Record}
    (hshape : related.shape = other.shape)
    (h : ∀ pair ∈ related.toList.zip other.toList, document pair.1 =
      document pair.2) : relatedDocument related = relatedDocument other := by
  cases related with
  | one item =>
    cases other with
    | one otherItem =>
      cases item <;> cases otherItem
      · rfl
      · cases hshape
      · cases hshape
      · exact h _ (List.mem_cons_self ..)
    | many items => cases hshape
  | many items =>
    cases other with
    | one item => cases hshape
    | many otherItems =>
      have hlength : items.length = otherItems.length := by
        simpa using congrArg List.length (Related.many.inj hshape)
      rw [relatedDocument, relatedDocument, documents_congr hlength h]

variable {a b : Record}

/-- The shown attributes are a matter of the attributes that are not hidden. -/
theorem shownAttributes_congr (ha : a.attributes.WellFormed)
    (hb : b.attributes.WellFormed) (hentity : a.entity = b.entity)
    (h : ∀ key, a.entity.isHidden key = false → a.raw? key = b.raw? key) :
    a.shownAttributes = b.shownAttributes := by
  have honly : (a.attributes.only fun key => !a.entity.isHidden key) =
      b.attributes.only fun key => !b.entity.isHidden key := by
    refine (ha.only _).ext (hb.only _) fun key => ?_
    rw [NameMap.get?_only, NameMap.get?_only, ← hentity]
    cases hhidden : a.entity.isHidden key with
    | true => rfl
    | false => exact h key hhidden
  rw [shownAttributes, shownAttributes, ← honly]
  refine List.map_congr_left fun key hkey => ?_
  have hhidden : a.entity.isHidden key = false := by
    simpa using NameMap.keep_of_mem_keys_only hkey
  rw [get_congr hentity (h key hhidden)]

/-- Records that show the same have the same document, or fail alike. -/
theorem ShowsSame.document_eq (h : ShowsSame a b) (ha : a.Ordered)
    (hb : b.Ordered) : a.document = b.document := by
  induction h with
  | @intro a b entity attributes shapes records ih =>
    have hrelations : a.shownRelations = b.shownRelations := by
      refine ha.shownRelations.ext hb.shownRelations fun name => ?_
      rw [get?_shownRelations, get?_shownRelations, ← entity]
      cases hhidden : a.entity.isHidden name with
      | true => rfl
      | false =>
        have hshape := shapes name hhidden
        rw [if_neg (by simp), if_neg (by simp)]
        cases hrelated : a.relation? name <;> cases hother : b.relation? name <;>
          rw [hrelated, hother] at hshape
        case none.some => cases hshape
        case some.none => cases hshape
        case some.some related other =>
          refine congrArg some (relatedDocument_congr (Option.some.inj hshape)
            fun pair hpair => ?_)
          exact ih name hhidden related other hrelated hother pair hpair
            (ha.child hrelated (List.of_mem_zip hpair).1)
            (hb.child hother (List.of_mem_zip hpair).2)
    rw [Record.document_eq, Record.document_eq, hrelations,
      shownAttributes_congr ha.attributes hb.attributes entity attributes]

/-! ## What an object holds -/

/-- The records of a relation with the parts of a document that stand for them,
if the document is one of its shape. -/
def slots : Related Record → Document → Option (List (Record × Document))
  | .one none, .null => some []
  | .one (some record), part => some [(record, part)]
  | .many records, .array parts =>
    if records.length = parts.length then some (records.zip parts) else none
  | _, _ => none

/-- A document stands for a record and conceals what is hidden: it is an object
without a member of a hidden name, and under the name of each relation that is
not hidden there are documents for its records that conceal what the records'
entities hide. -/
inductive Conceals : Record → Document → Prop
  | intro {r : Record} {members : List (String × Document)}
      (names : ∀ member ∈ members, r.entity.isHidden member.1 = false)
      (places : ∀ name related,
        r.entity.isHidden name = false → r.relation? name = some related →
          ((NameMap.lookup name members).bind (slots related)).isSome)
      (records : ∀ name related, r.entity.isHidden name = false →
        r.relation? name = some related →
        ∀ part pairs, NameMap.lookup name members = some part →
          slots related part = some pairs →
          ∀ pair ∈ pairs, Conceals pair.1 pair.2) : Conceals r (.object members)

theorem gather_eq_ok {outcomes : List (String × Except MappingError Document)}
    {members : List (String × Document)} (h : gather outcomes = .ok members) :
    List.Forall₂ (fun outcome member => outcome.1 = member.1 ∧
        outcome.2 = .ok member.2) outcomes members := by
  induction outcomes generalizing members with
  | nil =>
    obtain rfl := Except.ok.inj h
    exact .nil
  | cons outcome rest ih =>
    obtain ⟨part, hpart, h⟩ := exists_of_bind_eq_ok h
    obtain ⟨others, hrest, h⟩ := exists_of_bind_eq_ok h
    obtain rfl := Except.ok.inj h
    exact .cons ⟨rfl, hpart⟩ (ih hrest)

theorem documents_eq_ok {records : List Record} {parts : List Document}
    (h : documents records = .ok parts) :
    List.Forall₂ (fun record part => document record = .ok part) records parts := by
  induction records generalizing parts with
  | nil =>
    obtain rfl := Except.ok.inj h
    exact .nil
  | cons record rest ih =>
    rw [documents] at h
    obtain ⟨part, hfirst, h⟩ := exists_of_bind_eq_ok h
    obtain ⟨others, hrest, h⟩ := exists_of_bind_eq_ok h
    obtain rfl := Except.ok.inj h
    exact .cons hfirst (ih hrest)

/-- The document of what a relation gives has its shape, with the documents of
the records. -/
theorem slots_of_relatedDocument {related : Related Record} {part : Document}
    (h : relatedDocument related = .ok part) :
    ∃ pairs, slots related part = some pairs ∧
      ∀ pair ∈ pairs, pair.1 ∈ related.toList ∧ document pair.1 = .ok pair.2 := by
  cases related with
  | one item =>
    cases item with
    | none =>
      obtain rfl := Except.ok.inj h
      exact ⟨[], rfl, fun _ hpair => nomatch hpair⟩
    | some record =>
      refine ⟨[(record, part)], rfl, fun pair hpair => ?_⟩
      obtain rfl := List.mem_singleton.mp hpair
      exact ⟨List.mem_cons_self .., h⟩
  | many records =>
    rw [relatedDocument] at h
    obtain ⟨parts, hdocuments, h⟩ := exists_of_bind_eq_ok h
    obtain rfl := Except.ok.inj h
    have hpairs := documents_eq_ok hdocuments
    refine ⟨records.zip parts, if_pos hpairs.length_eq, fun pair hpair => ?_⟩
    exact ⟨(List.of_mem_zip hpair).1, List.forall₂_zip hpairs hpair⟩

/-- A name of the members is one of the outcomes that they are gathered from. -/
theorem names_of_gather {outcomes : List (String × Except MappingError Document)}
    {members : List (String × Document)} (h : gather outcomes = .ok members) :
    members.map Prod.fst = outcomes.map Prod.fst := by
  have hnames := List.forall₂_map_left_iff.mpr (List.forall₂_map_right_iff.mpr
    ((gather_eq_ok h).imp fun _ _ hmember => hmember.1))
  exact (List.forall₂_eq_eq_eq ▸ hnames).symm

theorem lookup_of_gather {outcomes : List (String × Except MappingError Document)}
    {members : List (String × Document)} (h : gather outcomes = .ok members)
    {name : String} {outcome : Except MappingError Document}
    (hname : NameMap.lookup name outcomes = some outcome) :
    ∃ part, outcome = .ok part ∧ NameMap.lookup name members = some part := by
  have hall := gather_eq_ok h
  clear h
  induction hall with
  | nil => cases hname
  | @cons first member rest others hfirst _ ih =>
    rw [NameMap.lookup] at hname ⊢
    rw [← hfirst.1]
    split at hname
    · next hkey =>
      obtain rfl := Option.some.inj hname
      exact ⟨member.2, hfirst.2, if_pos hkey⟩
    · next hkey =>
      rw [if_neg hkey]
      exact ih hname

/-- The members of a document: of its shown attributes, and over them those of
its shown relations. -/
theorem document_eq_ok {r : Record} {d : Document} (h : r.document = .ok d) :
    ∃ own related, gather r.shownAttributes = .ok own ∧
      gather r.shownRelations.entries = .ok related ∧
      d = .ofMembers (own ++ related) := by
  rw [document_eq] at h
  obtain ⟨own, hown, h⟩ := exists_of_bind_eq_ok h
  obtain ⟨related, hrelated, h⟩ := exists_of_bind_eq_ok h
  exact ⟨own, related, hown, hrelated, (Except.ok.inj h).symm⟩

/-- What is shown is not hidden. -/
theorem isHidden_of_mem_shown {r : Record} {name : String}
    (h : name ∈ r.shownAttributes.map Prod.fst ∨ name ∈ r.shownRelations.keys) :
    r.entity.isHidden name = false := by
  rcases h with h | h
  · rw [shownAttributes, List.map_map] at h
    obtain ⟨key, hkey, rfl⟩ := List.mem_map.mp h
    simpa using NameMap.keep_of_mem_keys_only hkey
  · rw [← NameMap.contains_iff, NameMap.contains, get?_shownRelations] at h
    cases hhidden : r.entity.isHidden name with
    | true => simp [hhidden] at h
    | false => rfl

/-- The document of a relation that is not hidden stands under its name,
whatever attributes there are. -/
theorem place_of_gather {r : Record} {related : List (String × Document)}
    (hordered : r.shownRelations.WellFormed)
    (hrelated : gather r.shownRelations.entries = .ok related) {name : String}
    {loaded : Related Record} (hhidden : r.entity.isHidden name = false)
    (hloaded : r.relation? name = some loaded) (own : List (String × Document)) :
    ∃ part, relatedDocument loaded = .ok part ∧
      NameMap.lookup name (NameMap.ofList (own ++ related)).entries =
        some part := by
  have hshown : NameMap.lookup name r.shownRelations.entries =
      some (relatedDocument loaded) :=
    (get?_shownRelations r name).trans (by rw [hhidden, hloaded]; rfl)
  obtain ⟨part, hpart, hlookup⟩ := lookup_of_gather hrelated hshown
  have hrest : NameMap.WellFormed (⟨related⟩ : NameMap Document) := by
    refine List.pairwise_map.mp ?_
    rw [names_of_gather hrelated]
    exact List.pairwise_map.mpr hordered
  have hextend := NameMap.get?_extend (NameMap.ofList own) hrest name
  refine ⟨part, hpart, ?_⟩
  rw [NameMap.ofList, List.foldl_append]
  exact hextend.trans (by rw [NameMap.get?, hlookup]; rfl)

/-- The document of a record conceals what is hidden in it. -/
theorem Ordered.conceals {r : Record} (hr : r.Ordered) {d : Document}
    (h : r.document = .ok d) : Conceals r d := by
  induction hr generalizing d with
  | @intro r attributes relations records ih =>
    obtain ⟨own, related, hown, hrelated, rfl⟩ := document_eq_ok h
    have hordered : r.shownRelations.WellFormed := (relations.only _).map _
    refine .intro (fun member hmember => ?_) (fun name loaded hhidden hloaded => ?_)
      fun name loaded hhidden hloaded part pairs hpart hpairs pair hpair => ?_
    · have hname :=
        List.mem_map_of_mem (f := Prod.fst) (NameMap.mem_of_mem_ofList hmember)
      rw [List.map_append, names_of_gather hown, names_of_gather hrelated] at hname
      exact isHidden_of_mem_shown (List.mem_append.mp hname)
    · obtain ⟨part, hpart, hlookup⟩ :=
        place_of_gather hordered hrelated hhidden hloaded own
      obtain ⟨pairs, hpairs, -⟩ := slots_of_relatedDocument hpart
      rw [hlookup, Option.bind_some, hpairs]
      rfl
    · obtain ⟨part', hpart', hlookup⟩ :=
        place_of_gather hordered hrelated hhidden hloaded own
      obtain rfl := Option.some.inj (hpart.symm.trans hlookup)
      obtain ⟨pairs', hpairs', hdocuments⟩ := slots_of_relatedDocument hpart'
      obtain rfl := Option.some.inj (hpairs.symm.trans hpairs')
      obtain ⟨hchild, hdocument⟩ := hdocuments pair hpair
      exact ih name loaded hloaded pair.1 hchild hdocument

/-- **Documents conceal what is hidden.** Records that show the same have the
same document or fail with the same error, and no object that is made for a
record has a member of a hidden name. -/
theorem document_conceals : (∀ a b : Record,
      a.Ordered → b.Ordered → ShowsSame a b → a.document = b.document) ∧
    ∀ (r : Record) (d : Document), r.Ordered → r.document = .ok d → Conceals r d :=
  ⟨fun _ _ ha hb h => h.document_eq ha hb, fun _ _ hr h => hr.conceals h⟩

/-! ## An account with and without its secrets -/

/-- Posts hide their notes. -/
def notedPost : EntityType :=
  { name := "Post", table := "posts", hidden := ["note"] }

/-- Accounts hide a number, and their devices. -/
def sealedAccount : EntityType :=
  { name := "Account", table := "accounts", hidden := ["pin", "devices"],
    casts := .ofList [("pin", .int)] }

/-- An account whose hidden number cannot be read, with devices, and a post with
a note. -/
def accountWithSecrets : Record :=
  ((Record.hydrate sealedAccount
      (.ofList [("id", .int 1), ("pin", .text "none")])).setRelation
    "devices" (.one none)).setRelation "posts"
    (.many [.hydrate notedPost (.ofList [("id", .int 9), ("note", .text "draft")])])

/-- The account without all that is hidden. -/
def accountWithoutSecrets : Record :=
  (Record.hydrate sealedAccount (.ofList [("id", .int 1)])).setRelation
    "posts" (.many [.hydrate notedPost (.ofList [("id", .int 9)])])

theorem ordered_accountWithSecrets : accountWithSecrets.Ordered := by
  refine ((Ordered.hydrate _ (NameMap.wellFormed_ofList _)).setRelation _
      ?_).setRelation _ ?_
  · exact fun _ hchild => nomatch hchild
  · intro child hchild
    obtain rfl := List.mem_singleton.mp hchild
    exact .hydrate _ (NameMap.wellFormed_ofList _)

theorem ordered_accountWithoutSecrets : accountWithoutSecrets.Ordered := by
  refine (Ordered.hydrate _ (NameMap.wellFormed_ofList _)).setRelation _
    fun child hchild => ?_
  obtain rfl := List.mem_singleton.mp hchild
  exact .hydrate _ (NameMap.wellFormed_ofList _)

theorem showsSame_posts : ShowsSame
    (.hydrate notedPost (.ofList [("id", .int 9), ("note", .text "draft")]))
    (.hydrate notedPost (.ofList [("id", .int 9)])) := by
  refine .intro rfl (fun key hkey => ?_) (fun _ _ => rfl)
    fun _ _ _ _ hrelated => nomatch hrelated
  have hnote : "note" ≠ key := by
    rintro rfl
    cases hkey
  change NameMap.lookup key [("id", _), ("note", _)] =
    NameMap.lookup key [("id", _)]
  simp [NameMap.lookup, hnote]

theorem showsSame_accounts :
    ShowsSame accountWithSecrets accountWithoutSecrets := by
  have hdevices {name : String} (hname : sealedAccount.isHidden name = false) :
      "devices" ≠ name := by
    rintro rfl
    cases hname
  refine .intro rfl (fun key hkey => ?_) (fun name hname => ?_)
    fun name hname related other hrelated hother pair hpair => ?_
  · have hpin : "pin" ≠ key := by
      rintro rfl
      cases hkey
    change NameMap.lookup key [("id", _), ("pin", _)] =
      NameMap.lookup key [("id", _)]
    simp [NameMap.lookup, hpin]
  · change (NameMap.lookup name [("devices", _), ("posts", _)]).map Related.shape =
      (NameMap.lookup name [("posts", _)]).map Related.shape
    by_cases hposts : "posts" = name <;>
      simp [NameMap.lookup, hdevices hname, hposts, Related.shape]
  · change NameMap.lookup name [("devices", _), ("posts", _)] =
      some related at hrelated
    change NameMap.lookup name [("posts", _)] = some other at hother
    rw [NameMap.lookup, if_neg (hdevices hname)] at hrelated
    rw [NameMap.lookup] at hrelated hother
    split at hother
    · next hposts =>
      rw [if_pos hposts] at hrelated
      obtain rfl := Option.some.inj hrelated
      obtain rfl := Option.some.inj hother
      obtain rfl := List.mem_singleton.mp hpair
      exact showsSame_posts
    · cases hother

theorem document_conceals_account :
    accountWithSecrets.Ordered ∧ accountWithoutSecrets.Ordered ∧
      ShowsSame accountWithSecrets accountWithoutSecrets ∧
      (accountWithSecrets.get "pin").toOption = none ∧
      ∃ d, accountWithSecrets.document = .ok d ∧
        accountWithoutSecrets.document = .ok d ∧ Conceals accountWithSecrets d := by
  have hsame := document_conceals.1 _ _ ordered_accountWithSecrets
    ordered_accountWithoutSecrets showsSame_accounts
  have hdocument : accountWithSecrets.document = .ok (.object [("id", .int 1),
      ("posts", .array [.object [("id", .int 9)]])]) := rfl
  exact ⟨ordered_accountWithSecrets, ordered_accountWithoutSecrets,
    showsSame_accounts, rfl, _, hdocument, hsame.symm.trans hdocument,
    document_conceals.2 _ _ ordered_accountWithSecrets hdocument⟩

end Record

end EntityMapper
