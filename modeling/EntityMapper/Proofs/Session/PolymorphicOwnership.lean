import EntityMapper.Proofs.Session.Ownership
import EntityMapper.Proofs.Session.TypeTags

/-!
# Polymorphic owners and the rows that they own

A polymorphic owner's list asks for rows with its key and with the tag that is
written for its type. The owner of such a row is found the other way round: the
tag in the row names the type, and the key in the row a row of its table.
`polymorphic_owned_iff_owner` says when the two agree. If tags are written in
small letters, a tag in a row may name a type in other letters than the ones
that are written for it. Then the row has an owner, and is not in its list.
-/

namespace EntityMapper

namespace Session

open Effect Store

variable {s : Session LocalStore} {store : LocalStore} {morph : MorphTo}
  {owner child related : EntityType} {owning inverse name stored type : String}
  {owners children : Table} {c p : Row}

/-! ## Entities of records that are read -/

section Entity

variable {σ : Type} {s : Session σ} {state next : σ} {q : Intent}

theorem entity_of_selectRecords {records : List Record}
    (h : s.selectRecords related q state = (.ok records, next)) :
    ∀ record ∈ records, record.entity = related := by
  obtain ⟨rows, mid, -, hpure⟩ := bind_eq_ok.mp h
  obtain ⟨rfl, -⟩ := pure_eq_ok.mp hpure
  intro record hrecord
  obtain ⟨row, -, rfl⟩ := List.mem_map.mp hrecord
  rfl

theorem entity_of_fetch {many : Bool} {result : Related Record}
    (h : s.fetch related q many state = (.ok result, next)) :
    ∀ record ∈ result.toList, record.entity = related := by
  unfold fetch at h
  cases many with
  | true =>
    obtain ⟨records, mid, hselect, hpure⟩ := bind_eq_ok.mp h
    obtain ⟨rfl, -⟩ := pure_eq_ok.mp hpure
    exact entity_of_selectRecords hselect
  | false =>
    obtain ⟨records, mid, hselect, hpure⟩ := bind_eq_ok.mp h
    obtain ⟨rfl, -⟩ := pure_eq_ok.mp hpure
    exact fun record hrecord => entity_of_selectRecords hselect record
      (List.mem_of_head? (Option.mem_toList.mp hrecord))

/-- What is read for an entity are records of it. -/
theorem entity_of_resolveDirect {parent : Record} {name target : String}
    {relation : Relation} {result : Related Record}
    (hentity : s.entity target = .ok related)
    (h : (s.resolveDirect parent name target relation state).1 = .ok result) :
    ∀ record ∈ result.toList, record.entity = related := by
  unfold resolveDirect at h
  rw [hentity, bind_ok (orThrow_apply _ _)] at h
  cases hconstrain : s.constrain parent name relation (.new related.table) with
  | none =>
    rw [hconstrain] at h
    obtain rfl := Except.ok.inj h
    cases relation.isMany <;> exact List.forall_mem_nil _
  | some q =>
    rw [hconstrain] at h
    exact entity_of_fetch (Prod.ext h rfl)

end Entity

/-! ## Names of types in rows -/

/-- A tag of ASCII letters names its type in a row in the letters that are
written for the type, and if tags are written in small letters, in others. -/
theorem eq_morphTag_iff (s : Session LocalStore) {entity : EntityType}
    (hascii : Text.IsAscii entity.morphTag) :
    stored = s.morphTag entity ↔ s.ReadsAs stored entity.morphTag ∧
      (s.config.lowercaseMorphTags = true → Text.toAsciiLower stored = stored) := by
  unfold ReadsAs morphTag
  cases s.config.lowercaseMorphTags with
  | false => simp
  | true =>
    rw [if_pos rfl, hascii.toLower_eq]
    constructor
    · rintro rfl
      have hsame : Text.toAsciiLower (Text.toAsciiLower entity.morphTag) =
          Text.toAsciiLower entity.morphTag := by
        rw [← hascii.toLower_eq, Text.toAsciiLower_toLower]
      exact ⟨.inr ⟨rfl, hsame⟩, fun _ => hsame⟩
    · rintro ⟨hreads, hsmall⟩
      rw [← hsmall rfl]
      rcases hreads with rfl | ⟨-, heq⟩
      · rfl
      · exact heq

/-! ## The two relations -/

/-- A session on a local store, in which records of one entity type point at
owners of the types under the tags of a registry. The tags differ in more than
case and consist of ASCII characters, and each type is registered under its own
tag. -/
structure Points (s : Session LocalStore) (morph : MorphTo) (child : EntityType)
    (inverse : String) : Prop where
  backend : s.backend = LocalStore.backend
  inverse : child.relations.get? inverse = some (.morphTo morph)
  tags : morph.CaselessTags
  own : ∀ entry ∈ morph.types.entries, ∀ owner, s.entity entry.2 = .ok owner →
    owner.morphTag = entry.1
  ascii : ∀ tag ∈ morph.types.keys, Text.IsAscii tag
  childTable : s.grammar.ReadsBackTable child.table
  morphType : s.grammar.NamesColumn morph.morphType
  morphId : s.grammar.NamesColumn morph.morphId
  ownerKey : s.grammar.NamesColumn morph.ownerKey

/-- A registered type that owns the records that point at it. -/
structure OwnsPointing (s : Session LocalStore) (morph : MorphTo)
    (child owner : EntityType) (owning : String) : Prop where
  registered : ∃ target, (owner.morphTag, target) ∈ morph.types.entries ∧
    s.entity target = .ok owner
  owning : ∃ target, owner.relations.get? owning =
      some (.morphMany ⟨target, morph.morphType, morph.morphId, morph.ownerKey⟩) ∧
    s.entity target = .ok child
  table : s.grammar.ReadsBackTable owner.table

/-- Whether a row holds the key of an owner and the tag that is written for its
type. -/
def pointsAt (s : Session LocalStore) (morph : MorphTo) (owner : EntityType)
    (p c : Row) : Bool :=
  valuesEqual (cell c morph.morphId) (cell p morph.ownerKey) &&
    valuesEqual (cell c morph.morphType) (.text (s.morphTag owner))

theorem pointsAt_iff (htag : cell c morph.morphType = .text stored) :
    s.pointsAt morph owner p c = true ↔
      valuesEqual (cell p morph.ownerKey) (cell c morph.morphId) = true ∧
        stored = s.morphTag owner := by
  calc
    s.pointsAt morph owner p c = true ↔
        valuesEqual (cell c morph.morphId) (cell p morph.ownerKey) = true ∧
          valuesEqual (.text stored) (.text (s.morphTag owner)) = true := by
      rw [pointsAt, Bool.and_eq_true, htag]
    _ ↔ valuesEqual (cell p morph.ownerKey) (cell c morph.morphId) = true ∧
        stored = s.morphTag owner := by
      rw [valuesEqual_comm (cell c morph.morphId), valuesEqual_text]

theorem not_pointsAt (hnull : (cell c morph.morphType).isNull = true ∨
    (cell c morph.morphId).isNull = true) :
    ¬ s.pointsAt morph owner p c = true := by
  rw [pointsAt, Bool.and_eq_true]
  rintro ⟨hid, htype⟩
  rcases hnull with hnull | hnull
  · rw [isNull_of_valuesEqual htype] at hnull
    cases hnull
  · rw [isNull_of_valuesEqual hid] at hnull
    cases hnull

/-- An owner's list has the rows with its key and tag, in the order of the table. -/
theorem Points.resolve_owning (h : s.Points morph child inverse)
    (howner : s.OwnsPointing morph child owner owning)
    (hchildren : store.database.tables.get? (columnOf child.table) = some children)
    (p : Row) :
    (s.resolve (.hydrate owner p) owning store).1 =
      .ok (.many ((children.rows.filter (s.pointsAt morph owner p)).map
        (Record.hydrate child))) := by
  obtain ⟨target, hrelation, hentity⟩ := howner.owning
  unfold resolve
  rw [resolve_of_declared hrelation, bind_ok (orThrow_apply _ _)]
  calc
    (s.resolveDirect (.hydrate owner p) owning target _ store).1 =
        .ok (found child true (fun other =>
          valuesEqual (cell other morph.morphId) (cell p morph.ownerKey) &&
            meets [(morph.morphType, .text (s.morphTag owner))] other)
          children.rows) :=
      resolveDirect_ok h.backend hentity h.childTable morph.ownerKey morph.morphId
        [(morph.morphType, .text (s.morphTag owner))] (fun _ => rfl) h.morphId
        (List.forall_mem_singleton.mpr h.morphType) hchildren
    _ = .ok (.many ((children.rows.filter (s.pointsAt morph owner p)).map
          (Record.hydrate child))) := by
      simp only [meets, List.all_cons, List.all_nil, Bool.and_true]
      rfl

/-- The owner of a row is sought among the rows of the type that its tag names. -/
theorem Points.resolve_inverse (h : s.Points morph child inverse)
    (htag : cell c morph.morphType = .text stored)
    (hid : (cell c morph.morphId).isNull = false) :
    s.resolve (.hydrate child c) inverse store =
      (orThrow (s.morphEntity inverse morph stored) >>= fun target =>
        s.resolveDirect (.hydrate child c) inverse target (.morphTo morph))
          store := by
  have howner : ownerTag? (Record.hydrate child c) morph = some stored := by
    rw [ownerTag?, Record.bound?_hydrate, htag]
    rfl
  have hbound : ((Record.hydrate child c).bound? morph.morphId).isNone = false := by
    rw [Record.bound?_hydrate, hid]
    rfl
  unfold resolve
  rw [resolve_of_declared h.inverse, bind_ok (orThrow_apply _ _)]
  dsimp only
  unfold resolveMorphTo
  rw [howner]
  dsimp only
  rw [hbound]
  rfl

/-- A row without a tag or without a key points at no owner. -/
theorem Points.resolve_pointless (h : s.Points morph child inverse)
    (hnull : (cell c morph.morphType).isNull = true ∨
      (cell c morph.morphId).isNull = true) :
    (s.resolve (.hydrate child c) inverse store).1 = .ok (.one none) := by
  unfold resolve
  rw [resolve_of_declared h.inverse, bind_ok (orThrow_apply _ _)]
  dsimp only
  unfold resolveMorphTo
  cases htag : ownerTag? (Record.hydrate child c) morph with
  | none => rfl
  | some tag =>
    have hid : (cell c morph.morphId).isNull = true := by
      refine hnull.resolve_left fun htype => ?_
      rw [ownerTag?, Record.bound?_hydrate, htype] at htag
      cases htag
    dsimp only
    rw [Record.bound?_hydrate, hid]
    rfl

/-! ## Both ends of the link -/

/-- The type that a tag in a row names is the only one whose records are found. -/
theorem Points.resolveDirect_of_resolve (h : s.Points morph child inverse)
    (htag : cell c morph.morphType = .text stored)
    (hid : (cell c morph.morphId).isNull = false)
    (hresolve : (s.resolve (.hydrate child c) inverse store).1 =
      .ok (.one (some (.hydrate owner p)))) :
    ∃ target, s.ReadsAs stored owner.morphTag ∧ s.entity target = .ok owner ∧
      (s.resolveDirect (.hydrate child c) inverse target (.morphTo morph) store).1 =
        .ok (.one (some (.hydrate owner p))) := by
  rw [h.resolve_inverse htag hid] at hresolve
  cases htarget : s.morphEntity inverse morph stored with
  | error e =>
    rw [htarget] at hresolve
    cases hresolve
  | ok target =>
    rw [htarget, bind_ok (orThrow_apply _ _)] at hresolve
    obtain ⟨tag, hmem, hreads⟩ := (morphEntity_eq_ok_iff h.tags).mp htarget
    cases hentity : s.entity target with
    | error e =>
      unfold resolveDirect at hresolve
      rw [hentity] at hresolve
      cases hresolve
    | ok found =>
      obtain rfl : owner = found :=
        entity_of_resolveDirect hentity hresolve _ (List.mem_singleton_self _)
      obtain rfl : owner.morphTag = tag := h.own _ hmem owner hentity
      exact ⟨target, hreads, hentity, hresolve⟩

/-- The records of a type are sought by the key that a row holds. -/
theorem Points.resolveDirect_owner (h : s.Points morph child inverse)
    (howner : s.OwnsPointing morph child owner owning)
    (howners : store.database.tables.get? (columnOf owner.table) = some owners)
    {target : String} (hentity : s.entity target = .ok owner) (c : Row) :
    (s.resolveDirect (.hydrate child c) inverse target (.morphTo morph) store).1 =
      .ok (.one ((owners.rows.find? fun p =>
        valuesEqual (cell p morph.ownerKey) (cell c morph.morphId)).map
          (Record.hydrate owner))) := by
  calc
    (s.resolveDirect (.hydrate child c) inverse target (.morphTo morph) store).1 =
        .ok (found owner false (fun other =>
          valuesEqual (cell other morph.ownerKey) (cell c morph.morphId) &&
            meets [] other) owners.rows) :=
      resolveDirect_ok h.backend hentity howner.table morph.morphId
        morph.ownerKey [] (fun _ => rfl) h.ownerKey (List.forall_mem_nil _) howners
    _ = .ok (.one ((owners.rows.find? fun p =>
          valuesEqual (cell p morph.ownerKey) (cell c morph.morphId)).map
            (Record.hydrate owner))) := by
      simp only [meets, List.all_nil, Bool.and_true]
      rfl

/-- A row finds an owner iff its tag names the owner's type and its key is the
owner's. -/
theorem Points.resolve_inverse_iff (h : s.Points morph child inverse)
    (howner : s.OwnsPointing morph child owner owning)
    (howners : store.database.tables.get? (columnOf owner.table) = some owners)
    (htag : cell c morph.morphType = .text stored)
    (hid : (cell c morph.morphId).isNull = false)
    (hunique : owners.rows.Pairwise fun p q =>
      valuesEqual (cell p morph.ownerKey) (cell c morph.morphId) = true →
        valuesEqual (cell q morph.ownerKey) (cell c morph.morphId) = false)
    (hp : p ∈ owners.rows) :
    (s.resolve (.hydrate child c) inverse store).1 =
          .ok (.one (some (.hydrate owner p))) ↔
        valuesEqual (cell p morph.ownerKey) (cell c morph.morphId) = true ∧
          s.ReadsAs stored owner.morphTag := by
  constructor
  · intro hresolve
    obtain ⟨target, hreads, hentity, hdirect⟩ :=
      h.resolveDirect_of_resolve htag hid hresolve
    rw [h.resolveDirect_owner howner howners hentity, Except.ok.injEq,
      Related.one.injEq, Record.map_find?_hydrate_iff hunique hp] at hdirect
    exact ⟨hdirect, hreads⟩
  · rintro ⟨hfound, hreads⟩
    obtain ⟨target, hmem, hentity⟩ := howner.registered
    have htarget : s.morphEntity inverse morph stored = .ok target :=
      (morphEntity_eq_ok_iff h.tags).mpr ⟨_, hmem, hreads⟩
    rw [h.resolve_inverse htag hid, htarget, bind_ok (orThrow_apply _ _)]
    calc
      (s.resolveDirect (.hydrate child c) inverse target (.morphTo morph)
          store).1 =
          .ok (.one ((owners.rows.find? fun p =>
            valuesEqual (cell p morph.ownerKey) (cell c morph.morphId)).map
              (Record.hydrate owner))) :=
        h.resolveDirect_owner howner howners hentity c
      _ = .ok (.one (some (.hydrate owner p))) := by
        rw [(Record.map_find?_hydrate_iff hunique hp).mpr hfound]

/-- A row with a tag of text is in the list of a polymorphic owner iff its owner
is that one, and its tag is in small letters if tags are written so. This holds
of owners with keys of one type, and of every key in the row, but for a floating
point number that more than one integer key equals. The list is the table of the
rows without those that are left out, so it is in table order and has no row
twice. -/
theorem polymorphic_owned_iff_owner (h : s.Points morph child inverse)
    (howner : s.OwnsPointing morph child owner owning)
    (howners : store.database.tables.get? (columnOf owner.table) = some owners)
    (hchildren : store.database.tables.get? (columnOf child.table) = some children)
    (hkeys : ∀ p ∈ owners.rows, OfType type (cell p morph.ownerKey))
    (hdistinct : owners.rows.Pairwise fun p q =>
      (cell p morph.ownerKey == cell q morph.ownerKey) = false) :
    ∀ p ∈ owners.rows, ∃ owned : Row → Bool,
      (s.resolve (.hydrate owner p) owning store).1 =
        .ok (.many ((children.rows.filter owned).map (Record.hydrate child))) ∧
      ∀ c ∈ children.rows, OfType "text" (cell c morph.morphType) →
        (type = "int" → (cell c morph.morphId).typeName = "float" →
          owners.rows.Pairwise fun p q =>
            valuesEqual (cell p morph.ownerKey) (cell c morph.morphId) = true →
              valuesEqual (cell q morph.ownerKey) (cell c morph.morphId) = false) →
        (owned c = true ↔ (s.resolve (.hydrate child c) inverse store).1 =
              .ok (.one (some (.hydrate owner p))) ∧
              (s.config.lowercaseMorphTags = true →
                ∀ stored, cell c morph.morphType = .text stored →
                  Text.toAsciiLower stored = stored)) := by
  refine fun p hp =>
    ⟨_, h.resolve_owning howner hchildren p, fun c hc htext hround => ?_⟩
  by_cases hnull : (cell c morph.morphType).isNull = true ∨
    (cell c morph.morphId).isNull = true
  · refine iff_of_false (not_pointsAt hnull) fun hresolve => ?_
    rw [h.resolve_pointless hnull] at hresolve
    cases hresolve.1
  · obtain ⟨htype, hid⟩ := not_or.mp hnull
    rw [Bool.not_eq_true] at hid
    obtain ⟨stored, htag⟩ := Value.eq_text_of_typeName (htext.resolve_left htype)
    have hsmall : (∀ other, cell c morph.morphType = .text other →
        Text.toAsciiLower other = other) ↔ Text.toAsciiLower stored = stored := by
      rw [htag]
      simp
    have hascii : Text.IsAscii owner.morphTag := by
      obtain ⟨target, hmem, -⟩ := howner.registered
      exact h.ascii _ (List.mem_map_of_mem hmem)
    have hunique : owners.rows.Pairwise fun p q =>
        valuesEqual (cell p morph.ownerKey) (cell c morph.morphId) = true →
          valuesEqual (cell q morph.ownerKey) (cell c morph.morphId) = false := by
      by_cases hfloat : type = "int" ∧ (cell c morph.morphId).typeName = "float"
      · exact hround hfloat.1 hfloat.2
      · exact pairwise_finds hkeys hdistinct (not_and.mp hfloat)
    rw [hsmall]
    calc
      s.pointsAt morph owner p c = true ↔
          valuesEqual (cell p morph.ownerKey) (cell c morph.morphId) = true ∧
            stored = s.morphTag owner := pointsAt_iff htag
      _ ↔ (valuesEqual (cell p morph.ownerKey) (cell c morph.morphId) = true ∧
            s.ReadsAs stored owner.morphTag) ∧
          (s.config.lowercaseMorphTags = true →
            Text.toAsciiLower stored = stored) := by
        rw [s.eq_morphTag_iff hascii, and_assoc]
      _ ↔ (s.resolve (.hydrate child c) inverse store).1 =
              .ok (.one (some (.hydrate owner p))) ∧
          (s.config.lowercaseMorphTags = true →
            Text.toAsciiLower stored = stored) := by
        rw [h.resolve_inverse_iff howner howners htag hid hunique hp]

/-! ### Albums and their images -/

def albumType : EntityType where
  name := "Album"
  table := "albums"
  relations := .ofList
    [("images", .morphMany ⟨"Image", "imageable_type", "imageable_id", "id"⟩)]

/-- A relation to albums. -/
def imageMorph : MorphTo where
  morphType := "imageable_type"
  morphId := "imageable_id"
  types := .ofList [("Album", "Album")]

def imageType : EntityType where
  name := "Image"
  table := "images"
  relations := .ofList [("imageable", .morphTo imageMorph)]

def imageSession : Session LocalStore :=
  ((Session.new {} LocalStore.backend).register albumType).register imageType

/-- Two to the power of 53, above which not every integer is a floating point
number. -/
def firstAlbum : Row := .ofList [("id", .int 9007199254740992)]

def nextAlbum : Row := .ofList [("id", .int 9007199254740993)]

def imageOf (key : Value) (tag : String) : Row :=
  .ofList [("imageable_id", key), ("imageable_type", .text tag)]

def plainImage : Row := imageOf (.int 9007199254740992) "album"

def capitalImage : Row := imageOf (.int 9007199254740992) "Album"

def roundImage : Row := imageOf (.float (.ofInt 9007199254740992)) "album"

def imageStore : LocalStore where
  database := { tables := .ofList [("albums", ⟨["id"], [firstAlbum, nextAlbum]⟩),
    ("images", ⟨[], [plainImage, capitalImage, roundImage]⟩)] }

theorem points_images : imageSession.Points imageMorph imageType "imageable" where
  backend := rfl
  inverse := rfl
  tags := List.nodup_singleton _
  own :=
    List.forall_mem_singleton.mpr fun owner howner => Except.ok.inj howner ▸ rfl
  ascii := List.forall_mem_singleton.mpr (by decide)
  childTable := Grammar.ReadableTable.readsBack (by decide)
  morphType := ⟨Grammar.ReadablePath.readsBack (by decide), by decide⟩
  morphId := ⟨Grammar.ReadablePath.readsBack (by decide), by decide⟩
  ownerKey := ⟨Grammar.ReadablePath.readsBack (by decide), by decide⟩

theorem ownsPointing_albums :
    imageSession.OwnsPointing imageMorph imageType albumType "images" where
  registered := ⟨"Album", List.mem_singleton_self _, rfl⟩
  owning := ⟨"Image", rfl, rfl⟩
  table := Grammar.ReadableTable.readsBack (by decide)

theorem albums_imageStore :
    imageStore.database.tables.get? (columnOf albumType.table) =
      some ⟨["id"], [firstAlbum, nextAlbum]⟩ := rfl

theorem images_imageStore :
    imageStore.database.tables.get? (columnOf imageType.table) =
      some ⟨[], [plainImage, capitalImage, roundImage]⟩ := rfl

theorem toAsciiLower_album : Text.toAsciiLower "album" = "album" ∧
    Text.toAsciiLower "Album" = "album" :=
  ⟨Text.toAsciiLower_eq_iff.mpr (by decide),
    Text.toAsciiLower_eq_iff.mpr (by decide)⟩

theorem morphTag_albumType : imageSession.morphTag albumType = "album" :=
  (Text.IsAscii.toLower_eq (by decide)).trans toAsciiLower_album.2

theorem readsAs_album : imageSession.ReadsAs "album" "Album" :=
  .inr ⟨rfl, toAsciiLower_album.1.trans toAsciiLower_album.2.symm⟩

/-- An image whose tag names albums, and in which the key of the first one is
found, is of that. -/
theorem resolve_image {c : Row} {stored : String}
    (htag : cell c "imageable_type" = .text stored)
    (hreads : imageSession.ReadsAs stored "Album")
    (hfound : valuesEqual (cell firstAlbum "id") (cell c "imageable_id") = true) :
    (imageSession.resolve (.hydrate imageType c) "imageable" imageStore).1 =
      .ok (.one (some (.hydrate albumType firstAlbum))) := by
  have hid : (cell c "imageable_id").isNull = false :=
    isNull_of_valuesEqual ((valuesEqual_comm _ _).trans hfound)
  have hread : imageSession.morphEntity "imageable" imageMorph stored =
      .ok "Album" :=
    (morphEntity_eq_ok_iff points_images.tags).mpr
      ⟨"Album", List.mem_singleton_self _, hreads⟩
  have hfirst : [firstAlbum, nextAlbum].find? (fun p =>
      valuesEqual (cell p "id") (cell c "imageable_id")) = some firstAlbum :=
    List.find?_cons_of_pos hfound
  rw [points_images.resolve_inverse htag hid, hread, bind_ok (orThrow_apply _ _)]
  calc
    (imageSession.resolveDirect (.hydrate imageType c) "imageable" "Album"
        (.morphTo imageMorph) imageStore).1 =
        .ok (.one (([firstAlbum, nextAlbum].find? fun p =>
          valuesEqual (cell p "id") (cell c "imageable_id")).map
            (Record.hydrate albumType))) :=
      points_images.resolveDirect_owner ownsPointing_albums albums_imageStore rfl c
    _ = .ok (.one (some (.hydrate albumType firstAlbum))) := by
      rw [hfirst]
      rfl

/-- The two ends of a link disagree on an image whose tag has a capital letter,
and on one whose key is a floating point number that more than one album is
found by. -/
theorem polymorphic_ends_disagree :
    imageSession.Points imageMorph imageType "imageable" ∧
      imageSession.OwnsPointing imageMorph imageType albumType "images" ∧
      (∃ records, (imageSession.resolve (.hydrate albumType firstAlbum) "images"
          imageStore).1 = .ok (.many records) ∧
        .hydrate imageType capitalImage ∉ records ∧
        (imageSession.resolve (.hydrate imageType capitalImage) "imageable"
          imageStore).1 = .ok (.one (some (.hydrate albumType firstAlbum)))) ∧
      ∃ records, (imageSession.resolve (.hydrate albumType nextAlbum) "images"
          imageStore).1 = .ok (.many records) ∧
        .hydrate imageType roundImage ∈ records ∧
        (imageSession.resolve (.hydrate imageType roundImage) "imageable"
          imageStore).1 ≠ .ok (.one (some (.hydrate albumType nextAlbum))) := by
  refine ⟨points_images, ownsPointing_albums,
    ⟨_, points_images.resolve_owning ownsPointing_albums images_imageStore _, ?_,
      ?_⟩, ⟨_, points_images.resolve_owning ownsPointing_albums images_imageStore _,
        ?_, ?_⟩⟩
  · intro hmem
    rw [List.mem_map_of_injective (Record.hydrate_injective imageType)] at hmem
    have htag := ((pointsAt_iff rfl).mp (List.mem_filter.mp hmem).2).2
    rw [morphTag_albumType] at htag
    exact absurd htag (by decide)
  · exact resolve_image rfl (.inl rfl) (by decide +kernel)
  · refine List.mem_map_of_mem (List.mem_filter.mpr ⟨?_, ?_⟩)
    · simp
    · exact (pointsAt_iff rfl).mpr ⟨by decide +kernel, morphTag_albumType.symm⟩
  · rw [resolve_image rfl readsAs_album (by decide +kernel)]
    intro hsame
    have hrows := Record.hydrate_injective _
      (Option.some.inj (Related.one.inj (Except.ok.inj hsame)))
    have hkeys : Value.int 9007199254740992 = .int 9007199254740993 :=
      congrArg (cell · "id") hrows
    exact absurd (Value.int.inj hkeys) (by decide)

/-- An image whose tag is in small letters is found from its album, and the
album from it. -/
theorem polymorphic_owned_iff_owner_plainImage : ∃ owned : Row → Bool,
    (imageSession.resolve (.hydrate albumType firstAlbum) "images" imageStore).1 =
        .ok (.many (([plainImage, capitalImage, roundImage].filter owned).map
              (Record.hydrate imageType))) ∧ owned plainImage = true ∧
      (imageSession.resolve (.hydrate imageType plainImage) "imageable"
        imageStore).1 = .ok (.one (some (.hydrate albumType firstAlbum))) ∧
      owned capitalImage = false := by
  have hkeys : ∀ p ∈ [firstAlbum, nextAlbum], OfType "int" (cell p "id") := by
    decide
  obtain ⟨owned, hlist, hiff⟩ :=
    polymorphic_owned_iff_owner points_images ownsPointing_albums albums_imageStore
      images_imageStore hkeys (by decide) firstAlbum (List.mem_cons_self ..)
  have hplain : (imageSession.resolve (.hydrate imageType plainImage) "imageable"
        imageStore).1 = .ok (.one (some (.hydrate albumType firstAlbum))) :=
    resolve_image rfl readsAs_album (by decide +kernel)
  refine ⟨owned, hlist, ?_, hplain, ?_⟩
  · refine (hiff plainImage (by simp) (by decide) (by decide)).mpr ⟨hplain, ?_⟩
    rintro - stored ⟨⟩
    exact toAsciiLower_album.1
  · rw [Bool.eq_false_iff]
    intro howned
    have hsmall :=
      ((hiff capitalImage (by simp) (by decide) (by decide)).mp howned).2
    have hsame := (hsmall rfl "Album" rfl).symm.trans toAsciiLower_album.2
    exact absurd hsame (by decide)

end Session

end EntityMapper
