import EntityMapper.Proofs.NameMap
import EntityMapper.Proofs.Text.Lowercase
import EntityMapper.Session.Resolution

/-!
# Tags of entity types

A polymorphic owner is found by the tag that stands in a row.
`morphEntity_eq_ok_iff` says which entity a tag stands for: the one that is
registered under it, or, when tags are written in small letters, under a tag
that differs in the case of ASCII letters only.

The tag that is written for a type need not be such a tag. It is written with
all letters small, and read with the ASCII letters alone in either case.
`morphEntity_morphTag` says for which types the two agree: those whose tags have
no capital letters other than the ASCII ones.
-/

namespace EntityMapper

variable {σ : Type}

theorem Text.eqIgnoringAsciiCase_iff {first second : String} :
    Text.eqIgnoringAsciiCase first second = true ↔
      Text.toAsciiLower first = Text.toAsciiLower second :=
  beq_iff_eq

/-- The registered tags stay different when they are written in small letters. -/
def MorphTo.DistinctTags (morph : MorphTo) : Prop :=
  (morph.types.keys.map Text.toLower).Nodup

instance (morph : MorphTo) : Decidable morph.DistinctTags :=
  inferInstanceAs (Decidable (List.Nodup _))

/-- The registered tags differ in more than the case of ASCII letters. -/
def MorphTo.CaselessTags (morph : MorphTo) : Prop :=
  (morph.types.keys.map Text.toAsciiLower).Nodup

theorem MorphTo.DistinctTags.caseless {morph : MorphTo} (h : morph.DistinctTags) :
    morph.CaselessTags := by
  have hlower : (morph.types.keys.map Text.toAsciiLower).map Text.toLower =
      morph.types.keys.map Text.toLower := by
    rw [List.map_map]
    exact List.map_congr_left fun tag _ => Text.toLower_toAsciiLower tag
  refine List.Nodup.of_map Text.toLower ?_
  rwa [hlower]

theorem MorphTo.CaselessTags.eq {morph : MorphTo} (h : morph.CaselessTags)
    {x y : String × String} (hx : x ∈ morph.types.entries)
    (hy : y ∈ morph.types.entries)
    (heq : Text.toAsciiLower x.1 = Text.toAsciiLower y.1) : x = y := by
  rw [CaselessTags, NameMap.keys, List.map_map] at h
  exact List.inj_on_of_nodup_map h hx hy heq

theorem MorphTo.DistinctTags.eq {morph : MorphTo} (h : morph.DistinctTags)
    {x y : String × String} (hx : x ∈ morph.types.entries)
    (hy : y ∈ morph.types.entries) (heq : Text.toLower x.1 = Text.toLower y.1) :
    x = y := by
  rw [DistinctTags, NameMap.keys, List.map_map] at h
  exact List.inj_on_of_nodup_map h hx hy heq

namespace Session

variable {s : Session σ} {name tag : String} {morph : MorphTo}

/-- Whether a stored tag stands for a registered one. -/
def ReadsAs (s : Session σ) (stored registered : String) : Prop :=
  stored = registered ∨ s.config.lowercaseMorphTags = true ∧
    Text.toAsciiLower stored = Text.toAsciiLower registered

theorem ReadsAs.ascii_eq {registered : String} (h : s.ReadsAs tag registered) :
    Text.toAsciiLower tag = Text.toAsciiLower registered :=
  h.elim (congrArg _) And.right

theorem morphEntity_cases (s : Session σ) (name : String) (morph : MorphTo)
    (tag : String) :
    (∃ registered related, (registered, related) ∈ morph.types.entries ∧
      s.ReadsAs tag registered ∧ s.morphEntity name morph tag = .ok related) ∨
      (∀ entry ∈ morph.types.entries, ¬ s.ReadsAs tag entry.1) ∧
        s.morphEntity name morph tag = .error (.unregisteredType name tag) := by
  unfold morphEntity
  cases hexact : morph.types.get? tag with
  | some related =>
    exact .inl ⟨tag, related, NameMap.mem_of_lookup hexact, .inl rfl, rfl⟩
  | none =>
    have hother (entry : String × String) (hentry : entry ∈ morph.types.entries) :
        tag ≠ entry.1 := by
      rintro rfl
      have hsome := NameMap.lookup_isSome_iff.mpr (List.mem_map_of_mem hentry)
      rw [NameMap.get?] at hexact
      rw [hexact] at hsome
      cases hsome
    cases hlower : s.config.lowercaseMorphTags with
    | false =>
      refine .inr ⟨fun entry hentry hreads => ?_, rfl⟩
      rcases hreads with hsame | ⟨htrue, -⟩
      · exact hother entry hentry hsame
      · rw [hlower] at htrue
        cases htrue
    | true =>
      simp only [if_true]
      cases hfind : morph.types.entries.find? fun entry =>
          Text.eqIgnoringAsciiCase entry.1 tag with
      | some entry =>
        obtain ⟨registered, related⟩ := entry
        have hsame : Text.eqIgnoringAsciiCase registered tag = true := by
          simpa using List.find?_some hfind
        exact .inl ⟨registered, related, List.mem_of_find?_eq_some hfind,
          .inr ⟨hlower, (Text.eqIgnoringAsciiCase_iff.mp hsame).symm⟩, rfl⟩
      | none =>
        refine .inr ⟨fun entry hentry hreads => ?_, rfl⟩
        exact List.find?_eq_none.mp hfind entry hentry
          (Text.eqIgnoringAsciiCase_iff.mpr hreads.ascii_eq.symm)

/-- A tag stands for the entity of a registered tag that it can be read as. -/
theorem morphEntity_eq_ok_iff (hdistinct : morph.CaselessTags) {related : String} :
    s.morphEntity name morph tag = .ok related ↔ ∃ registered,
        (registered, related) ∈ morph.types.entries ∧ s.ReadsAs tag registered := by
  rcases s.morphEntity_cases name morph tag
    with ⟨first, found, hfirst, hreads, hok⟩ | ⟨hnone, herr⟩
  · rw [hok]
    constructor
    · rintro ⟨rfl⟩
      exact ⟨first, hfirst, hreads⟩
    · rintro ⟨registered, hmem, hother⟩
      have hsame :=
        hdistinct.eq hfirst hmem (hreads.ascii_eq.symm.trans hother.ascii_eq)
      exact congrArg Except.ok (congrArg Prod.snd hsame)
  · rw [herr]
    refine iff_of_false nofun ?_
    rintro ⟨registered, hmem, hreads⟩
    exact hnone _ hmem hreads

/-- The tag that is written for a type can be read as the tag of the type iff
all its capital letters are ASCII letters, or tags are written as they are. -/
theorem readsAs_morphTag_iff (s : Session σ) (entity : EntityType) :
    s.ReadsAs (s.morphTag entity) entity.morphTag ↔
      (s.config.lowercaseMorphTags = true →
        Text.toAsciiLower entity.morphTag = Text.toLower entity.morphTag) := by
  unfold ReadsAs morphTag
  cases s.config.lowercaseMorphTags with
  | false => simp
  | true =>
    rw [if_pos rfl, Text.toAsciiLower_toLower]
    constructor
    · rintro (hsame | ⟨-, heq⟩) -
      · rw [← hsame, Text.toAsciiLower_toLower, Text.toLower_toLower]
      · exact heq.symm
    · exact fun h => .inr ⟨rfl, (h rfl).symm⟩

/-- The tag that is written for a registered type is read as that type, except
if tags are written in small letters and the tag has a capital letter that is
not an ASCII one: then no type is registered for what is written. -/
theorem morphEntity_morphTag (s : Session σ) (name : String) {entity : EntityType}
    {related : String} (hdistinct : morph.DistinctTags)
    (hregistered : morph.types.get? entity.morphTag = some related) :
    s.morphEntity name morph (s.morphTag entity) =
      if s.config.lowercaseMorphTags = true ∧
          Text.toAsciiLower entity.morphTag ≠ Text.toLower entity.morphTag then
        .error (.unregisteredType name (Text.toLower entity.morphTag))
      else .ok related := by
  have hmem := NameMap.mem_of_lookup hregistered
  split
  · next hcapital =>
    obtain ⟨hlower, hne⟩ := hcapital
    have hwritten : s.morphTag entity = Text.toLower entity.morphTag :=
      if_pos hlower
    rcases s.morphEntity_cases name morph (s.morphTag entity) with
      ⟨registered, found, hfound, hreads, -⟩ | ⟨-, herr⟩
    · -- Read as another type, the two tags would be the same in small letters.
      have heq : Text.toLower entity.morphTag = Text.toLower registered := by
        rw [← Text.toLower_toLower, ← hwritten, ← Text.toLower_toAsciiLower,
          hreads.ascii_eq, Text.toLower_toAsciiLower]
      obtain ⟨rfl, -⟩ := Prod.mk.inj (hdistinct.eq hmem hfound heq)
      exact absurd ((s.readsAs_morphTag_iff entity).mp hreads hlower) hne
    · rw [herr, hwritten]
  · next hplain =>
    refine (morphEntity_eq_ok_iff hdistinct.caseless).mpr ⟨_, hmem, ?_⟩
    rw [readsAs_morphTag_iff]
    intro hlower
    by_contra hne
    exact hplain ⟨hlower, hne⟩

/-! ### An event with an accent -/

def eventType : EntityType where
  name := "Event"
  table := "events"
  morphTag := "Évent"

def placeType : EntityType where
  name := "Place"
  table := "places"

/-- A relation to events and places. -/
def eventMorph : MorphTo :=
  { MorphTo.named "imageable" with
    types := .ofList [("Évent", "Event"), ("Place", "Place")] }

def taggingSession : Session LocalStore :=
  .new {} LocalStore.backend

theorem distinctTags_eventMorph : eventMorph.DistinctTags := by
  decide +kernel

/-- The tag that is written for an event is not read as any type. -/
theorem event_tag_unread : eventMorph.DistinctTags ∧
    eventMorph.types.get? eventType.morphTag = some "Event" ∧
    taggingSession.morphEntity "imageable" eventMorph
        (taggingSession.morphTag eventType) =
      .error (.unregisteredType "imageable" "évent") := by
  decide +kernel

theorem morphEntity_morphTag_place : eventMorph.DistinctTags ∧
    eventMorph.types.get? placeType.morphTag = some "Place" ∧
    taggingSession.morphTag placeType = "place" ∧
    taggingSession.morphEntity "imageable" eventMorph "place" = .ok "Place" := by
  have hget : eventMorph.types.get? placeType.morphTag = some "Place" := by
    decide +kernel
  have hwritten : taggingSession.morphTag placeType = "place" := by decide +kernel
  have hread :=
    taggingSession.morphEntity_morphTag "imageable" distinctTags_eventMorph hget
  rw [hwritten, if_neg (by decide +kernel)] at hread
  exact ⟨distinctTags_eventMorph, hget, hwritten, hread⟩

end Session

end EntityMapper
