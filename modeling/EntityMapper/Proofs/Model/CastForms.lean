import EntityMapper.Model.Record
import EntityMapper.Proofs.Model.Changes
import EntityMapper.Proofs.ValueDocuments

/-!
# Stored and shown forms of cast attributes

Structured values are stored as the JSON text of their document. Reading gives
the document that was written, seen as a value: it has the same document again
unless a whole number past the signed range stands outside of objects. What a
cast shows is a normal form of all seven casts: it can be written back, and it
is shown again.
-/

namespace EntityMapper

open Json (Document)

namespace Cast

variable {cast : Cast} {v s r : Value}

theorem set_null (cast : Cast) : cast.set .null = .ok .null := rfl

theorem get_null (cast : Cast) : cast.get .null = .ok .null := rfl

/-! ## Documents as text -/

/-- The casts that keep a value as the text of its document. -/
def IsStructured (cast : Cast) : Prop := cast = .json ∨ cast = .array

theorem set_json (h : v.isNull = false) :
    Cast.json.set v = .ok (.text v.document.text) := by
  rw [set, h]
  rfl

theorem set_array (h : v.isNull = false) :
    Cast.array.set v = .ok (.text v.document.text) := by
  rw [set, h]
  rfl

/-- The documents that a strict reading reads back. -/
structure Writable (d : Document) : Prop where
  wellFormed : d.WellFormed
  nesting : d.nesting ≤ 127
  floats : d.Throughout Document.IsReread

theorem Writable.finite {d : Document} (h : Writable d) :
    d.Throughout Document.IsFinite :=
  fun part hpart => (h.floats part hpart).isFinite

theorem Writable.inRange {d : Document} (h : Writable d) :
    d.Throughout Document.IsInRange :=
  fun part hpart => (h.wellFormed part hpart).2

/-- The text of a document is read as the document. -/
theorem getJson_text {d : Document} (h : Writable d) :
    getJson (.text d.text) = .ok (.ofDocument d) := by
  have hread :=
    Document.read_chars (Nat.lt_succ_of_le h.nesting) h.wellFormed h.floats
  simp only [getJson, Document.text, String.toList_ofList, hread]

theorem get_json_text {d : Document} (h : Writable d) :
    Cast.json.get (.text d.text) = .ok (.ofDocument d) := getJson_text h

theorem get_array_text {items : List Document} (h : Writable (.array items)) :
    Cast.array.get (.text (Document.array items).text) =
      .ok (.ofDocument (.array items)) := by
  show getArray _ = _
  rw [getArray, getJson_text h]
  rfl

/-- The JSON cast reads back what it writes. The document is the same iff no
whole number past the signed range stands outside of objects; a list is read
back the same way by the array cast. -/
theorem json_round_trip (hsome : v.isNull = false) (hwf : v.document.WellFormed)
    (hnesting : v.document.nesting ≤ 127)
    (hfloats : v.document.Throughout Document.IsReread) :
    ∃ text r, Cast.json.set v = .ok (.text text) ∧
      Cast.json.get (.text text) = .ok r ∧ (r.document = v.document ↔
          ∀ n ∈ v.document.bareInts, Value.fitsInt64 n = true) ∧
      ∀ items, v.document = .array items → Cast.array.set v = .ok (.text text) ∧
          Cast.array.get (.text text) = .ok r := by
  have hwritable : Writable v.document := ⟨hwf, hnesting, hfloats⟩
  refine ⟨_, _, set_json hsome, get_json_text hwritable,
    Value.document_ofDocument_eq_iff hwritable.finite,
    fun items hitems => ⟨set_array hsome, ?_⟩⟩
  rw [hitems] at hwritable ⊢
  exact get_array_text hwritable

/-- A list with the greatest number of a document inside an object. -/
def sealedNumber : Value :=
  .list [.float ⟨0x3ff8000000000000⟩,
    .json (.object [("n", .int 18446744073709551615)])]

/-- Inside an object the number is kept. -/
theorem json_round_trip_sealedNumber :
    ∃ text r, Cast.json.set sealedNumber = .ok (.text text) ∧
      Cast.json.get (.text text) = .ok r ∧ r.document = sealedNumber.document ∧
      Cast.array.get (.text text) = .ok r := by
  obtain ⟨text, r, hset, hget, hsame, harray⟩ :=
    json_round_trip (v := sealedNumber) rfl (by decide +kernel) (by decide)
      (by decide +kernel)
  exact ⟨text, r, hset, hget, hsame.mpr (by decide +kernel), (harray _ rfl).2⟩

/-- A list with the same number outside of an object. -/
def bareNumber : Value := .json (.array [.int 18446744073709551615])

/-- Outside of an object the number is not kept, although the document is read
back. -/
theorem json_changes_bareNumber : bareNumber.isNull = false ∧
    bareNumber.document.WellFormed ∧ bareNumber.document.nesting ≤ 127 ∧
    bareNumber.document.Throughout Document.IsReread ∧
    Document.read bareNumber.document.text.toList = .ok bareNumber.document ∧
    ∃ text r, Cast.json.set bareNumber = .ok (.text text) ∧
      Cast.json.get (.text text) = .ok r ∧ Cast.array.get (.text text) = .ok r ∧
      r.document ≠ bareNumber.document := by
  have hwritable : Writable bareNumber.document :=
    ⟨by decide +kernel, by decide, by decide +kernel⟩
  have hread := Document.read_chars (d := bareNumber.document) (by decide)
    hwritable.wellFormed hwritable.floats
  refine ⟨rfl, hwritable.wellFormed, hwritable.nesting, hwritable.floats, ?_, _,
    _, set_json rfl, get_json_text hwritable, get_array_text hwritable,
    fun hsame => ?_⟩
  · rwa [Document.text, String.toList_ofList]
  · have hfits := (Value.document_ofDocument_eq_iff hwritable.finite).mp hsame
    exact absurd (hfits 18446744073709551615 (by decide)) (by decide)

/-! ## What a cast shows can be written back -/

theorem exists_of_getInt (h : getInt s = .ok r) : ∃ n, r = .int n := by
  unfold getInt at h
  split at h
  case h_5 =>
    split at h
    · exact ⟨_, (Except.ok.inj h).symm⟩
    · cases h
  case h_6 => cases h
  all_goals exact ⟨_, (Except.ok.inj h).symm⟩

theorem exists_of_getFloat (h : getFloat s = .ok r) : ∃ x, r = .float x := by
  unfold getFloat at h
  split at h
  all_goals
    split at h
    · exact ⟨_, (Except.ok.inj h).symm⟩
    · cases h

theorem exists_of_getBool (h : getBool s = .ok r) : ∃ b, r = .bool b := by
  unfold getBool at h
  split at h
  case h_3 =>
    split at h
    · exact ⟨_, (Except.ok.inj h).symm⟩
    · cases h
  case h_4 => cases h
  all_goals exact ⟨_, (Except.ok.inj h).symm⟩

theorem exists_of_getString (h : getString s = .ok r) : ∃ text, r = .text text := by
  unfold getString at h
  split at h
  all_goals exact ⟨_, (Except.ok.inj h).symm⟩

theorem exists_of_toTimestamp (h : toTimestamp s = .ok r) :
    ∃ t, r = .timestamp t := by
  unfold toTimestamp at h
  split at h
  case h_3 =>
    split at h
    · exact ⟨_, (Except.ok.inj h).symm⟩
    · cases h
  case h_4 => cases h
  all_goals exact ⟨_, (Except.ok.inj h).symm⟩

/-- A cast that keeps its values as they are shows a value of its type, which it
writes and shows as it is. -/
theorem set_get_scalar (hscalar : ¬ cast.IsStructured) (hsome : s.isNull = false)
    (h : cast.get s = .ok r) : cast.set r = .ok r ∧ cast.get r = .ok r := by
  unfold get at h
  rw [hsome] at h
  cases cast with
  | int =>
    obtain ⟨n, rfl⟩ := exists_of_getInt h
    exact ⟨rfl, rfl⟩
  | float =>
    obtain ⟨x, rfl⟩ := exists_of_getFloat h
    exact ⟨rfl, rfl⟩
  | bool =>
    obtain ⟨b, rfl⟩ := exists_of_getBool h
    exact ⟨rfl, rfl⟩
  | string =>
    obtain ⟨text, rfl⟩ := exists_of_getString h
    exact ⟨rfl, rfl⟩
  | date =>
    obtain ⟨t, rfl⟩ := exists_of_toTimestamp h
    exact ⟨rfl, rfl⟩
  | json => exact absurd (.inl rfl) hscalar
  | array => exact absurd (.inr rfl) hscalar

/-- What a document is shown as has a text that is shown the same. -/
theorem Writable.shown {d : Document} (h : Writable d)
    (hshown : (Value.ofDocument d).document.Throughout Document.IsReread) :
    Writable (Value.ofDocument d).document where
  wellFormed := Value.wellFormed_document_ofDocument h.wellFormed
  nesting := by
    rw [Value.nesting_document_ofDocument]
    exact h.nesting
  floats := hshown

/-- The value of a document is shown by its own text. -/
theorem getJson_shown {d : Document} (h : Writable d)
    (hshown : (Value.ofDocument d).document.Throughout Document.IsReread) :
    getJson (.text (Value.ofDocument d).document.text) = .ok (.ofDocument d) := by
  rw [getJson_text (h.shown hshown),
    Value.ofDocument_document_ofDocument h.finite h.inRange]

theorem getArray_eq_ok_iff :
    getArray s = .ok r ↔ getJson s = .ok r ∧ ∃ items, r = .list items := by
  unfold getArray
  constructor
  · intro h
    split at h
    · next items hjson =>
      obtain rfl := Except.ok.inj h
      exact ⟨hjson, items, rfl⟩
    · cases h
    · cases h
  · rintro ⟨hjson, items, rfl⟩
    rw [hjson]

/-- What a structured cast shows is written as a text that is shown the same. -/
theorem set_get_structured {d : Document} (hcast : cast.IsStructured)
    (h : Writable d) (hget : cast.get (.text d.text) = .ok r)
    (hshown : r.document.Throughout Document.IsReread) :
    ∃ again, cast.set r = .ok again ∧ cast.get again = .ok r := by
  cases hnull : r.isNull with
  | true =>
    obtain rfl : r = .null := by cases r <;> first | rfl | cases hnull
    exact ⟨.null, set_null cast, get_null cast⟩
  | false =>
    refine ⟨.text r.document.text, ?_⟩
    rcases hcast with rfl | rfl
    · obtain rfl := Except.ok.inj ((getJson_text h).symm.trans hget)
      exact ⟨set_json hnull, getJson_shown h hshown⟩
    · obtain ⟨hjson, items, hitems⟩ := getArray_eq_ok_iff.mp hget
      obtain rfl := Except.ok.inj ((getJson_text h).symm.trans hjson)
      exact ⟨set_array hnull,
        getArray_eq_ok_iff.mpr ⟨getJson_shown h hshown, items, hitems⟩⟩

/-- What a cast shows of a value that it has written can be written, and is
shown again. -/
theorem exists_set_get (hset : cast.set v = .ok s) (hget : cast.get s = .ok r)
    (hwritable : cast.IsStructured → Writable v.document)
    (hshown : cast.IsStructured → r.document.Throughout Document.IsReread) :
    ∃ again, cast.set r = .ok again ∧ cast.get again = .ok r := by
  cases hnull : s.isNull with
  | true =>
    obtain rfl : s = .null := by cases s <;> first | rfl | cases hnull
    obtain rfl := Except.ok.inj hget
    exact ⟨.null, set_null cast, get_null cast⟩
  | false =>
    by_cases hstructured : cast.IsStructured
    · have htext : s = .text v.document.text := by
        have hsome : v.isNull = false := by
          cases v <;> first | rfl | skip
          obtain rfl := Except.ok.inj hset
          cases hnull
        rcases hstructured with rfl | rfl
        · exact Except.ok.inj (hset.symm.trans (set_json hsome))
        · exact Except.ok.inj (hset.symm.trans (set_array hsome))
      rw [htext] at hget
      exact set_get_structured hstructured (hwritable hstructured) hget
        (hshown hstructured)
    · exact ⟨r, set_get_scalar hstructured hnull hget⟩

end Cast

/-! ## Records -/

namespace Record

variable {record : Record} {key : String} {cast : Cast} {v s r : Value}

/-- Without a transform, reading shows the stored form as the cast does. -/
theorem get_of_cast (hcast : record.entity.cast? key = some cast)
    (htransform : record.entity.transform? key = none)
    (hraw : record.raw? key = some s) (hget : cast.get s = .ok r) :
    record.get key = .ok r := by
  simp only [get, hraw, htransform, hcast, Option.getD_some, Option.bind_none, hget]
  rfl

/-- Without a transform, writing stores what the cast writes. -/
theorem set_of_cast (hcast : record.entity.cast? key = some cast)
    (htransform : record.entity.transform? key = none) (hset : cast.set v = .ok s) :
    record.set key v = .ok (record.put key s) := by
  have hstored : storedForm record.entity key v = .ok s := by
    simp only [storedForm, htransform, hcast, hset]
    rfl
  rw [set, hstored]
  rfl

/-- What a cast shows of a written value is a normal form: it can be written,
and is shown again. So an attribute that was last written through its cast stays
as it is shown when what it shows is written back. The casts that keep documents
need the texts of their numbers to be read back. -/
theorem write_back_stable (hset : cast.set v = .ok s) (hget : cast.get s = .ok r)
    (hwritable : cast.IsStructured → Cast.Writable v.document)
    (hshown : cast.IsStructured → r.document.Throughout Document.IsReread) :
    (∃ again, cast.set r = .ok again ∧ cast.get again = .ok r) ∧
      ∀ (before written now : Record) (key : String),
        before.entity.cast? key = some cast →
          before.entity.transform? key = none → before.set key v = .ok written →
          now.entity = before.entity → now.raw? key = written.raw? key →
          now.get key = .ok r ∧ ∃ rewritten, now.set key r = .ok rewritten ∧
            rewritten.get key = .ok r := by
  obtain ⟨again, hagain, hshows⟩ := Cast.exists_set_get hset hget hwritable hshown
  refine ⟨⟨again, hagain, hshows⟩, ?_⟩
  intro before written now key hcast htransform hwrite hentity hraw
  obtain rfl :=
    Except.ok.inj ((set_of_cast hcast htransform hset).symm.trans hwrite)
  rw [raw?_put_self] at hraw
  rw [← hentity] at hcast htransform
  refine ⟨get_of_cast hcast htransform hraw hget, now.put key again,
    set_of_cast hcast htransform hagain, ?_⟩
  exact get_of_cast hcast htransform (raw?_put_self ..) hshows

/-- A profile keeps a document. -/
def profile : EntityType where
  name := "Profile"
  table := "profiles"
  casts := (∅ : NameMap Cast).insert "doc" .json

/-- A number that is rounded when it is first read is not rounded again. -/
theorem write_back_stable_profile : ∃ written rewritten,
    (Record.new profile).set "doc" Cast.bareNumber = .ok written ∧
      written.get "doc" = .ok (.list [.float (.ofInt 18446744073709551615)]) ∧
      written.set "doc" (.list [.float (.ofInt 18446744073709551615)]) =
        .ok rewritten ∧
      rewritten.get "doc" = .ok (.list [.float (.ofInt 18446744073709551615)]) := by
  have hset : Cast.json.set Cast.bareNumber =
      .ok (.text Cast.bareNumber.document.text) := rfl
  have hwritten :=
    @set_of_cast (Record.new profile) "doc" .json Cast.bareNumber _ rfl rfl hset
  have hwritable : Cast.Writable Cast.bareNumber.document :=
    ⟨by decide +kernel, by decide, by decide +kernel⟩
  have hget : Cast.json.get (.text Cast.bareNumber.document.text) =
      .ok (.list [.float (.ofInt 18446744073709551615)]) :=
    Cast.get_json_text hwritable
  obtain ⟨-, hrecord⟩ := write_back_stable hset hget (fun _ => hwritable)
    (fun _ => by decide +kernel)
  obtain ⟨hshown, rewritten, hrewritten, hagain⟩ :=
    hrecord (Record.new profile) _ ((Record.new profile).put "doc" _) "doc" rfl
      rfl hwritten rfl rfl
  exact ⟨_, rewritten, hwritten, hshown, hrewritten, hagain⟩

end Record

end EntityMapper
