import EntityMapper.Proofs.Json.RoundTrip
import EntityMapper.Value

/-!
# Documents seen as values

A document that is seen as a value has the kinds of values for its scalars and
arrays, and there a whole number past the signed range becomes a floating point
number; an object stays a document. So the value has the same document again iff
no such number stands outside of objects. Seeing the document of such a value as
a value gives the value: what the first view loses is lost once.
-/

namespace EntityMapper

namespace Binary64

theorem magnitude_ofMagnitude {magnitude : Nat} (h : magnitude < Nat.pow 2 63) :
    (ofMagnitude false magnitude).magnitude = magnitude := by
  have hword : magnitude < 9223372036854775808 := h
  show magnitude % 18446744073709551616 % 9223372036854775808 = magnitude
  omega

/-- Past the signed range there is much room below infinity. -/
theorem isFinite_ofInt {n : Int} (hlow : Int64.maxValue.toInt < n)
    (hhigh : n ≤ Json.Document.maxInt) : (ofInt n).isFinite = true := by
  have hmaxValue : Int64.maxValue.toInt = 9223372036854775807 := rfl
  have hmax : Json.Document.maxInt = 18446744073709551615 := rfl
  obtain ⟨n, rfl⟩ := Int.eq_ofNat_of_zero_le (show 0 ≤ n by omega)
  have hlog : n.log2 = 63 := by
    rw [Nat.log2_eq_iff (by omega)]
    omega
  have hfloor : floorLog2 n 1 = 63 := by
    have hone : Nat.log2 1 = 0 := by decide
    unfold floorLog2
    rw [hlog, hone]
    refine if_pos ?_
    show 1 * 9223372036854775808 ≤ n * 1
    omega
  have hscale : max (floorLog2 n 1 - 52) (-1074) = 11 := by
    rw [hfloor]
    rfl
  have hrounded : roundHalfEven (n * Nat.pow 2 (-(11 : Int)).toNat)
      (1 * Nat.pow 2 (11 : Int).toNat) ≤ 2 ^ 53 := by
    have hquotient : n * Nat.pow 2 (-(11 : Int)).toNat /
          (1 * Nat.pow 2 (11 : Int).toNat) < 2 ^ 53 := by
      show n * 1 / 2048 < _
      omega
    unfold roundHalfEven
    dsimp only
    split_ifs <;> omega
  have hinfinity : infinityBits = 9218868437227405312 := rfl
  have hnonneg : decide ((n : Int) < 0) = false := by simp
  rw [isFinite, ofInt, hnonneg, Int.natAbs_natCast, ofRatio, if_neg (by omega)]
  dsimp only
  rw [hscale, magnitude_ofMagnitude]
  · show decide (min (1085 * 4503599627370496 + _) infinityBits < infinityBits) =
      true
    rw [decide_eq_true_eq]
    omega
  · show min (1085 * 4503599627370496 + _) infinityBits < 9223372036854775808
    omega

end Binary64

namespace Json.Document

/-- A floating point number has a JSON form of its own. -/
def IsFinite : Document → Prop
  | .float x => x.isFinite = true
  | _ => True

theorem IsReread.isFinite {d : Document} (h : d.IsReread) : d.IsFinite := by
  cases d with
  | float x =>
    by_contra hinfinite
    have hmagnitude : ¬ x.magnitude < Binary64.infinityBits := by
      simpa [IsFinite, Binary64.isFinite] using hinfinite
    have htext : Decimal.Layout.json.text x = "null" := by
      rcases Nat.lt_or_eq_of_le (Nat.not_lt.mp hmagnitude) with hlarge | hequal
      · exact if_pos (decide_eq_true hlarge)
      · have hnan : x.isNaN = false := by simp [Binary64.isNaN, hequal]
        have hinf : x.isInfinite = true := decide_eq_true hequal.symm
        rw [Decimal.Layout.text, hnan, hinf]
        exact ite_self _
    have hnull : (float x).chars = null.chars := by
      show (Decimal.Layout.json.text x).toList = _
      rw [htext]
      rfl
    have hread : read (float x).chars = .ok (.float x) := h
    rw [hnull] at hread
    cases hread
  | _ => exact trivial

/-! ## Numbers outside of objects -/

mutual

/-- The whole numbers of a document that stand outside of objects. -/
def bareInts : Document → List Int
  | .int n => [n]
  | .array items => itemBareInts items
  | .null => []
  | .bool _ => []
  | .float _ => []
  | .string _ => []
  | .object _ => []

def itemBareInts : List Document → List Int
  | [] => []
  | item :: rest => bareInts item ++ itemBareInts rest

end

theorem itemBareInts_eq (items : List Document) :
    itemBareInts items = items.flatMap bareInts := by
  induction items with
  | nil => rfl
  | cons item rest ih => rw [itemBareInts, ih, List.flatMap_cons]

end Json.Document

namespace Value

open Json (Document)

theorem document_list (items : List Value) :
    (list items).document = .array (documents items) := rfl

theorem document_float (x : Binary64) :
    (float x).document = if x.isFinite then .float x else .null := rfl

theorem ofDocument_array (items : List Document) :
    ofDocument (.array items) = .list (ofDocuments items) := rfl

theorem ofDocument_int (n : Int) :
    ofDocument (.int n) =
      if fitsInt64 n then .int (Int64.ofInt n) else .float (.ofInt n) := rfl

theorem documents_eq (items : List Value) :
    documents items = items.map document := by
  induction items with
  | nil => rfl
  | cons v rest ih => rw [documents, ih, List.map_cons]

theorem ofDocuments_eq (items : List Document) :
    ofDocuments items = items.map ofDocument := by
  induction items with
  | nil => rfl
  | cons d rest ih => rw [ofDocuments, ih, List.map_cons]

theorem document_ofDocument_array (items : List Document) :
    (ofDocument (.array items)).document =
      .array (items.map fun d => (ofDocument d).document) := by
  calc
    (ofDocument (.array items)).document =
        .array (documents (ofDocuments items)) := by
      rw [ofDocument_array, document_list]
    _ = .array (items.map fun d => (ofDocument d).document) := by
      rw [ofDocuments_eq, documents_eq, List.map_map]
      rfl

theorem document_ofDocument_float {x : Binary64} (h : x.isFinite = true) :
    (ofDocument (.float x)).document = .float x := if_pos h

theorem document_ofDocument_int {n : Int} (h : fitsInt64 n = true) :
    (ofDocument (.int n)).document = .int n := by
  rw [ofDocument_int, if_pos h]
  show Document.int (Int64.ofInt n).toInt = .int n
  simp only [fitsInt64, Bool.and_eq_true, decide_eq_true_eq] at h
  rw [Int64.toInt_ofInt_of_le h.1 (Int.lt_of_le_of_lt h.2 (by decide))]

/-- A document is the same after it was seen as a value iff no whole number past
the signed range stands outside of objects. -/
theorem document_ofDocument_eq_iff {d : Document} : d.Throughout Document.IsFinite →
    ((ofDocument d).document = d ↔ ∀ n ∈ d.bareInts, fitsInt64 n = true) := by
  induction d using Document.induction_on with
  | null | bool _ | string _ | object _ _ =>
    exact fun _ => iff_of_true rfl fun _ hn => absurd hn List.not_mem_nil
  | int n =>
    intro _
    rw [show (∀ m ∈ (Document.int n).bareInts, fitsInt64 m = true) ↔
        fitsInt64 n = true by
      simp [Document.bareInts]]
    refine ⟨fun hsame => ?_, document_ofDocument_int⟩
    by_contra hnot
    rw [ofDocument_int, if_neg hnot, document_float] at hsame
    split at hsame <;> cases hsame
  | float x =>
    intro hfinite
    exact iff_of_true (document_ofDocument_float hfinite.self)
      (by simp [Document.bareInts])
  | array items ih =>
    intro hfinite
    have hitems := (Document.throughout_array.mp hfinite).2
    have hself : items.map (fun d => (ofDocument d).document) = items ↔
        ∀ d ∈ items, (ofDocument d).document = d := by
      simpa using List.map_inj_left (l := items)
        (f := fun d => (ofDocument d).document) (g := id)
    rw [document_ofDocument_array, Document.array.injEq, hself, Document.bareInts,
      Document.itemBareInts_eq]
    simp only [List.mem_flatMap, forall_exists_index, and_imp]
    constructor
    · exact fun h n d hd hn => (ih d hd (hitems d hd)).mp (h d hd) n hn
    · exact fun h d hd => (ih d hd (hitems d hd)).mpr fun n hn => h n d hd hn

/-- A whole number past the signed range becomes a number that has a JSON form. -/
theorem isFinite_of_not_fits {n : Int} (hrange : (Document.int n).IsInRange)
    (h : ¬ fitsInt64 n = true) : (Binary64.ofInt n).isFinite = true := by
  obtain ⟨hlow, hhigh⟩ := hrange
  refine Binary64.isFinite_ofInt (Int.not_le.mp fun hle => h ?_) hhigh
  rw [fitsInt64, Bool.and_eq_true, decide_eq_true_eq, decide_eq_true_eq]
  exact ⟨hlow, hle⟩

/-- What a document is seen as is what its own document is seen as. -/
theorem ofDocument_document_ofDocument {d : Document} :
    d.Throughout Document.IsFinite → d.Throughout Document.IsInRange →
      ofDocument (ofDocument d).document = ofDocument d := by
  induction d using Document.induction_on with
  | null | bool _ | string _ | object _ _ => exact fun _ _ => rfl
  | int n =>
    intro _ hrange
    by_cases hfits : fitsInt64 n = true
    · rw [document_ofDocument_int hfits]
    · rw [ofDocument_int, if_neg hfits, document_float,
        if_pos (isFinite_of_not_fits hrange.self hfits)]
      rfl
  | float x =>
    intro hfinite _
    rw [document_ofDocument_float hfinite.self]
  | array items ih =>
    intro hfinite hrange
    have hitems := (Document.throughout_array.mp hfinite).2
    have hranges := (Document.throughout_array.mp hrange).2
    rw [document_ofDocument_array, ofDocument_array, ofDocument_array,
      ofDocuments_eq, ofDocuments_eq, List.map_map]
    congr 1
    exact List.map_congr_left fun d hd => ih d hd (hitems d hd) (hranges d hd)

/-- What becomes of a whole number: the number itself, or a scalar of another
kind. -/
theorem document_ofDocument_int_cases (n : Int) :
    (ofDocument (.int n)).document = .int n ∨
      (ofDocument (.int n)).document = .null ∨
      ∃ x, (ofDocument (.int n)).document = .float x := by
  by_cases hfits : fitsInt64 n = true
  · exact .inl (document_ofDocument_int hfits)
  · rw [ofDocument_int, if_neg hfits, document_float]
    split
    · exact .inr (.inr ⟨_, rfl⟩)
    · exact .inr (.inl rfl)

theorem document_ofDocument_float_cases (x : Binary64) :
    (ofDocument (.float x)).document = .float x ∨
      (ofDocument (.float x)).document = .null := by
  rw [show (ofDocument (.float x)).document = _ from document_float x]
  split
  · exact .inl rfl
  · exact .inr rfl

/-- A document that exists stays one. -/
theorem wellFormed_document_ofDocument {d : Document} : d.WellFormed →
    (ofDocument d).document.WellFormed := by
  have hnull : Document.null.WellFormed := by
    simp [Document.WellFormed, Document.Throughout, Document.parts,
      Document.IsOrdered, Document.IsInRange]
  have hfloat (x : Binary64) : (Document.float x).WellFormed := by
    simp [Document.WellFormed, Document.Throughout, Document.parts,
      Document.IsOrdered, Document.IsInRange]
  induction d using Document.induction_on with
  | null | bool _ | string _ | object _ _ => exact id
  | int n =>
    intro h
    obtain hsame | hsame | ⟨x, hsame⟩ := document_ofDocument_int_cases n
    · rwa [hsame]
    · rwa [hsame]
    · rw [hsame]
      exact hfloat x
  | float x =>
    intro _
    obtain hsame | hsame := document_ofDocument_float_cases x
    · rw [hsame]
      exact hfloat x
    · rwa [hsame]
  | array items ih =>
    intro h
    have hitems := (Document.throughout_array.mp h).2
    rw [document_ofDocument_array]
    refine Document.throughout_array.mpr ⟨⟨trivial, trivial⟩, ?_⟩
    rw [List.forall_mem_map]
    exact fun d hd => ih d hd (hitems d hd)

/-- Arrays and objects are kept, so there are as many levels. -/
theorem nesting_document_ofDocument (d : Document) :
    (ofDocument d).document.nesting = d.nesting := by
  induction d using Document.induction_on with
  | null | bool _ | string _ | object _ _ => rfl
  | int n =>
    obtain hsame | hsame | ⟨x, hsame⟩ := document_ofDocument_int_cases n <;>
      rw [hsame] <;> rfl
  | float x =>
    obtain hsame | hsame := document_ofDocument_float_cases x <;> rw [hsame]
    rfl
  | array items ih =>
    have hitems :
        Document.itemNesting (items.map fun d => (ofDocument d).document) =
          Document.itemNesting items := by
      induction items with
      | nil => rfl
      | cons d items ihItems =>
        obtain ⟨hd, hrest⟩ := List.forall_mem_cons.mp ih
        rw [List.map_cons, Document.itemNesting, Document.itemNesting, hd,
          ihItems hrest]
    calc
      (ofDocument (.array items)).document.nesting =
          (Document.array (items.map fun d => (ofDocument d).document)).nesting := by
        rw [document_ofDocument_array]
      _ = (Document.array items).nesting := by
        rw [Document.nesting, Document.nesting, hitems]

end Value

end EntityMapper
