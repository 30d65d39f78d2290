import EntityMapper.Proofs.Equality
import EntityMapper.Store.Evaluation
import EntityMapper.Store.Table

/-!
# Equality of values and equality in filters

A filter finds two values equal in more cases than values are equal: an integer
and a floating point number of the same size, a timestamp and an integer. This
module relates the two: equal values other than null are equal to a filter;
among values of one type a filter finds no others equal; and among values of one
of the kinds that serve as keys, values that are equal to a filter are the same.
-/

namespace EntityMapper

theorem Binary64.compare?_swap (x y : Binary64) :
    y.compare? x = (x.compare? y).map Ordering.swap := by
  unfold compare?
  cases x.orderKey? with
  | none => cases y.orderKey? <;> rfl
  | some a => cases y.orderKey? with
    | none => rfl
    | some b => exact congrArg some Std.OrientedOrd.eq_swap

theorem Value.eq_text_of_typeName {a : Value} (h : a.typeName = "text") :
    ∃ text, a = .text text := by
  cases a <;> simp [typeName] at h
  exact ⟨_, rfl⟩

namespace Store

theorem compareBytes_self (bytes : List UInt8) :
    compareBytes bytes bytes = .eq := by
  induction bytes with
  | nil => rfl
  | cons b rest ih =>
    rw [compareBytes, Nat.compare_eq_eq.mpr rfl, Ordering.eq_then, ih]

theorem eq_of_compareBytes {first second : List UInt8}
    (h : compareBytes first second = .eq) : first = second := by
  induction first generalizing second with
  | nil => cases second with
    | nil => rfl
    | cons b rest => simp [compareBytes] at h
  | cons a rest ih => cases second with
    | nil => simp [compareBytes] at h
    | cons b others =>
      rw [compareBytes, Ordering.then_eq_eq] at h
      obtain rfl : a = b := UInt8.toNat_inj.mp (Nat.compare_eq_eq.mp h.1)
      rw [ih h.2]

theorem compareBytes_swap (first second : List UInt8) :
    compareBytes second first = (compareBytes first second).swap := by
  induction first generalizing second with
  | nil => cases second <;> rfl
  | cons a rest ih => cases second with
    | nil => rfl
    | cons b others =>
      calc
        compareBytes (b :: others) (a :: rest) =
            (compare b.toNat a.toNat).then (compareBytes others rest) := by
              rw [compareBytes]
        _ = (compare a.toNat b.toNat).swap.then
            (compareBytes rest others).swap := by
          rw [ih, ← Std.OrientedOrd.eq_swap]
        _ = (compareBytes (a :: rest) (b :: others)).swap := by
          rw [compareBytes, Ordering.swap_then]

theorem compareValues?_swap (a b : Value) :
    compareValues? b a = (compareValues? a b).map Ordering.swap := by
  cases a <;> cases b <;>
    simp only [compareValues?, Option.map_some, Option.map_none,
      ← Std.OrientedOrd.eq_swap, ← compareBytes_swap, ← Binary64.compare?_swap]

/-- It does not matter which of two values a filter is given. -/
theorem valuesEqual_comm (a b : Value) : valuesEqual a b = valuesEqual b a := by
  unfold valuesEqual
  rw [Bool.or_comm, compareValues?_swap b a]
  cases compareValues? b a with
  | none => rw [Option.map_none, BEq.comm]
  | some order => cases order <;> rfl

/-- Values that are equal are equal to a filter, unless they are null. -/
theorem valuesEqual_of_beq {a b : Value} (h : (a == b) = true)
    (hnull : a.isNull = false) : valuesEqual a b = true := by
  have hother : b.isNull = false := (Value.isNull_eq_of_beq h).symm.trans hnull
  have hplain (hkind : a.isPlain = true) : a = b := Value.eq_of_beq_plain hkind h
  rw [valuesEqual, hnull, hother]
  cases a with
  | null => cases hnull
  | bool x =>
    obtain rfl := hplain rfl
    simp [compareValues?]
  | int x =>
    obtain rfl := hplain rfl
    simp [compareValues?]
  | float x => cases b with
    | float y =>
      have hequal : (x.compare? y == some .eq) = true := h
      rw [beq_iff_eq] at hequal
      simp [compareValues?, hequal]
    | _ => cases h
  | text x =>
    obtain rfl := hplain rfl
    simp [compareValues?]
  | bytes x =>
    obtain rfl := hplain rfl
    simp [compareValues?, compareBytes_self]
  | timestamp x =>
    obtain rfl := hplain rfl
    simp [compareValues?]
  | uuid x =>
    obtain rfl := hplain rfl
    simp [compareValues?, compareBytes_self]
  | list x => cases b with
    | list y => simpa [compareValues?] using h
    | _ => cases h
  | json x => cases b with
    | json y => simpa [compareValues?] using h
    | _ => cases h

/-- A filter does not tell equal values apart. -/
theorem valuesEqual_congr_left {a b : Value} (h : (a == b) = true) (c : Value) :
    valuesEqual a c = valuesEqual b c := by
  by_cases hplain : a.isPlain = true
  · rw [Value.eq_of_beq_plain hplain h]
  have hbeq : (a == c) = (b == c) := BEq.congr_left h
  have hnull := Value.isNull_eq_of_beq h
  unfold valuesEqual
  rw [hnull]
  cases a with
  | float x => cases b with
    | float y =>
      obtain ⟨place, hx, hy⟩ := Binary64.numEq_iff.mp h
      have hcompare (z : Binary64) : x.compare? z = y.compare? z := by
        rw [Binary64.compare?, Binary64.compare?, hx, hy]
      cases c <;> simp only [compareValues?, hcompare, hbeq]
    | _ => cases h
  | list x => cases b with
    | list y => simp only [compareValues?, hbeq]
    | _ => cases h
  | json x => cases b with
    | json y => simp only [compareValues?, hbeq]
    | _ => cases h
  | _ => exact absurd rfl hplain

/-- Among values of one type a filter finds equal those that are equal, unless
they are null. -/
theorem valuesEqual_eq_beq {a b : Value} (htype : a.typeName = b.typeName)
    (hnull : a.isNull = false) : valuesEqual a b = (a == b) := by
  rw [Bool.eq_iff_iff]
  refine ⟨fun h => ?_, fun h => valuesEqual_of_beq h hnull⟩
  have hplain (hkind : a.isPlain = true) (hsame : a = b) : (a == b) = true := by
    rw [← hsame]
    exact Value.beq_self_plain hkind
  unfold valuesEqual at h
  cases a <;> cases b <;> simp only [Value.typeName, String.reduceEq] at htype
  case null.null => cases hnull
  case bool.bool =>
    exact hplain rfl (by simpa [Value.isNull, compareValues?] using h)
  case int.int =>
    exact hplain rfl
      (by simpa [Value.isNull, compareValues?, Int64.toInt_inj] using h)
  case float.float x y =>
    have hequal : (Value.float x == Value.float y) = (x.compare? y == some .eq) :=
      rfl
    rw [hequal]
    cases hcompare : x.compare? y with
    | some order => simpa [Value.isNull, compareValues?, hcompare] using h
    | none => simp [Value.isNull, compareValues?, hequal, hcompare] at h
  case text.text =>
    exact hplain rfl (by simpa [Value.isNull, compareValues?] using h)
  case bytes.bytes =>
    exact hplain rfl (congrArg _
      (eq_of_compareBytes (by simpa [Value.isNull, compareValues?] using h)))
  case timestamp.timestamp =>
    exact hplain rfl
      (by simpa [Value.isNull, compareValues?, Int64.toInt_inj] using h)
  case uuid.uuid =>
    exact hplain rfl (congrArg _ (Vector.toList_inj.mp
      (eq_of_compareBytes (by simpa [Value.isNull, compareValues?] using h))))
  case list.list => simpa [Value.isNull, compareValues?] using h
  case json.json => simpa [Value.isNull, compareValues?] using h

/-- A value is null or of a type. -/
def OfType (type : String) (value : Value) : Prop :=
  value.isNull = true ∨ value.typeName = type

instance (type : String) (value : Value) : Decidable (OfType type value) :=
  inferInstanceAs (Decidable (_ ∨ _))

/-- Among values of one type a filter finds equal those that are equal and not
null. -/
theorem OfType.valuesEqual {type : String} {a b : Value} (ha : OfType type a)
    (hb : OfType type b) : valuesEqual a b = (!a.isNull && a == b) := by
  cases hnull : a.isNull with
  | true =>
    rw [Store.valuesEqual, hnull]
    rfl
  | false =>
    rw [Bool.not_false, Bool.true_and]
    rcases hb with hother | hb
    · have hdifferent : (a == b) = false := Bool.eq_false_iff.mpr fun hequal => by
        rw [Value.isNull_eq_of_beq hequal, hother] at hnull
        cases hnull
      rw [Store.valuesEqual, hnull, hother, hdifferent]
      rfl
    · exact valuesEqual_eq_beq
        ((ha.resolve_left (by simp [hnull])).trans hb.symm) hnull

theorem OfType.not_float {type : String} {value : Value} (h : OfType type value)
    (hint : type = "int") : value.typeName ≠ "float" := by
  rcases h with hnull | htype
  · cases value with
    | null => decide
    | _ => cases hnull
  · rw [htype, hint]
    decide

/-! ## Rows with a key -/

/-- Whether a filter finds a key in a column of a row. -/
def holdsKey (column : String) (key : Value) (row : Row) : Bool :=
  valuesEqual (cell row column) key

variable {column : String} {key : Value} {row : Row}

theorem holdsKey_of_get (hkey : row.get? column = some key)
    (hself : (key == key) = true) (hnull : key.isNull = false) :
    holdsKey column key row = true := by
  rw [holdsKey, cell, hkey]
  exact valuesEqual_of_beq hself hnull

/-- A row has a key iff each column of the key holds its value. -/
theorem hasKey_cons {columns : List String} {values : List Value} :
    Table.hasKey row (column :: columns) (key :: values) = true ↔
      ∃ stored, row.get? column = some stored ∧ (stored == key) = true ∧
        Table.hasKey row columns values = true := by
  rw [Table.hasKey, Bool.and_eq_true]
  cases row.get? column <;> simp

theorem hasKey_of_not_holdsKey (hnull : key.isNull = false)
    (h : holdsKey column key row = false) :
    Table.hasKey row [column] [key] = false := by
  rw [← Bool.not_eq_true] at h ⊢
  intro hkey
  obtain ⟨stored, hstored, hequal, -⟩ := hasKey_cons.mp hkey
  rw [holdsKey, cell, hstored] at h
  exact h (valuesEqual_of_beq hequal ((Value.isNull_eq_of_beq hequal).trans hnull))

/-! ## Values that serve as keys -/

/-- The kinds of values whose equality in filters is identity. -/
inductive KeyKind
  | int
  | text
  | uuid
  | bytes
  | bool
deriving DecidableEq

/-- Whether a value is of a kind. -/
def KeyKind.has : KeyKind → Value → Bool
  | .int, .int _ => true
  | .text, .text _ => true
  | .uuid, .uuid _ => true
  | .bytes, .bytes _ => true
  | .bool, .bool _ => true
  | _, _ => false

variable {kind : KeyKind} {a b : Value}

theorem KeyKind.isNull (h : kind.has a = true) : a.isNull = false := by
  cases kind <;> cases a <;> first | rfl | cases h

theorem KeyKind.beq_iff (h : kind.has a = true) : (a == b) = true ↔ a = b := by
  constructor
  · exact Value.eq_of_beq_plain
      (by cases kind <;> cases a <;> first | rfl | cases h)
  · rintro rfl
    cases kind <;> cases a <;> cases h <;> simp [BEq.beq, Value.beq]

/-- Among values of one kind a filter finds equal only the same ones. -/
theorem KeyKind.valuesEqual_iff (ha : kind.has a = true) (hb : kind.has b = true) :
    valuesEqual a b = true ↔ a = b := by
  constructor
  · intro h
    rw [valuesEqual, KeyKind.isNull ha, KeyKind.isNull hb] at h
    cases kind <;> cases a <;> cases ha <;> cases b <;> cases hb
    · simpa [compareValues?, Int64.toInt_inj] using h
    · simpa [compareValues?] using h
    · exact congrArg Value.uuid (Vector.toList_inj.mp
        (eq_of_compareBytes (by simpa [compareValues?] using h)))
    · exact congrArg Value.bytes
        (eq_of_compareBytes (by simpa [compareValues?] using h))
    · simpa [compareValues?] using h
  · rintro rfl
    exact valuesEqual_of_beq ((KeyKind.beq_iff ha).mpr rfl) (KeyKind.isNull ha)

theorem valuesEqual_text {first second : String} :
    valuesEqual (.text first) (.text second) = true ↔ first = second := by
  have hkind (text : String) : KeyKind.text.has (.text text) = true := rfl
  rw [KeyKind.valuesEqual_iff (hkind first) (hkind second), Value.text.injEq]

end Store

end EntityMapper
