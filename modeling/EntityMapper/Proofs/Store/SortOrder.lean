import EntityMapper.Proofs.Store.Comparison

/-!
# How far the sort order is an order

A sorted result compares values by `sortOrder`, which finds every value equal to
itself and is turned around when its sides are. But it is not transitive. Values
without an order among them count as equal, so a text is equal to each of two
numbers of which one is greater; and since an integer is rounded when it meets a
floating point number, two different integers can be equal to the same one.

This module says on which values the order is one. Kinds of values fall into
families, such that the values of a family are placed by one key: whole numbers
and timestamps by their number, for example, or values without an order by
nothing at all. Together with null the values of one family are preordered
(`preorderOn_family`), and as soon as kinds of two families meet they are not
(`bridges_of_family_ne`). What fails is always the same: of two values of one
kind the greater one is equal to a value of the other kind, and that one is
equal to the smaller.
-/

namespace EntityMapper

namespace Store

/-! ## Reflexivity and symmetry -/

theorem compareValues?_self (a : Value) :
    ∀ order ∈ compareValues? a a, order = .eq := by
  cases a with
  | float x =>
    intro order horder
    simp only [compareValues?, Binary64.compare?] at horder
    cases hplace : x.orderKey? with
    | none => simp [hplace] at horder
    | some place => simpa [hplace, eq_comm] using horder
  | bytes x => simp [compareValues?, compareBytes_self]
  | uuid x => simp [compareValues?, compareBytes_self]
  | _ => simp [compareValues?]

theorem sortOrder_self (a : Value) : sortOrder a a = .eq := by
  have hself := compareValues?_self a
  unfold sortOrder
  cases a.isNull with
  | true => rfl
  | false =>
    cases hcompare : compareValues? a a with
    | none => rfl
    | some order => exact hself order hcompare

theorem sortOrder_swap (a b : Value) : sortOrder b a = (sortOrder a b).swap := by
  unfold sortOrder
  cases a.isNull <;> cases b.isNull
  case false.false =>
    rw [compareValues?_swap a b]
    cases compareValues? a b <;> rfl
  all_goals rfl

/-! ## Kinds and families -/

/-- The kinds of values as sorting tells them apart. A NaN is a kind of its own. -/
inductive SortKind
  | null
  | bool
  | int
  | float
  | nan
  | text
  | bytes
  | timestamp
  | uuid
  | list
  | json
deriving DecidableEq

/-- The kind of a value. -/
def SortKind.of : Value → SortKind
  | .null => .null
  | .bool _ => .bool
  | .int _ => .int
  | .float x => if x.isNaN then .nan else .float
  | .text _ => .text
  | .bytes _ => .bytes
  | .timestamp _ => .timestamp
  | .uuid _ => .uuid
  | .list _ => .list
  | .json _ => .json

/-- What the values of a kind are placed by. -/
inductive SortFamily
  | bool
  | whole
  | float
  | text
  | bytes
  | uuid
  | unordered
deriving DecidableEq

/-- The family of a kind. Null belongs to none, it comes before all. -/
def SortKind.family? : SortKind → Option SortFamily
  | .null => none
  | .bool => some .bool
  | .int | .timestamp => some .whole
  | .float => some .float
  | .text => some .text
  | .bytes => some .bytes
  | .uuid => some .uuid
  | .nan | .list | .json => some .unordered

/-- Of kinds with a certain property no two belong to different families. -/
def OneFamily (kinds : SortKind → Prop) : Prop :=
  ∀ k l, kinds k → kinds l → k.family?.isSome → l.family?.isSome →
    k.family? = l.family?

/-- A value is null or of a family. -/
def OfFamily (f : SortFamily) (a : Value) : Prop :=
  a.isNull = true ∨ (SortKind.of a).family? = some f

/-- A value whose kind is of no family is null. -/
theorem isNull_or_isSome_family (a : Value) :
    a.isNull = true ∨ (SortKind.of a).family?.isSome := by
  cases a with
  | null => exact .inl rfl
  | float x =>
    exact .inr (by
      cases hnan : x.isNaN <;> simp [SortKind.of, SortKind.family?, hnan])
  | _ => exact .inr rfl

/-- Where the kinds are of one family, there is a family that all their values
are of. -/
theorem OneFamily.exists_family {kinds : SortKind → Prop} (h : OneFamily kinds) :
    ∃ f, ∀ a, kinds (SortKind.of a) → OfFamily f a := by
  by_cases hsome : ∃ k, kinds k ∧ k.family?.isSome
  · obtain ⟨k, hk, hksome⟩ := hsome
    refine ⟨k.family?.get hksome, fun a ha => ?_⟩
    rcases isNull_or_isSome_family a with hnull | hasome
    · exact .inl hnull
    · exact .inr ((h _ _ ha hk hasome hksome).trans (Option.some_get hksome).symm)
  · refine ⟨.bool, fun a ha => ?_⟩
    rcases isNull_or_isSome_family a with hnull | hasome
    · exact .inl hnull
    · exact absurd ⟨_, ha, hasome⟩ hsome

/-! ## Preorders -/

/-- On certain values the sort order is transitive, and so is equality in it. -/
structure PreorderOn (values : Value → Prop) : Prop where
  trans : ∀ a b c, values a → values b → values c →
    (sortOrder a b).isLE → (sortOrder b c).isLE → (sortOrder a c).isLE
  equal : ∀ a b c, values a → values b → values c →
    sortOrder a b = .eq → sortOrder b c = .eq → sortOrder a c = .eq

/-- Values that are compared by a key are preordered. -/
theorem preorderOn_of_key {κ : Type} [Ord κ] [Std.TransOrd κ]
    {values : Value → Prop} (key : Value → κ)
    (h : ∀ a b, values a → values b → sortOrder a b = compare (key a) (key b)) :
    PreorderOn values where
  trans a b c ha hb hc hab hbc := by
    rw [h a b ha hb] at hab
    rw [h b c hb hc] at hbc
    rw [h a c ha hc]
    exact Std.TransCmp.isLE_trans hab hbc
  equal a b c ha hb hc hab hbc := by
    rw [h a b ha hb] at hab
    rw [h b c hb hc] at hbc
    rw [h a c ha hc]
    exact Std.TransCmp.eq_trans hab hbc

theorem PreorderOn.mono {values others : Value → Prop} (h : PreorderOn values)
    (hsub : ∀ a, others a → values a) : PreorderOn others where
  trans a b c ha hb hc := h.trans a b c (hsub a ha) (hsub b hb) (hsub c hc)
  equal a b c ha hb hc := h.equal a b c (hsub a ha) (hsub b hb) (hsub c hc)

/-- The number of a whole number or a timestamp. -/
def wholeKey? : Value → Option Int
  | .int n => some n.toInt
  | .timestamp t => some t.toInt
  | _ => none

/-- The place of a floating point number. -/
def floatKey? : Value → Option Int
  | .float x => x.orderKey?
  | _ => none

/-- The numbers of a string of bytes. -/
def bytesKey? : Value → Option (List Nat)
  | .bytes b => some (b.map UInt8.toNat)
  | .uuid u => some (u.toList.map UInt8.toNat)
  | _ => none

theorem compareBytes_eq (first second : List UInt8) :
    compareBytes first second =
      compare (first.map UInt8.toNat) (second.map UInt8.toNat) := by
  induction first generalizing second with
  | nil => cases second <;> rfl
  | cons a rest ih =>
    cases second with
    | nil => rfl
    | cons b others =>
      calc
        compareBytes (a :: rest) (b :: others) =
            (compare a.toNat b.toNat).then (compareBytes rest others) := by
          rw [compareBytes]
        _ = (compare a.toNat b.toNat).then
            (compare (rest.map UInt8.toNat) (others.map UInt8.toNat)) := by rw [ih]
        _ = compare ((a :: rest).map UInt8.toNat)
            ((b :: others).map UInt8.toNat) := by
          rw [List.map_cons, List.map_cons, List.compare_cons_cons]

/-- What is null is null, and a value of a family is of one of its kinds. -/
theorem OfFamily.eq_or {f : SortFamily} {a : Value} (h : OfFamily f a) :
    a = .null ∨ match f with
      | .bool => ∃ x, a = .bool x
      | .whole => (∃ n, a = .int n) ∨ ∃ t, a = .timestamp t
      | .float => ∃ x place, a = .float x ∧ x.orderKey? = some place
      | .text => ∃ s, a = .text s
      | .bytes => ∃ x, a = .bytes x
      | .uuid => ∃ u, a = .uuid u
      | .unordered => a.isNull = false ∧ ∀ b, compareValues? a b = none := by
  rcases h with hnull | hfamily
  · cases a with
    | null => exact .inl rfl
    | _ => cases hnull
  · cases a with
    | null => cases hfamily
    | float x =>
      cases hnan : x.isNaN with
      | true =>
        have hnone : x.orderKey? = none := by rw [Binary64.orderKey?, hnan]; rfl
        obtain rfl : SortFamily.unordered = f := by
          simpa [SortKind.of, SortKind.family?, hnan] using hfamily
        refine .inr ⟨rfl, fun b => ?_⟩
        cases b <;> simp [compareValues?, Binary64.compare?, hnone]
      | false =>
        obtain rfl : SortFamily.float = f := by
          simpa [SortKind.of, SortKind.family?, hnan] using hfamily
        exact .inr ⟨x, _, rfl, by rw [Binary64.orderKey?, hnan]; rfl⟩
    | list items =>
      obtain rfl := Option.some.inj hfamily
      exact .inr ⟨rfl, fun b => by cases b <;> rfl⟩
    | json d =>
      obtain rfl := Option.some.inj hfamily
      exact .inr ⟨rfl, fun b => by cases b <;> rfl⟩
    | int n =>
      obtain rfl := Option.some.inj hfamily
      exact .inr (.inl ⟨n, rfl⟩)
    | timestamp t =>
      obtain rfl := Option.some.inj hfamily
      exact .inr (.inr ⟨t, rfl⟩)
    | _ =>
      obtain rfl := Option.some.inj hfamily
      exact .inr ⟨_, rfl⟩

/-- Null and the values of one family are preordered: each family has its key. -/
theorem preorderOn_family (f : SortFamily) : PreorderOn (OfFamily f) := by
  cases f with
  | bool =>
    refine preorderOn_of_key Value.asBool? fun a b ha hb => ?_
    rcases ha.eq_or with rfl | ⟨x, rfl⟩ <;>
      rcases hb.eq_or with rfl | ⟨y, rfl⟩ <;> rfl
  | whole =>
    refine preorderOn_of_key wholeKey? fun a b ha hb => ?_
    rcases ha.eq_or with rfl | ⟨x, rfl⟩ | ⟨x, rfl⟩ <;>
      rcases hb.eq_or with rfl | ⟨y, rfl⟩ | ⟨y, rfl⟩ <;> rfl
  | float =>
    refine preorderOn_of_key floatKey? fun a b ha hb => ?_
    rcases ha.eq_or with rfl | ⟨x, place, rfl, hx⟩ <;>
      rcases hb.eq_or with rfl | ⟨y, other, rfl, hy⟩
    · rfl
    · change Ordering.lt = compare none y.orderKey?
      rw [hy]
      rfl
    · change Ordering.gt = compare x.orderKey? none
      rw [hx]
      rfl
    · change (x.compare? y).getD .eq = compare x.orderKey? y.orderKey?
      rw [Binary64.compare?, hx, hy]
      rfl
  | text =>
    refine preorderOn_of_key Value.asText? fun a b ha hb => ?_
    rcases ha.eq_or with rfl | ⟨x, rfl⟩ <;>
      rcases hb.eq_or with rfl | ⟨y, rfl⟩ <;> rfl
  | bytes =>
    refine preorderOn_of_key bytesKey? fun a b ha hb => ?_
    rcases ha.eq_or with rfl | ⟨x, rfl⟩ <;> rcases hb.eq_or with rfl | ⟨y, rfl⟩
    · rfl
    · rfl
    · rfl
    · exact compareBytes_eq x y
  | uuid =>
    refine preorderOn_of_key bytesKey? fun a b ha hb => ?_
    rcases ha.eq_or with rfl | ⟨x, rfl⟩ <;> rcases hb.eq_or with rfl | ⟨y, rfl⟩
    · rfl
    · rfl
    · rfl
    · exact compareBytes_eq x.toList y.toList
  | unordered =>
    -- there is one place behind null, and every value is in it
    have hnull : Value.null.isNull = true := rfl
    refine preorderOn_of_key (fun a => !a.isNull) fun a b ha hb => ?_
    rcases ha.eq_or with rfl | ⟨hx, hnone⟩ <;> rcases hb.eq_or with rfl | ⟨hy, -⟩
    · rfl
    · rw [sortOrder, hnull, hy]
      rfl
    · rw [sortOrder, hnull, hx]
      rfl
    · rw [sortOrder, hx, hy, hnone b]
      rfl

/-! ## Two families -/

/-- A value of a kind; of a kind with an order, a small one. -/
def SortKind.low : SortKind → Value
  | .null => .null
  | .bool => .bool false
  | .int => .int 9007199254740992
  | .float => .float (.ofInt 9007199254740992)
  | .nan => .float .nan
  | .text => .text ""
  | .bytes => .bytes []
  | .timestamp => .timestamp 0
  | .uuid => .uuid (.replicate 16 0)
  | .list => .list []
  | .json => .json .null

/-- A greater value of a kind, if the kind has an order. The greater integer and
the smaller one are rounded to one floating point number. -/
def SortKind.high : SortKind → Value
  | .bool => .bool true
  | .int => .int 9007199254740993
  | .float => .float (.infinity false)
  | .text => .text "a"
  | .bytes => .bytes [0]
  | .timestamp => .timestamp 1
  | .uuid => .uuid (.replicate 16 1)
  | k => k.low

theorem SortKind.of_low (k : SortKind) : SortKind.of k.low = k := by cases k <;> rfl

theorem SortKind.of_high (k : SortKind) : SortKind.of k.high = k := by
  cases k <;> rfl

/-- A value of the second kind is equal to a greater and to a smaller value of
the first. -/
structure Bridges (k l : SortKind) : Prop where
  down : sortOrder k.high l.low = .eq
  up : sortOrder l.low k.low = .eq
  apart : sortOrder k.high k.low = .gt

theorem bridges_of_family_ne {k l : SortKind} (hk : k.family?.isSome)
    (hl : l.family?.isSome) (h : k.family? ≠ l.family?) :
    Bridges k l ∨ Bridges l k := by
  cases k <;> cases l <;> first
    | exact absurd rfl h
    | exact absurd hk (by decide)
    | exact absurd hl (by decide)
    | exact .inl ⟨rfl, rfl, rfl⟩
    | exact .inr ⟨rfl, rfl, rfl⟩

/-- Values that stand in the way of each other are not preordered. -/
theorem Bridges.not_preorderOn {kinds : SortKind → Prop} {k l : SortKind}
    (h : Bridges k l) (hk : kinds k) (hl : kinds l) :
    ¬PreorderOn fun a => kinds (SortKind.of a) := by
  intro hpreorder
  have hle :=
    hpreorder.trans k.high l.low k.low (by rwa [k.of_high]) (by rwa [l.of_low])
      (by rwa [k.of_low]) (by rw [h.down]; rfl) (by rw [h.up]; rfl)
  rw [h.apart] at hle
  cases hle

/-- **The sort order is a preorder on one family at a time.** Every value is
equal to itself, and the order of two values is turned around with them. But the
values of several kinds are preordered if and only if no two of the kinds belong
to different families. -/
theorem sortOrder_total_iff (a b : Value) (kinds : SortKind → Prop) :
    sortOrder a a = .eq ∧ sortOrder b a = (sortOrder a b).swap ∧
      (PreorderOn (fun v => kinds (SortKind.of v)) ↔ OneFamily kinds) := by
  refine ⟨sortOrder_self a, sortOrder_swap a b,
    ⟨fun hpreorder k l hk hl hksome hlsome => ?_, fun hone => ?_⟩⟩
  · refine Decidable.byContradiction fun hne => ?_
    rcases bridges_of_family_ne hksome hlsome hne with hbridges | hbridges
    · exact hbridges.not_preorderOn hk hl hpreorder
    · exact hbridges.not_preorderOn hl hk hpreorder
  · obtain ⟨f, hf⟩ := hone.exists_family
    exact (preorderOn_family f).mono fun a ha => hf a ha

/-- The sort order is not transitive, and neither is equality in it. Of two
integers beyond the precision of a floating point number the greater one is
equal to what the smaller one is rounded to; and two different integers are
equal to a text. -/
theorem sortOrder_not_transitive :
    (¬∀ a b c, (sortOrder a b).isLE → (sortOrder b c).isLE → (sortOrder a c).isLE) ∧
        ¬∀ a b c, sortOrder a b = .eq →
      sortOrder b c = .eq → sortOrder a c = .eq := by
  constructor
  · intro htrans
    have hle := htrans (.int 9007199254740993) (.float ⟨0x4340000000000000⟩)
      (.int 9007199254740992) rfl rfl
    cases hle
  · intro htrans
    have hequal := htrans (.int 0) (.text "a") (.int 1) rfl rfl
    cases hequal

end Store

end EntityMapper
