import EntityMapper.Value

/-!
# Equality of values

Equality of values is symmetric and transitive, and so is equality of documents.
It is not reflexive, since a NaN is equal to nothing; and it is wider than
identity, since the two zeros are equal. Two values that are both equal to a
third are therefore equal to one another, which is all that keys and snapshots
need.
-/

namespace EntityMapper

namespace Binary64

theorem numEq_iff {x y : Binary64} :
    x.numEq y = true ↔
      ∃ place, x.orderKey? = some place ∧ y.orderKey? = some place := by
  unfold numEq compare?
  cases x.orderKey? with
  | none => simp
  | some a =>
    cases y.orderKey? with
    | none => simp
    | some b =>
      have hcompare : (some (compare a b) == some Ordering.eq) = true ↔
          a = b := by simp
      rw [hcompare]
      constructor
      · rintro rfl
        exact ⟨a, rfl, rfl⟩
      · rintro ⟨place, ha, hb⟩
        exact Option.some.inj (ha.trans hb.symm)

theorem numEq_symm {x y : Binary64} (h : x.numEq y = true) : y.numEq x = true := by
  obtain ⟨place, hx, hy⟩ := numEq_iff.mp h
  exact numEq_iff.mpr ⟨place, hy, hx⟩

theorem numEq_trans {x y z : Binary64} (hxy : x.numEq y = true)
    (hyz : y.numEq z = true) : x.numEq z = true := by
  obtain ⟨place, hx, hy⟩ := numEq_iff.mp hxy
  obtain ⟨other, hy', hz⟩ := numEq_iff.mp hyz
  obtain rfl := Option.some.inj (hy.symm.trans hy')
  exact numEq_iff.mpr ⟨place, hx, hz⟩

end Binary64

namespace Json.Document

/-! ## Documents -/

/-- Whether documents of this kind are equal only if they are the same. -/
def isPlain : Document → Bool
  | .float _ | .array _ | .object _ => false
  | .null | .bool _ | .int _ | .string _ => true

theorem eq_of_beq_plain {a b : Document} (hplain : a.isPlain = true)
    (h : a.beq b = true) : a = b := by
  cases a <;> cases b <;> simp_all [beq, isPlain]

mutual

theorem beq_symm : (a b : Document) → a.beq b = true → b.beq a = true
  | .null, _, h => eq_of_beq_plain rfl h ▸ h
  | .bool _, _, h => eq_of_beq_plain rfl h ▸ h
  | .int _, _, h => eq_of_beq_plain rfl h ▸ h
  | .float x, b, h => by
    cases b with
    | float y => exact Binary64.numEq_symm h
    | _ => simp [beq] at h
  | .string _, _, h => eq_of_beq_plain rfl h ▸ h
  | .array items, b, h => by
    cases b with
    | array others => exact beqItems_symm items others h
    | _ => simp [beq] at h
  | .object members, b, h => by
    cases b with
    | object others => exact beqMembers_symm members others h
    | _ => simp [beq] at h

theorem beqItems_symm :
    (as bs : List Document) → beqItems as bs = true → beqItems bs as = true
  | [], [], _ => rfl
  | [], _ :: _, h => by simp [beqItems] at h
  | _ :: _, [], h => by simp [beqItems] at h
  | a :: as, b :: bs, h => by
    simp only [beqItems, Bool.and_eq_true] at h ⊢
    exact ⟨beq_symm a b h.1, beqItems_symm as bs h.2⟩

theorem beqMembers_symm : (as bs : List (String × Document)) →
    beqMembers as bs = true → beqMembers bs as = true
  | [], [], _ => rfl
  | [], _ :: _, h => by simp [beqMembers] at h
  | _ :: _, [], h => by simp [beqMembers] at h
  | (_, a) :: as, (_, b) :: bs, h => by
    simp only [beqMembers, Bool.and_eq_true, decide_eq_true_eq] at h ⊢
    exact ⟨⟨h.1.1.symm, beq_symm a b h.1.2⟩, beqMembers_symm as bs h.2⟩

end

mutual

theorem beq_trans :
    (a b c : Document) → a.beq b = true → b.beq c = true → a.beq c = true
  | .null, _, _, hab, hbc => eq_of_beq_plain rfl hab ▸ hbc
  | .bool _, _, _, hab, hbc => eq_of_beq_plain rfl hab ▸ hbc
  | .int _, _, _, hab, hbc => eq_of_beq_plain rfl hab ▸ hbc
  | .float x, b, c, hab, hbc => by
    cases b with
    | float y =>
      cases c with
      | float z => exact Binary64.numEq_trans hab hbc
      | _ => simp [beq] at hbc
    | _ => simp [beq] at hab
  | .string _, _, _, hab, hbc => eq_of_beq_plain rfl hab ▸ hbc
  | .array items, b, c, hab, hbc => by
    cases b with
    | array others =>
      cases c with
      | array more => exact beqItems_trans items others more hab hbc
      | _ => simp [beq] at hbc
    | _ => simp [beq] at hab
  | .object members, b, c, hab, hbc => by
    cases b with
    | object others =>
      cases c with
      | object more => exact beqMembers_trans members others more hab hbc
      | _ => simp [beq] at hbc
    | _ => simp [beq] at hab

theorem beqItems_trans : (as bs cs : List Document) → beqItems as bs = true →
    beqItems bs cs = true → beqItems as cs = true
  | [], [], _, _, hbc => hbc
  | [], _ :: _, _, hab, _ => by simp [beqItems] at hab
  | _ :: _, [], _, hab, _ => by simp [beqItems] at hab
  | _ :: _, _ :: _, [], _, hbc => by simp [beqItems] at hbc
  | a :: as, b :: bs, c :: cs, hab, hbc => by
    simp only [beqItems, Bool.and_eq_true] at hab hbc ⊢
    exact ⟨beq_trans a b c hab.1 hbc.1, beqItems_trans as bs cs hab.2 hbc.2⟩

theorem beqMembers_trans : (as bs cs : List (String × Document)) →
    beqMembers as bs = true → beqMembers bs cs = true → beqMembers as cs = true
  | [], [], _, _, hbc => hbc
  | [], _ :: _, _, hab, _ => by simp [beqMembers] at hab
  | _ :: _, [], _, hab, _ => by simp [beqMembers] at hab
  | _ :: _, _ :: _, [], _, hbc => by simp [beqMembers] at hbc
  | (_, a) :: as, (_, b) :: bs, (_, c) :: cs, hab, hbc => by
    simp only [beqMembers, Bool.and_eq_true, decide_eq_true_eq] at hab hbc ⊢
    exact ⟨⟨hab.1.1.trans hbc.1.1, beq_trans a b c hab.1.2 hbc.1.2⟩,
      beqMembers_trans as bs cs hab.2 hbc.2⟩

end

instance : PartialEquivBEq Document where
  symm := beq_symm _ _
  trans := beq_trans _ _ _

end Json.Document

namespace Value

/-! ## Values -/

/-- Whether values of this kind are equal only if they are the same. -/
def isPlain : Value → Bool
  | .float _ | .list _ | .json _ => false
  | .null | .bool _ | .int _ | .text _ | .bytes _ | .timestamp _ | .uuid _ => true

theorem eq_of_beq_plain {a b : Value} (hplain : a.isPlain = true)
    (h : a.beq b = true) : a = b := by
  cases a <;> cases b <;> simp_all [beq, isPlain]

theorem beq_self_plain {a : Value} (hplain : a.isPlain = true) :
    a.beq a = true := by
  cases a <;> simp_all [beq, isPlain]

mutual

theorem beq_symm : (a b : Value) → a.beq b = true → b.beq a = true
  | .null, _, h => eq_of_beq_plain rfl h ▸ h
  | .bool _, _, h => eq_of_beq_plain rfl h ▸ h
  | .int _, _, h => eq_of_beq_plain rfl h ▸ h
  | .float x, b, h => by
    cases b with
    | float y => exact Binary64.numEq_symm h
    | _ => simp [beq] at h
  | .text _, _, h => eq_of_beq_plain rfl h ▸ h
  | .bytes _, _, h => eq_of_beq_plain rfl h ▸ h
  | .timestamp _, _, h => eq_of_beq_plain rfl h ▸ h
  | .uuid _, _, h => eq_of_beq_plain rfl h ▸ h
  | .list items, b, h => by
    cases b with
    | list others => exact beqItems_symm items others h
    | _ => simp [beq] at h
  | .json d, b, h => by
    cases b with
    | json e => exact Json.Document.beq_symm d e h
    | _ => simp [beq] at h

theorem beqItems_symm :
    (as bs : List Value) → beqItems as bs = true → beqItems bs as = true
  | [], [], _ => rfl
  | [], _ :: _, h => by simp [beqItems] at h
  | _ :: _, [], h => by simp [beqItems] at h
  | a :: as, b :: bs, h => by
    simp only [beqItems, Bool.and_eq_true] at h ⊢
    exact ⟨beq_symm a b h.1, beqItems_symm as bs h.2⟩

end

mutual

theorem beq_trans :
    (a b c : Value) → a.beq b = true → b.beq c = true → a.beq c = true
  | .null, _, _, hab, hbc => eq_of_beq_plain rfl hab ▸ hbc
  | .bool _, _, _, hab, hbc => eq_of_beq_plain rfl hab ▸ hbc
  | .int _, _, _, hab, hbc => eq_of_beq_plain rfl hab ▸ hbc
  | .float x, b, c, hab, hbc => by
    cases b with
    | float y =>
      cases c with
      | float z => exact Binary64.numEq_trans hab hbc
      | _ => simp [beq] at hbc
    | _ => simp [beq] at hab
  | .text _, _, _, hab, hbc => eq_of_beq_plain rfl hab ▸ hbc
  | .bytes _, _, _, hab, hbc => eq_of_beq_plain rfl hab ▸ hbc
  | .timestamp _, _, _, hab, hbc => eq_of_beq_plain rfl hab ▸ hbc
  | .uuid _, _, _, hab, hbc => eq_of_beq_plain rfl hab ▸ hbc
  | .list items, b, c, hab, hbc => by
    cases b with
    | list others =>
      cases c with
      | list more => exact beqItems_trans items others more hab hbc
      | _ => simp [beq] at hbc
    | _ => simp [beq] at hab
  | .json d, b, c, hab, hbc => by
    cases b with
    | json e =>
      cases c with
      | json f => exact Json.Document.beq_trans d e f hab hbc
      | _ => simp [beq] at hbc
    | _ => simp [beq] at hab

theorem beqItems_trans : (as bs cs : List Value) → beqItems as bs = true →
    beqItems bs cs = true → beqItems as cs = true
  | [], [], _, _, hbc => hbc
  | [], _ :: _, _, hab, _ => by simp [beqItems] at hab
  | _ :: _, [], _, hab, _ => by simp [beqItems] at hab
  | _ :: _, _ :: _, [], _, hbc => by simp [beqItems] at hbc
  | a :: as, b :: bs, c :: cs, hab, hbc => by
    simp only [beqItems, Bool.and_eq_true] at hab hbc ⊢
    exact ⟨beq_trans a b c hab.1 hbc.1, beqItems_trans as bs cs hab.2 hbc.2⟩

end

instance : PartialEquivBEq Value where
  symm := beq_symm _ _
  trans := beq_trans _ _ _

theorem isNull_eq_of_beq {a b : Value} (h : (a == b) = true) :
    a.isNull = b.isNull := by
  cases a <;> cases b <;> first | rfl | cases h

theorem typeName_eq_of_beq {a b : Value} (h : (a == b) = true) :
    a.typeName = b.typeName := by
  cases a <;> cases b <;> first | rfl | cases h

theorem bound?_some (a : Value) :
    bound? (some a) = if a.isNull then none else some a := by
  cases a <;> rfl

theorem bound?_of_not_null {a : Value} (h : a.isNull = false) :
    bound? (some a) = some a := by
  cases a <;> first | rfl | cases h

/-- Values that may be absent, as a row gives them. -/
instance : PartialEquivBEq (Option Value) where
  symm {first second} h := by
    cases first with
    | none => cases second with
      | none => rfl
      | some _ => cases h
    | some a => cases second with
      | none => cases h
      | some b => exact PartialEquivBEq.symm (α := Value) h
  trans {first second third} h hnext := by
    cases first with
    | none => cases second with
      | none => exact hnext
      | some _ => cases h
    | some a => cases second with
      | none => cases h
      | some b => cases third with
        | none => cases hnext
        | some c => exact PartialEquivBEq.trans (α := Value) h hnext

end Value

end EntityMapper
