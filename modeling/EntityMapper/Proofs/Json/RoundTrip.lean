import EntityMapper.Proofs.Json.Reading

/-!
# Documents are read back from their text

The text of a document is read as the document, if whole numbers are in range,
the members of objects are in order, and no more levels are open than a reading
allows. Floating point numbers are written with few digits and read with several
roundings, so a number need not be read as itself; that it is, when it stands
alone, is a hypothesis about each number of the document.
-/

namespace EntityMapper.Json

/-! ## Floating point numbers -/

/-- A text without space. -/
def HasNoSpace (text : String) : Prop := ∀ c ∈ text.toList, isSpace c = false

instance (text : String) : Decidable (HasNoSpace text) :=
  List.decidableBAll (fun c => isSpace c = false) text.toList

theorem HasNoSpace.append {first second : String} (hfirst : HasNoSpace first)
    (hsecond : HasNoSpace second) : HasNoSpace (first ++ second) := by
  intro c hc
  rw [String.toList_append, List.mem_append] at hc
  exact hc.elim (hfirst c) (hsecond c)

theorem HasNoSpace.ite {p : Prop} [Decidable p] {first second : String}
    (hfirst : HasNoSpace first) (hsecond : HasNoSpace second) :
    HasNoSpace (if p then first else second) := by
  split
  · exact hfirst
  · exact hsecond

/-- Digits, also with zeros among them. -/
theorem hasNoSpace_digits {digits : List Char}
    (h : ∀ c ∈ digits, c.isDigit = true) : HasNoSpace (String.ofList digits) := by
  intro c hc
  rw [String.toList_ofList] at hc
  exact isSpace_of_isDigit (Text.isDigit_of_isDigit (h c hc))

theorem isDigit_of_mem_replicate {count : Nat} {c : Char}
    (h : c ∈ List.replicate count '0') : c.isDigit = true := by
  rw [List.eq_of_mem_replicate h]
  rfl

theorem hasNoSpace_intText (n : Int) : HasNoSpace (Decimal.intText n) := by
  have hnat : HasNoSpace (Decimal.natText n.natAbs) :=
    hasNoSpace_digits fun c => Decimal.isDigit_toDigits
  exact HasNoSpace.ite (HasNoSpace.append (by decide) hnat) hnat

theorem hasNoSpace_positionalText (wholePoint : Bool) (s : Decimal.Scientific) :
    HasNoSpace (Decimal.positionalText wholePoint s) := by
  have hdigits : ∀ c ∈ Nat.toDigits 10 s.digits, c.isDigit = true :=
    fun c => Decimal.isDigit_toDigits
  refine HasNoSpace.ite
    (HasNoSpace.append ?_ (HasNoSpace.ite (by decide) (by decide)))
    (HasNoSpace.ite (HasNoSpace.append (HasNoSpace.append ?_ (by decide)) ?_)
      (HasNoSpace.append (by decide) ?_))
  · refine hasNoSpace_digits fun c hc => ?_
    exact (List.mem_append.mp hc).elim (hdigits c) isDigit_of_mem_replicate
  · exact hasNoSpace_digits fun c hc => hdigits c (List.mem_of_mem_take hc)
  · exact hasNoSpace_digits fun c hc => hdigits c (List.mem_of_mem_drop hc)
  · refine hasNoSpace_digits fun c hc => ?_
    exact (List.mem_append.mp hc).elim isDigit_of_mem_replicate (hdigits c)

theorem hasNoSpace_exponentText (plusSign : Bool) (s : Decimal.Scientific) :
    HasNoSpace (Decimal.exponentText plusSign s) := by
  have hdigits : ∀ c ∈ Nat.toDigits 10 s.digits, c.isDigit = true :=
    fun c => Decimal.isDigit_toDigits
  have hfirst :=
    hasNoSpace_digits fun c hc => hdigits c (List.mem_of_mem_take (i := 1) hc)
  have hothers :=
    hasNoSpace_digits fun c hc => hdigits c (List.mem_of_mem_drop (i := 1) hc)
  exact ((((hfirst.append (.ite (by decide) (.append (by decide) hothers))).append
        (by decide)).append (.ite (by decide) (by decide))).append
    (hasNoSpace_intText _))

theorem hasNoSpace_layout {layout : Decimal.Layout}
    (hnan : HasNoSpace layout.nan) (hinfinity : HasNoSpace layout.infinity)
    (hnegative : HasNoSpace layout.negativeInfinity) (x : Binary64) :
    HasNoSpace (layout.text x) := by
  refine .ite hnan (.ite (.ite hnegative hinfinity) ?_)
  refine .append (.ite (by decide) (by decide)) ?_
  exact .ite (hasNoSpace_positionalText _ _) (hasNoSpace_exponentText _ _)

theorem hasNoSpace_json (x : Binary64) : HasNoSpace (Decimal.Layout.json.text x) :=
  hasNoSpace_layout (by decide) (by decide) (by decide) x

theorem exists_of_map {ε α β : Type} {x : Except ε α} {f : α → β} {b : β}
    (h : x.map f = .ok b) : ∃ a, x = .ok a ∧ f a = b := by
  cases x with
  | error e => cases h
  | ok a => exact ⟨a, rfl, Except.ok.inj h⟩

/-- A number that is read alone is read in front of other text. -/
theorem readTree_number_append {strict : Bool} {fuel depth : Nat}
    {text more : List Char} {n : Option Number}
    (hspace : ∀ c ∈ text, isSpace c = false)
    (h : readTree strict (fuel + 1) depth text = .ok (.number n, more)) :
    more <:+ text ∧ ∀ fuel depth rest, EndsNumber rest →
      readTree strict (fuel + 1) depth (text ++ rest) =
        .ok (.number n, more ++ rest) := by
  have hskip : skipSpace text = text := by
    rcases text with _ | ⟨c, text⟩
    · rfl
    · exact skipSpace_cons (hspace c (List.mem_cons_self ..)) text
  rw [readTree, hskip] at h
  split at h
  case h_1 => cases h
  case h_2 | h_3 | h_4 | h_6 =>
    obtain ⟨_, -, heq⟩ := exists_of_map h
    cases heq
  case h_7 | h_8 =>
    split at h
    · cases h
    · obtain ⟨_, -, heq⟩ := exists_of_map h
      cases heq
  case h_5 part =>
    obtain ⟨⟨n, more⟩, hread, heq⟩ := exists_of_map h
    obtain ⟨hn, rfl⟩ := Prod.mk.inj heq
    obtain rfl := Tree.number.inj hn
    obtain ⟨hsuffix, hlocal⟩ := local_readNumber strict true part n more hread
    refine ⟨hsuffix.trans (List.suffix_cons _ part),
      fun fuel depth rest hrest => ?_⟩
    rw [List.cons_append, readTree_minus, hlocal rest hrest]
    rfl
  case h_9 c part _ _ _ _ _ _ _ =>
    split at h
    · next hdigit =>
      obtain ⟨⟨n, more⟩, hread, heq⟩ := exists_of_map h
      obtain ⟨hn, rfl⟩ := Prod.mk.inj heq
      obtain rfl := Tree.number.inj hn
      obtain ⟨hsuffix, hlocal⟩ :=
        local_readNumber strict false (c :: part) n more hread
      refine ⟨hsuffix, fun fuel depth rest hrest => ?_⟩
      have hafter := hlocal rest hrest
      rw [List.cons_append] at hafter ⊢
      rw [readTree_digit strict fuel depth hdigit, hafter]
      rfl
    · cases h

/-! ## Whole documents -/

theorem read_eq_ok {strict : Bool} {text : List Char} {tree : Tree}
    (h : ReadsAs strict levels text tree) : Tree.read strict text = .ok tree := by
  have hread := h (2 * text.length + 2) [] (by omega) endsNumber_nil
  rw [List.append_nil] at hread
  simp only [Tree.read, hread]
  rfl

namespace Document

/-- A floating point number is read as itself when its text stands alone. -/
def IsReread : Document → Prop
  | .float x => read (chars (.float x)) = .ok (.float x)
  | _ => True

/-- Whether the text of a number is read as the number. -/
def rereads (x : Binary64) : Bool :=
  match read (chars (.float x)) with
  | .ok (.float y) => decide (y = x)
  | _ => false

theorem isReread_float_iff {x : Binary64} :
    (float x).IsReread ↔ rereads x = true := by
  unfold IsReread rereads
  dsimp only
  split
  · next y hy => simp [hy]
  · next hother => exact iff_of_false (hother x) (by simp)

instance : DecidablePred IsReread
  | .float _ => decidable_of_iff' _ isReread_float_iff
  | .null | .bool _ | .int _ | .string _ | .array _ | .object _ => isTrue trivial

theorem tree_of_document?_float {tree : Tree} {depth : Nat} {x : Binary64}
    (h : tree.document? depth = some (.float x)) :
    tree = .number (some (.float x)) := by
  unfold Tree.document? at h
  split at h <;> simp_all [ofMembers]

/-- A number that is read back alone is read back anywhere. -/
theorem readsAs_float {x : Binary64} (h : (float x).IsReread) (depth : Nat) :
    ReadsAs true depth (float x).chars (float x).tree := by
  have hspace : ∀ c ∈ (float x).chars, isSpace c = false := hasNoSpace_json x
  have hread : read (float x).chars = .ok (.float x) := h
  rw [read, Tree.read] at hread
  split at hread
  · cases hread
  next tree htree =>
  split at htree
  · cases htree
  next value more hvalue =>
  split at htree
  case h_2 => cases htree
  next hmore =>
  obtain rfl := Except.ok.inj htree
  split at hread
  case h_2 => cases hread
  next document hdocument =>
  obtain rfl := Except.ok.inj hread
  obtain rfl := tree_of_document?_float hdocument
  obtain ⟨hsuffix, happend⟩ := readTree_number_append hspace hvalue
  obtain rfl : more = [] := by
    rcases more with _ | ⟨c, more⟩
    · rfl
    · rw [skipSpace_cons (hspace c (hsuffix.subset (List.mem_cons_self ..)))]
        at hmore
      cases hmore
  refine readsAs_of_succ ?_ fun fuel rest => ?_
  · rintro hnil
    rw [hnil] at hvalue
    cases hvalue
  · exact fun hrest => happend fuel depth rest hrest

/-- Every document is read as it is written: item by item, member by member. -/
theorem readsAs_chars {strict : Bool} {d : Document} :
    ∀ {depth : Nat}, (strict = true → d.nesting < depth) → d.Throughout IsInRange →
      (∀ x, .float x ∈ d.parts →
        ∀ depth, ReadsAs strict depth (float x).chars (float x).tree) →
      ReadsAs strict depth d.chars d.tree := by
  induction d using induction_on with
  | null => exact fun _ _ _ => readsAs_null
  | bool b => exact fun _ _ _ => readsAs_bool b
  | int n => exact fun _ hrange _ => readsAs_int hrange.self
  | float x => exact fun _ _ hfloats => hfloats x (mem_parts_self _) _
  | string s => exact fun _ _ _ => readsAs_string s
  | array items ih =>
    intro depth hdepth hrange hfloats
    have hitems := (throughout_array.mp hrange).2
    refine readsAs_array (fun hstrict => (nesting_array_lt.mp (hdepth hstrict)).1)
      fun d hd => ?_
    exact ih d hd (fun hstrict => (nesting_array_lt.mp (hdepth hstrict)).2 d hd)
      (hitems d hd) fun x hx => hfloats x (mem_parts_array.mpr (.inr ⟨d, hd, hx⟩))
  | object members ih =>
    intro depth hdepth hrange hfloats
    have hmembers := (throughout_object.mp hrange).2
    refine readsAs_object
      (fun hstrict => (nesting_object_lt.mp (hdepth hstrict)).1) fun m hm => ?_
    exact ih m hm (fun hstrict => (nesting_object_lt.mp (hdepth hstrict)).2 m hm)
      (hmembers m hm)
      fun x hx => hfloats x (mem_parts_object.mpr (.inr ⟨m, hm, hx⟩))

/-- A document without floating point numbers is read leniently, whatever its
levels. -/
theorem read_lenient {d : Document} (hrange : d.Throughout IsInRange)
    (hfloats : ∀ x, .float x ∉ d.parts) : Tree.read false d.chars = .ok d.tree :=
  read_eq_ok (readsAs_chars (by simp) hrange fun x hx => absurd hx (hfloats x))

/-- The text of a document is read as the document. -/
theorem read_chars {d : Document} (hdepth : d.nesting < levels) (hwf : d.WellFormed)
    (hfloats : d.Throughout IsReread) : read d.chars = .ok d := by
  have hreads : ReadsAs true levels d.chars d.tree :=
    readsAs_chars (fun _ => hdepth) (fun p hp => (hwf p hp).2)
      fun x hx => readsAs_float (hfloats _ hx)
  simp only [read, read_eq_ok hreads,
    document?_tree hdepth fun p hp => (hwf p hp).1]

end Document

end EntityMapper.Json
