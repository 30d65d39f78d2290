import EntityMapper.Proofs.Json.Documents
import EntityMapper.Proofs.Json.Numbers
import EntityMapper.Proofs.Json.Strings

/-!
# Reading the text of a document

How a text is read that has a document in front: item by item and member by
member, each with whatever stands behind it. A text needs fuel for twice its
characters, since every step of the readers of arrays and objects takes a
character of its own. Whole numbers have to be in the range that documents hold,
and a strict reading needs a level for every array and object that it opens.
-/

namespace EntityMapper.Json

/-- The text is read as the tree, whatever stands behind it that ends a number. -/
def ReadsAs (strict : Bool) (depth : Nat) (text : List Char) (tree : Tree) : Prop :=
  ∀ fuel rest, 2 * text.length ≤ fuel → EndsNumber rest →
    readTree strict fuel depth (text ++ rest) = .ok (tree, rest)

/-! ## One value -/

section Values

variable (strict : Bool) (fuel depth : Nat)

theorem readTree_null (rest : List Char) :
    readTree strict (fuel + 1) depth ('n' :: 'u' :: 'l' :: 'l' :: rest) =
      .ok (.null, rest) := rfl

theorem readTree_true (rest : List Char) :
    readTree strict (fuel + 1) depth ('t' :: 'r' :: 'u' :: 'e' :: rest) =
      .ok (.bool true, rest) := rfl

theorem readTree_false (rest : List Char) :
    readTree strict (fuel + 1) depth ('f' :: 'a' :: 'l' :: 's' :: 'e' :: rest) =
      .ok (.bool false, rest) := rfl

theorem readTree_minus (rest : List Char) :
    readTree strict (fuel + 1) depth ('-' :: rest) =
      (readNumber strict true rest).map fun (n, more) => (.number n, more) := rfl

theorem readTree_quote (rest : List Char) :
    readTree strict (fuel + 1) depth ('"' :: rest) =
      (readString strict rest).map fun (s, more) => (.string s, more) := rfl

theorem isSpace_of_isDigit {c : Char} (h : Text.isDigit c = true) :
    isSpace c = false := by
  rw [Bool.eq_false_iff]
  intro hspace
  simp only [isSpace, Bool.or_eq_true, beq_iff_eq] at hspace
  obtain ((rfl | rfl) | rfl) | rfl := hspace <;> revert h <;> decide

theorem skipSpace_cons {c : Char} (h : isSpace c = false) (rest : List Char) :
    skipSpace (c :: rest) = c :: rest :=
  List.dropWhile_cons_of_neg (by simp [h])

theorem readTree_digit {c : Char} (h : Text.isDigit c = true) (rest : List Char) :
    readTree strict (fuel + 1) depth (c :: rest) =
      (readNumber strict false (c :: rest)).map
        fun (n, more) => (.number n, more) := by
  rw [readTree, skipSpace_cons (isSpace_of_isDigit h)]
  split
  all_goals try (next heq => exact absurd h ((List.cons.inj heq).1 ▸ by decide))
  · next heq => cases heq
  · next heq =>
    obtain ⟨rfl, rfl⟩ := List.cons.inj heq
    rw [if_pos h]

theorem readTree_bracket (h : strict = true → 1 < depth) (rest : List Char) :
    readTree strict (fuel + 1) depth ('[' :: rest) =
      (readItems strict fuel (depth - 1) true [] rest).map fun (items, more) =>
        (.array items, more) := by
  have hopen : ¬ (strict && decide (depth ≤ 1)) = true := by
    simpa using h
  exact if_neg hopen

theorem readTree_brace (h : strict = true → 1 < depth) (rest : List Char) :
    readTree strict (fuel + 1) depth ('\x7b' :: rest) =
      (readMembers strict fuel (depth - 1) true [] rest).map fun (members, more) =>
        (.object members, more) := by
  have hopen : ¬ (strict && decide (depth ≤ 1)) = true := by
    simpa using h
  exact if_neg hopen

end Values

/-! ## One item, one member -/

section Steps

variable {strict : Bool} {fuel depth : Nat} {text more : List Char} {tree : Tree}

/-- Space in front of a value does not count, and a value begins with no closing
bracket. -/
theorem skipSpace_of_readTree
    (h : readTree strict fuel depth text = .ok (tree, more)) :
    ∃ c rest, skipSpace text = c :: rest ∧ c ≠ ']' ∧
      readTree strict fuel depth (c :: rest) = .ok (tree, more) := by
  rcases fuel with _ | fuel
  · cases h
  rw [readTree] at h
  rcases hskip : skipSpace text with _ | ⟨c, rest⟩
  · rw [hskip] at h
    cases h
  · have hspace : isSpace c = false := by
      have hhead := List.head?_dropWhile_not isSpace text
      rwa [show text.dropWhile isSpace = c :: rest from hskip] at hhead
    have hread : readTree strict (fuel + 1) depth (c :: rest) =
        .ok (tree, more) := by
      rwa [readTree, skipSpace_cons hspace, ← hskip]
    refine ⟨c, rest, rfl, ?_, hread⟩
    rintro rfl
    cases hread

theorem readItems_item (h : readTree strict fuel depth text = .ok (tree, more))
    (first : Bool) (items : List Tree) :
    readItems strict (fuel + 1) depth first items
        (bif first then text else ',' :: text) =
      readItems strict fuel depth false (tree :: items) more := by
  obtain ⟨c, rest, hskip, hbracket, hread⟩ := skipSpace_of_readTree h
  cases first
  all_goals simp [readItems, skipSpace_cons (show isSpace ',' = false from rfl),
    hskip, hbracket, hread]

theorem readItems_first (h : readTree strict fuel depth text = .ok (tree, more))
    (items : List Tree) : readItems strict (fuel + 1) depth true items text =
      readItems strict fuel depth false (tree :: items) more :=
  readItems_item h true items

theorem readItems_next (h : readTree strict fuel depth text = .ok (tree, more))
    (items : List Tree) :
    readItems strict (fuel + 1) depth false items (',' :: text) =
      readItems strict fuel depth false (tree :: items) more :=
  readItems_item h false items

/-- The name of a member and its colon. -/
theorem readString_name (strict : Bool) (name : String) (rest : List Char) :
    ∃ body, stringChars name ++ ':' :: rest = '"' :: body ∧
      readString strict body = .ok (some name, ':' :: rest) :=
  ⟨_, by simp [stringChars], readString_stringChars strict name (':' :: rest)⟩

theorem readMembers_member (h : readTree strict fuel depth text = .ok (tree, more))
    (first : Bool) (name : String) (members : List (Option String × Tree)) :
    readMembers strict (fuel + 1) depth first members
        (bif first then stringChars name ++ ':' :: text else ',' ::
          (stringChars name ++ ':' :: text)) =
      readMembers strict fuel depth false ((some name, tree) :: members) more := by
  obtain ⟨body, hbody, hname⟩ := readString_name strict name text
  have hcolon : readColon (':' :: text) = .ok ((), text) := rfl
  rw [hbody]
  cases first
  all_goals simp [readMembers, skipSpace_cons (show isSpace ',' = false from rfl),
    skipSpace_cons (show isSpace '"' = false from rfl), hname, hcolon, h]

theorem readMembers_first (h : readTree strict fuel depth text = .ok (tree, more))
    (name : String) (members : List (Option String × Tree)) :
    readMembers strict (fuel + 1) depth true members
        (stringChars name ++ ':' :: text) =
      readMembers strict fuel depth false ((some name, tree) :: members) more :=
  readMembers_member h true name members

theorem readMembers_next (h : readTree strict fuel depth text = .ok (tree, more))
    (name : String) (members : List (Option String × Tree)) :
    readMembers strict (fuel + 1) depth false members
        (',' :: (stringChars name ++ ':' :: text)) =
      readMembers strict fuel depth false ((some name, tree) :: members) more :=
  readMembers_member h false name members

end Steps

/-! ## Items and members -/

/-- Texts behind the first, each with its comma. -/
def behindCommas (texts : List (List Char)) : List Char := texts.flatMap (',' :: ·)

theorem behindCommas_cons (text : List Char) (texts : List (List Char)) :
    behindCommas (text :: texts) = ',' :: (text ++ behindCommas texts) := by
  rw [behindCommas, List.flatMap_cons, List.cons_append, behindCommas]

theorem joinCommas_cons (text : List Char) (texts : List (List Char)) :
    joinCommas (text :: texts) = text ++ behindCommas texts := by
  induction texts generalizing text with
  | nil => simp [joinCommas, behindCommas]
  | cons next rest ih =>
    rw [joinCommas, ih next, behindCommas_cons]
    simp

theorem endsNumber_behindCommas (texts : List (List Char)) {c : Char}
    (hc : EndsNumber [c]) (rest : List Char) :
    EndsNumber (behindCommas texts ++ c :: rest) := by
  rcases texts with _ | ⟨text, texts⟩
  · exact hc
  · rintro d ⟨⟩
    decide

theorem endsNumber_bracket : EndsNumber [']'] := by
  rintro c ⟨⟩
  decide

theorem endsNumber_brace : EndsNumber ['\x7d'] := by
  rintro c ⟨⟩
  decide

section Lists

variable {strict : Bool} {depth : Nat}

theorem readItems_behindCommas {items : List Document}
    (h : ∀ d ∈ items, ReadsAs strict depth d.chars d.tree) {fuel : Nat}
    (hfuel : 2 * (behindCommas (items.map Document.chars)).length + 2 ≤ fuel)
    (read : List Tree) (rest : List Char) :
    readItems strict fuel depth false read
        (behindCommas (items.map Document.chars) ++ ']' :: rest) =
      .ok (read.reverse ++ items.map Document.tree, rest) := by
  induction items generalizing fuel read with
  | nil =>
    obtain ⟨fuel, rfl⟩ := Nat.exists_eq_succ_of_ne_zero (n := fuel) (by omega)
    simp [behindCommas, readItems,
      skipSpace_cons (show isSpace ']' = false from rfl)]
  | cons d items ih =>
    obtain ⟨fuel, rfl⟩ := Nat.exists_eq_succ_of_ne_zero (n := fuel) (by omega)
    obtain ⟨hd, hitems⟩ := List.forall_mem_cons.mp h
    rw [List.map_cons, behindCommas_cons] at hfuel ⊢
    simp only [List.length_cons, List.length_append] at hfuel
    have hends :=
      endsNumber_behindCommas (items.map Document.chars) endsNumber_bracket rest
    rw [List.cons_append, List.append_assoc]
    calc
      readItems strict (fuel + 1) depth false read (',' :: (d.chars ++
          (behindCommas (items.map Document.chars) ++ ']' :: rest))) =
        readItems strict fuel depth false (d.tree :: read)
          (behindCommas (items.map Document.chars) ++ ']' :: rest) :=
        readItems_next (hd fuel _ (by omega) hends) read
      _ = .ok ((d.tree :: read).reverse ++ items.map Document.tree, rest) :=
        ih hitems (by omega) _
      _ = .ok (read.reverse ++ (d :: items).map Document.tree, rest) := by
        rw [List.reverse_cons, List.append_assoc]
        rfl

theorem readMembers_behindCommas {members : List (String × Document)}
    (h : ∀ m ∈ members, ReadsAs strict depth m.2.chars m.2.tree) {fuel : Nat}
    (hfuel : 2 * (behindCommas (Document.memberTexts members)).length + 2 ≤ fuel)
    (read : List (Option String × Tree)) (rest : List Char) :
    readMembers strict fuel depth false read
      (behindCommas (Document.memberTexts members) ++ '\x7d' :: rest) =
        .ok (read.reverse ++ Document.memberTrees members, rest) := by
  induction members generalizing fuel read with
  | nil =>
    obtain ⟨fuel, rfl⟩ := Nat.exists_eq_succ_of_ne_zero (n := fuel) (by omega)
    simp [Document.memberTexts, Document.memberTrees, behindCommas, readMembers,
      skipSpace_cons (show isSpace '\x7d' = false from rfl)]
  | cons m members ih =>
    obtain ⟨name, value⟩ := m
    obtain ⟨fuel, rfl⟩ := Nat.exists_eq_succ_of_ne_zero (n := fuel) (by omega)
    obtain ⟨hvalue, hmembers⟩ := List.forall_mem_cons.mp h
    dsimp only at hvalue
    rw [Document.memberTexts, behindCommas_cons] at hfuel ⊢
    simp only [List.length_cons, List.length_append] at hfuel
    have hends :=
      endsNumber_behindCommas (Document.memberTexts members) endsNumber_brace rest
    rw [List.cons_append, List.append_assoc, List.append_assoc, List.cons_append]
    calc
      readMembers strict (fuel + 1) depth false read (',' ::
            (stringChars name ++ ':' :: (value.chars ++
                (behindCommas (Document.memberTexts members) ++ '\x7d' :: rest)))) =
          readMembers strict fuel depth false ((some name, value.tree) :: read)
            (behindCommas (Document.memberTexts members) ++ '\x7d' :: rest) :=
        readMembers_next (hvalue fuel _ (by omega) hends) name read
      _ = .ok (((some name, value.tree) :: read).reverse ++
          Document.memberTrees members, rest) :=
        ih hmembers (by omega) _
      _ = .ok (read.reverse ++ Document.memberTrees ((name, value) :: members),
          rest) := by
        rw [List.reverse_cons, List.append_assoc, Document.memberTrees]
        rfl

end Lists

/-! ## Whole documents -/

namespace Document

theorem chars_int (n : Int) : (int n).chars = (Decimal.intText n).toList := rfl

theorem chars_string (text : String) : (string text).chars = stringChars text := rfl

theorem chars_array (items : List Document) :
    (array items).chars = '[' :: joinCommas (items.map chars) ++ [']'] := by
  rw [← itemTexts_eq]
  rfl

theorem chars_object (members : List (String × Document)) :
    (object members).chars =
      '\x7b' :: joinCommas (memberTexts members) ++ ['\x7d'] := rfl

end Document

section Closed

variable {strict : Bool} {depth : Nat}

theorem readsAs_array {items : List Document} (hdepth : strict = true → 1 < depth)
    (h : ∀ d ∈ items, ReadsAs strict (depth - 1) d.chars d.tree) :
    ReadsAs strict depth (Document.array items).chars
      (Document.array items).tree := by
  intro fuel rest hfuel _
  rw [Document.chars_array] at hfuel ⊢
  rw [Document.tree, Document.trees_eq]
  obtain ⟨fuel, rfl⟩ := Nat.exists_eq_succ_of_ne_zero (n := fuel) (by
    simp only [List.length_append, List.length_cons] at hfuel
    omega)
  rw [List.cons_append, List.cons_append, List.append_assoc,
    readTree_bracket strict fuel depth hdepth]
  suffices hitems : readItems strict fuel (depth - 1) true []
      (joinCommas (items.map Document.chars) ++ ']' :: rest) =
        .ok (items.map Document.tree, rest) by
    rw [List.singleton_append, hitems]
    rfl
  rcases items with _ | ⟨d, items⟩
  · obtain ⟨fuel, rfl⟩ := Nat.exists_eq_succ_of_ne_zero (n := fuel) (by
      simp [joinCommas] at hfuel
      omega)
    rfl
  · obtain ⟨hd, hitems⟩ := List.forall_mem_cons.mp h
    rw [List.map_cons, joinCommas_cons] at hfuel ⊢
    simp only [List.length_append, List.length_cons, List.length_nil] at hfuel
    obtain ⟨fuel, rfl⟩ := Nat.exists_eq_succ_of_ne_zero (n := fuel) (by omega)
    have hends :=
      endsNumber_behindCommas (items.map Document.chars) endsNumber_bracket rest
    rw [List.append_assoc, readItems_first (hd fuel _ (by omega) hends),
      readItems_behindCommas hitems (by omega)]
    rfl

theorem readsAs_object {members : List (String × Document)}
    (hdepth : strict = true → 1 < depth)
    (h : ∀ m ∈ members, ReadsAs strict (depth - 1) m.2.chars m.2.tree) :
    ReadsAs strict depth (Document.object members).chars
      (Document.object members).tree := by
  intro fuel rest hfuel _
  rw [Document.chars_object] at hfuel ⊢
  rw [Document.tree]
  obtain ⟨fuel, rfl⟩ := Nat.exists_eq_succ_of_ne_zero (n := fuel) (by
    simp only [List.length_append, List.length_cons] at hfuel
    omega)
  rw [List.cons_append, List.cons_append, List.append_assoc,
    readTree_brace strict fuel depth hdepth]
  suffices hmembers : readMembers strict fuel (depth - 1) true []
      (joinCommas (Document.memberTexts members) ++ '\x7d' :: rest) =
        .ok (Document.memberTrees members, rest) by
    rw [List.singleton_append, hmembers]
    rfl
  rcases members with _ | ⟨⟨name, value⟩, members⟩
  · obtain ⟨fuel, rfl⟩ := Nat.exists_eq_succ_of_ne_zero (n := fuel) (by
      simp [joinCommas, Document.memberTexts] at hfuel
      omega)
    rfl
  · obtain ⟨hvalue, hmembers⟩ := List.forall_mem_cons.mp h
    dsimp only at hvalue
    rw [Document.memberTexts, joinCommas_cons] at hfuel ⊢
    simp only [List.length_append, List.length_cons, List.length_nil] at hfuel
    obtain ⟨fuel, rfl⟩ := Nat.exists_eq_succ_of_ne_zero (n := fuel) (by omega)
    have hends :=
      endsNumber_behindCommas (Document.memberTexts members) endsNumber_brace rest
    rw [List.append_assoc, List.append_assoc, List.cons_append,
      readMembers_first (hvalue fuel _ (by omega) hends),
      readMembers_behindCommas hmembers (by omega)]
    rfl

/-- The digits of a number that a word can hold are read as the number. -/
theorem readTree_toDigits {n : Nat} (h : n ≤ maxWord) (fuel : Nat)
    {rest : List Char} (hrest : EndsNumber rest) :
    readTree strict (fuel + 1) depth (Nat.toDigits 10 n ++ rest) =
      .ok (.number (some (.int n)), rest) := by
  have hread := readNumber_toDigits strict false h hrest
  obtain ⟨c, digits, hcons, hc⟩ := Decimal.exists_toDigits_eq_cons n
  rw [hcons, List.cons_append] at hread ⊢
  rw [readTree_digit strict fuel depth (Text.isDigit_of_isDigit hc), hread]
  rfl

theorem readsAs_int {n : Int} (h : (Document.int n).IsInRange) :
    ReadsAs strict depth (Document.int n).chars (Document.int n).tree := by
  intro fuel rest hfuel hrest
  obtain ⟨hlow, hhigh⟩ := h
  have hword : maxWord = 18446744073709551615 := rfl
  have hmin : Int64.minValue.toInt = -9223372036854775808 := rfl
  have hmax : Document.maxInt = 18446744073709551615 := rfl
  rw [Document.chars_int, Decimal.intText] at hfuel ⊢
  split at hfuel
  · next hneg =>
    rw [if_pos hneg]
    simp only [String.toList_append, Decimal.natText, String.toList_ofList,
      List.length_append] at hfuel ⊢
    have hminus : "-".toList = ['-'] := rfl
    rw [hminus] at hfuel ⊢
    obtain ⟨fuel, rfl⟩ := Nat.exists_eq_succ_of_ne_zero (n := fuel) (by
      simp only [List.length_singleton] at hfuel
      omega)
    rw [List.append_assoc, List.singleton_append, readTree_minus,
      readNumber_toDigits strict true (n := n.natAbs) (by omega) hrest]
    have hvalue : wholeValue true n.natAbs = .int n := by
      have hbound : 0 < n.natAbs ∧ n.natAbs ≤ Nat.pow 2 63 := by
        show 0 < n.natAbs ∧ n.natAbs ≤ 9223372036854775808
        omega
      rw [wholeValue, if_pos rfl, if_pos hbound]
      congr
      omega
    rw [hvalue]
    rfl
  · next hneg =>
    rw [if_neg hneg]
    simp only [Decimal.natText, String.toList_ofList] at hfuel ⊢
    obtain ⟨fuel, rfl⟩ := Nat.exists_eq_succ_of_ne_zero (n := fuel) (by
      have hlength := Nat.length_toDigits_pos (b := 10) (n := n.natAbs)
      omega)
    rw [readTree_toDigits (by omega) fuel hrest,
      Int.natAbs_of_nonneg (Int.not_lt.mp hneg)]
    rfl

theorem readsAs_string (text : String) :
    ReadsAs strict depth (Document.string text).chars
      (Document.string text).tree := by
  intro fuel rest hfuel _
  rw [Document.chars_string, stringChars, List.cons_append] at hfuel ⊢
  obtain ⟨fuel, rfl⟩ := Nat.exists_eq_succ_of_ne_zero (n := fuel) (by
    rw [List.length_cons] at hfuel
    omega)
  rw [List.cons_append, List.append_assoc, List.singleton_append, readTree_quote,
    readString_stringChars]
  rfl

/-- A word is read as soon as there is fuel for one step. -/
theorem readsAs_of_succ {text : List Char} {tree : Tree} (hsome : text ≠ [])
    (h : ∀ fuel rest, EndsNumber rest →
      readTree strict (fuel + 1) depth (text ++ rest) = .ok (tree, rest)) :
    ReadsAs strict depth text tree := by
  intro fuel rest hfuel hrest
  have hlength := List.length_pos_of_ne_nil hsome
  obtain ⟨fuel, rfl⟩ := Nat.exists_eq_succ_of_ne_zero (n := fuel) (by omega)
  exact h fuel rest hrest

theorem readsAs_null :
    ReadsAs strict depth Document.null.chars Document.null.tree :=
  readsAs_of_succ (List.cons_ne_nil _ _)
    fun fuel rest _ => readTree_null strict fuel depth rest

theorem readsAs_bool (b : Bool) :
    ReadsAs strict depth (Document.bool b).chars (Document.bool b).tree := by
  cases b with
  | true =>
    exact readsAs_of_succ (List.cons_ne_nil _ _) fun fuel rest _ =>
      readTree_true strict fuel depth rest
  | false =>
    exact readsAs_of_succ (List.cons_ne_nil _ _) fun fuel rest _ =>
      readTree_false strict fuel depth rest

end Closed

end EntityMapper.Json
