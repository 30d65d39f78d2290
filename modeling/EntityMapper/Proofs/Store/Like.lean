import EntityMapper.Store.Like
import Mathlib.Data.List.Forall2

/-!
# The language of a pattern

A pattern matches a text iff the text can be cut into pieces, one for each
character of the pattern, that the characters stand for. The matcher tries every
end of the text behind a percent sign; a cut says nothing about the order in
which pieces are tried, so it can be read from the right as well.
-/

namespace EntityMapper.Store

/-- The pieces that a character of a pattern stands for. -/
def StandsFor (c : Char) (piece : List Char) : Prop :=
  if c = '%' then True else if c = '_' then piece.length = 1 else piece = [c]

/-- A text that can be cut into pieces, one for each character of a pattern. -/
def Cut (pattern text : List Char) : Prop :=
  ∃ pieces : List (List Char), pieces.flatten = text ∧
    List.Forall₂ StandsFor pattern pieces

/-! ## Pieces -/

theorem standsFor_percent (piece : List Char) : StandsFor '%' piece := by
  simp [StandsFor]

theorem standsFor_underscore {piece : List Char} :
    StandsFor '_' piece ↔ piece.length = 1 := by
  simp [StandsFor]

theorem standsFor_other {c : Char} (hpercent : c ≠ '%') (hunderscore : c ≠ '_')
    {piece : List Char} : StandsFor c piece ↔ piece = [c] := by
  rw [StandsFor, if_neg hpercent, if_neg hunderscore]

theorem standsFor_reverse {c : Char} {piece : List Char} :
    StandsFor c piece.reverse ↔ StandsFor c piece := by
  unfold StandsFor
  rw [List.length_reverse, List.reverse_eq_iff, List.reverse_singleton]

/-! ## Cuts -/

theorem cut_nil {text : List Char} : Cut [] text ↔ text = [] := by
  constructor
  · rintro ⟨pieces, rfl, hpieces⟩
    rw [List.forall₂_nil_left_iff.mp hpieces]
    rfl
  · rintro rfl
    exact ⟨[], rfl, .nil⟩

theorem cut_cons {c : Char} {pattern text : List Char} : Cut (c :: pattern) text ↔
    ∃ piece rest, text = piece ++ rest ∧ StandsFor c piece ∧ Cut pattern rest := by
  constructor
  · rintro ⟨pieces, rfl, hpieces⟩
    obtain ⟨piece, others, hpiece, hothers, rfl⟩ :=
      List.forall₂_cons_left_iff.mp hpieces
    exact ⟨piece, others.flatten, List.flatten_cons, hpiece, others, rfl, hothers⟩
  · rintro ⟨piece, rest, rfl, hpiece, pieces, rfl, hpieces⟩
    exact ⟨piece :: pieces, List.flatten_cons, .cons hpiece hpieces⟩

theorem cut_percent {pattern text : List Char} :
    Cut ('%' :: pattern) text ↔ ∃ rest, rest <:+ text ∧ Cut pattern rest := by
  rw [cut_cons]
  constructor
  · rintro ⟨piece, rest, rfl, -, hrest⟩
    exact ⟨rest, List.suffix_append piece rest, hrest⟩
  · rintro ⟨rest, ⟨piece, rfl⟩, hrest⟩
    exact ⟨piece, rest, rfl, standsFor_percent piece, hrest⟩

theorem cut_append {first second text : List Char} : Cut (first ++ second) text ↔
    ∃ front back, text = front ++ back ∧ Cut first front ∧ Cut second back := by
  induction first generalizing text with
  | nil =>
    simp only [List.nil_append, cut_nil]
    exact ⟨fun h => ⟨[], text, rfl, rfl, h⟩, fun ⟨_, _, htext, hnil, h⟩ => by
      rwa [htext, hnil, List.nil_append]⟩
  | cons c first ih =>
    simp only [List.cons_append, cut_cons, ih]
    constructor
    · rintro ⟨piece, _, rfl, hpiece, front, back, rfl, hfront, hback⟩
      exact ⟨piece ++ front, back, (List.append_assoc ..).symm,
        ⟨piece, front, rfl, hpiece, hfront⟩, hback⟩
    · rintro ⟨_, back, rfl, ⟨piece, front, rfl, hpiece, hfront⟩, hback⟩
      exact ⟨piece, front ++ back, List.append_assoc .., hpiece, front, back,
        rfl, hfront, hback⟩

/-- The pieces in the opposite order, each read backwards, are a cut of the text
read backwards. -/
theorem Cut.reverse {pattern text : List Char} (h : Cut pattern text) :
    Cut pattern.reverse text.reverse := by
  obtain ⟨pieces, rfl, hpieces⟩ := h
  refine ⟨(pieces.map List.reverse).reverse, List.reverse_flatten.symm, ?_⟩
  rw [List.forall₂_reverse_iff, List.forall₂_map_right_iff]
  exact hpieces.imp fun _ _ => standsFor_reverse.mpr

theorem cut_reverse {pattern text : List Char} :
    Cut pattern.reverse text.reverse ↔ Cut pattern text :=
  ⟨fun h => by simpa using h.reverse, Cut.reverse⟩

/-- One percent sign stands for whatever two stand for. -/
theorem cut_percent_percent {pattern text : List Char} :
    Cut ('%' :: '%' :: pattern) text ↔ Cut ('%' :: pattern) text := by
  rw [cut_percent, cut_percent]
  constructor
  · rintro ⟨rest, hrest, hcut⟩
    obtain ⟨last, hlast, hcut⟩ := cut_percent.mp hcut
    exact ⟨last, hlast.trans hrest, hcut⟩
  · rintro ⟨rest, hrest, hcut⟩
    exact ⟨rest, hrest, cut_percent.mpr ⟨rest, List.suffix_rfl, hcut⟩⟩

theorem cut_percents (n : Nat) {pattern text : List Char} :
    Cut (List.replicate (n + 1) '%' ++ pattern) text ↔
      Cut ('%' :: pattern) text := by
  induction n with
  | zero => rfl
  | succ n ih =>
    calc
      Cut (List.replicate (n + 2) '%' ++ pattern) text ↔
          Cut ('%' :: '%' :: (List.replicate n '%' ++ pattern)) text := by
        rw [List.replicate_succ, List.replicate_succ, List.cons_append,
          List.cons_append]
      _ ↔ Cut ('%' :: (List.replicate n '%' ++ pattern)) text :=
        cut_percent_percent
      _ ↔ Cut (List.replicate (n + 1) '%' ++ pattern) text := by
        rw [List.replicate_succ, List.cons_append]
      _ ↔ Cut ('%' :: pattern) text := ih

theorem cut_plain {pattern text : List Char}
    (h : ∀ c ∈ pattern, c ≠ '%' ∧ c ≠ '_') : Cut pattern text ↔ text = pattern := by
  induction pattern generalizing text with
  | nil => exact cut_nil
  | cons c pattern ih =>
    obtain ⟨⟨hpercent, hunderscore⟩, hrest⟩ := List.forall_mem_cons.mp h
    simp only [cut_cons, standsFor_other hpercent hunderscore, ih hrest]
    exact ⟨fun ⟨_, _, htext, hpiece, hpattern⟩ =>
      by rw [htext, hpiece, hpattern]; rfl,
      fun htext => ⟨[c], pattern, htext, rfl, rfl⟩⟩

/-! ## The matcher -/

theorem anySuffix_iff {p : List Char → Bool} {text : List Char} :
    anySuffix p text = true ↔ ∃ rest, rest <:+ text ∧ p rest = true := by
  induction text with
  | nil => simp [anySuffix]
  | cons c text ih =>
    rw [anySuffix, Bool.or_eq_true, ih]
    simp only [List.suffix_cons_iff, or_and_right, exists_or, exists_eq_left]

theorem like_underscore (pattern text : List Char) :
    like ('_' :: pattern) text = true ↔
      ∃ c rest, text = c :: rest ∧ like pattern rest = true := by
  cases text <;> simp [like]

theorem like_other {c : Char} (hpercent : c ≠ '%') (hunderscore : c ≠ '_')
    (pattern text : List Char) :
    like (c :: pattern) text = true ↔
      ∃ rest, text = c :: rest ∧ like pattern rest = true := by
  cases text with
  | nil => simp [like]
  | cons d text =>
    simp only [like, Bool.and_eq_true, beq_iff_eq, List.cons.injEq]
    exact ⟨fun ⟨hsame, hlike⟩ => ⟨text, ⟨hsame.symm, rfl⟩, hlike⟩,
      fun ⟨_, ⟨hsame, hrest⟩, hlike⟩ => ⟨hsame.symm, hrest ▸ hlike⟩⟩

theorem like_iff_cut {pattern text : List Char} :
    like pattern text = true ↔ Cut pattern text := by
  induction pattern generalizing text with
  | nil => rw [like, List.isEmpty_iff, cut_nil]
  | cons c pattern ih =>
    by_cases hpercent : c = '%'
    · rw [hpercent, like, anySuffix_iff, cut_percent]
      simp only [ih]
    by_cases hunderscore : c = '_'
    · rw [hunderscore, like_underscore, cut_cons]
      simp only [ih, standsFor_underscore, List.length_eq_one_iff]
      constructor
      · exact fun ⟨d, rest, htext, hrest⟩ => ⟨[d], rest, htext, ⟨d, rfl⟩, hrest⟩
      · rintro ⟨_, rest, rfl, ⟨d, rfl⟩, hrest⟩
        exact ⟨d, rest, rfl, hrest⟩
    · rw [like_other hpercent hunderscore, cut_cons]
      simp only [ih, standsFor_other hpercent hunderscore]
      exact ⟨fun ⟨rest, htext, hrest⟩ => ⟨[c], rest, htext, rfl, hrest⟩,
        fun ⟨_, rest, htext, hpiece, hrest⟩ =>
          ⟨rest, by rw [htext, hpiece]; rfl, hrest⟩⟩

theorem likeText_iff_cut {text pattern : String} :
    likeText text pattern = true ↔ Cut pattern.toList text.toList :=
  like_iff_cut

/-- A pattern matches the texts that can be cut into pieces which its characters
stand for. So a pattern read backwards matches the texts read backwards, any
number of percent signs in a row is as good as one, and a pattern of plain
characters matches itself alone. -/
theorem likeText_language (text pattern : String) :
    (likeText text pattern = true ↔ ∃ pieces : List (List Char), pieces.flatten =
        text.toList ∧ List.Forall₂ StandsFor pattern.toList pieces) ∧
      likeText (.ofList text.toList.reverse) (.ofList pattern.toList.reverse) =
        likeText text pattern ∧
      (∀ n before after,
        likeText text (.ofList (before ++ List.replicate (n + 1) '%' ++ after)) =
          likeText text (.ofList (before ++ '%' :: after))) ∧
      ((∀ c ∈ pattern.toList, c ≠ '%' ∧ c ≠ '_') →
        (likeText text pattern = true ↔ text = pattern)) := by
  refine ⟨likeText_iff_cut, ?_, fun n before after => ?_, fun hplain => ?_⟩
  · rw [Bool.eq_iff_iff]
    calc
      likeText (.ofList text.toList.reverse) (.ofList pattern.toList.reverse) =
          true ↔ Cut pattern.toList.reverse text.toList.reverse := by
        rw [likeText_iff_cut, String.toList_ofList, String.toList_ofList]
      _ ↔ Cut pattern.toList text.toList := cut_reverse
      _ ↔ likeText text pattern = true := likeText_iff_cut.symm
  · rw [Bool.eq_iff_iff]
    calc
      likeText text (.ofList (before ++ List.replicate (n + 1) '%' ++ after)) =
          true ↔
          Cut (before ++ (List.replicate (n + 1) '%' ++ after)) text.toList := by
        rw [likeText_iff_cut, String.toList_ofList, List.append_assoc]
      _ ↔ Cut (before ++ '%' :: after) text.toList := by
        rw [cut_append, cut_append]
        simp only [cut_percents]
      _ ↔ likeText text (.ofList (before ++ '%' :: after)) = true := by
        rw [likeText_iff_cut, String.toList_ofList]
  · calc
      likeText text pattern = true ↔ Cut pattern.toList text.toList :=
        likeText_iff_cut
      _ ↔ text.toList = pattern.toList := cut_plain hplain
      _ ↔ text = pattern := String.toList_inj

/-- A text of repeated characters: the percent sign has to come back from the
first `b`. -/
theorem likeText_language_repetitive :
    likeText "aXbbXc" "a%bX_" = true ∧ ¬ likeText "aXbbXc" "aXb" = true := by
  refine ⟨(likeText_language "aXbbXc" "a%bX_").1.mpr
    ⟨[['a'], ['X', 'b'], ['b'], ['X'], ['c']], rfl, ?_⟩, ?_⟩
  · exact .cons rfl (.cons trivial (.cons rfl (.cons rfl (.cons rfl .nil))))
  · rw [(likeText_language "aXbbXc" "aXb").2.2.2 (by simp)]
    decide

end EntityMapper.Store
