import EntityMapper.Text.Lowercase
import Mathlib.Data.List.Basic

/-!
# Two ways to write a text in small letters

The full mapping of a text to small letters, and the mapping of its ASCII
letters alone. The full mapping takes characters to settled ones, which either
mapping leaves as they are. So what it has written stays the same under both,
and it does not matter whether the ASCII letters were mapped before.

That the small letters in the table are settled is a fact about the table: none
of them is a capital of another run. It is checked by going through the table.
-/

namespace EntityMapper.Text

/-! ## ASCII letters -/

theorem isUpper_iff {c : Char} :
    isUpper c = true ↔ 65 ≤ c.toNat ∧ c.toNat ≤ 90 := by
  simp only [isUpper, Bool.and_eq_true, decide_eq_true_eq, Char.le_def]
  rfl

theorem asciiLower_eq_self {c d : Char} (hd : asciiLower c = d)
    (hupper : isUpper c = false) : c = d := by
  rw [← hd, asciiLower, hupper]
  rfl

theorem toNat_asciiLower (c : Char) (h : isUpper c = true) :
    (asciiLower c).toNat = c.toNat + 32 := by
  obtain ⟨hlow, hhigh⟩ := isUpper_iff.mp h
  have hvalid : (c.toNat + 32).isValidChar := .inl (by omega)
  rw [asciiLower, if_pos h, Char.ofNat, dif_pos hvalid]
  rfl

theorem isUpper_asciiLower (c : Char) : isUpper (asciiLower c) = false := by
  cases hupper : isUpper c with
  | false => rwa [← asciiLower_eq_self rfl hupper]
  | true =>
    have hnat := toNat_asciiLower c hupper
    rw [isUpper_iff] at hupper
    rw [← Bool.not_eq_true, isUpper_iff]
    omega

theorem asciiLower_asciiLower (c : Char) :
    asciiLower (asciiLower c) = asciiLower c :=
  (asciiLower_eq_self rfl (isUpper_asciiLower c)).symm

theorem asciiLower_of_not_ascii {c : Char} (h : ¬ c.toNat < 0x80) :
    asciiLower c = c := by
  refine (asciiLower_eq_self rfl ?_).symm
  rw [← Bool.not_eq_true, isUpper_iff]
  omega

/-! ## Settled characters -/

/-- A character that is its own small letter. A capital sigma is none, wherever
it stands. -/
def Settled (c : Char) : Prop :=
  lowerChar c = [c] ∧ c.toNat ≠ 0x3a3

instance (c : Char) : Decidable (Settled c) :=
  inferInstanceAs (Decidable (_ ∧ _))

/-- The small letter of a capital of a run, both as code points. -/
def CaseRun.small (run : CaseRun) (point : Nat) : Nat :=
  ((point : Int) + run.offset).toNat

/-- Whether no small letter of a run is a capital of another: all are below its
capitals, or above them, or lie between them. -/
def CaseRun.apart (run other : CaseRun) : Bool :=
  decide (run.small run.last < other.first) ||
    decide (other.last < run.small run.first) ||
    decide ((run.stride = 2 ∨ run.first = run.last) ∧ other.stride = 2 ∧
      (run.small run.first - other.first) % 2 = 1)

theorem apart_caseRuns :
    (caseRuns.all fun run => caseRuns.all run.apart) = true := by
  decide +kernel

/-- The small letters of every run are characters, and none of them is an ASCII
capital or one of the two capitals with a rule of its own. -/
theorem small_caseRuns : ∀ run ∈ caseRuns, 0x5b ≤ run.small run.first ∧
    (run.small run.last < 0xd800 ∨ 0xdfff < run.small run.first) ∧
    run.small run.last < 0x110000 ∧
    (run.small run.last < 0x130 ∨ 0x130 < run.small run.first) ∧
    (run.small run.last < 0x3a3 ∨ 0x3a3 < run.small run.first) := by
  decide +kernel

theorem CaseRun.small_eq {run : CaseRun} (h : 0 < run.small run.first)
    {point : Nat} (hpoint : run.first ≤ point) :
    run.small point = run.small run.first + (point - run.first) := by
  unfold small at h ⊢
  omega

/-- A small letter of a run is no capital of a run apart from it. -/
theorem CaseRun.not_capital {run other : CaseRun} (hapart : run.apart other = true)
    {point : Nat} (h : 0 < run.small run.first) (hfirst : run.first ≤ point)
    (hlast : point ≤ run.last) (hstride : (point - run.first) % run.stride = 0)
    (habove : run.small point ≤ other.last) :
    ¬ (other.first ≤ run.small point ∧
      (run.small point - other.first) % other.stride = 0) := by
  have hpoint := small_eq h hfirst
  have hend := small_eq h (Nat.le_trans hfirst hlast)
  simp only [apart, Bool.or_eq_true, decide_eq_true_eq] at hapart
  rintro ⟨hbelow, hmod⟩
  rcases hapart with (hless | hmore) | ⟨hrun, hother, hodd⟩
  · omega
  · omega
  · rw [hother] at hmod
    have heven : (point - run.first) % 2 = 0 := by
      rcases hrun with htwo | hsingle
      · rwa [htwo] at hstride
      · omega
    omega

/-- The small letters of every run are settled. -/
theorem settled_small {run : CaseRun} (hrun : run ∈ caseRuns) {point : Nat}
    (hfirst : run.first ≤ point) (hlast : point ≤ run.last)
    (hstride : (point - run.first) % run.stride = 0) :
    Settled (Char.ofNat (run.small point)) := by
  obtain ⟨hlow, hgap, hhigh, hdotted, hsigma⟩ := small_caseRuns run hrun
  have hpos : 0 < run.small run.first := by omega
  have hpoint := CaseRun.small_eq hpos hfirst
  have hend := CaseRun.small_eq hpos (Nat.le_trans hfirst hlast)
  have hvalid : (run.small point).isValidChar := by
    unfold Nat.isValidChar
    omega
  have hnat : (Char.ofNat (run.small point)).toNat = run.small point := by
    rw [Char.ofNat, dif_pos hvalid]
    rfl
  refine ⟨?_, by omega⟩
  rw [lowerChar, hnat]
  by_cases hascii : run.small point < 0x80
  · have hupper : isUpper (Char.ofNat (run.small point)) = false := by
      rw [← Bool.not_eq_true, isUpper_iff, hnat]
      omega
    rw [if_pos hascii, ← asciiLower_eq_self rfl hupper]
  · rw [if_neg hascii, if_neg (by omega)]
    cases hfind : caseRuns.find?
        fun other => decide (run.small point ≤ other.last) with
    | none => rfl
    | some other =>
      have hmem := List.mem_of_find?_eq_some hfind
      have hapart :=
        List.all_eq_true.mp (List.all_eq_true.mp apart_caseRuns run hrun) other hmem
      exact if_neg (CaseRun.not_capital hapart hpos hfirst hlast hstride
        (by simpa using List.find?_some hfind))

theorem settled_dotted : Settled 'i' ∧ Settled (Char.ofNat 0x307) := by
  decide +kernel

theorem settled_asciiLower {c : Char} (h : c.toNat < 0x80) :
    Settled (asciiLower c) := by
  have hascii : (asciiLower c).toNat < 0x80 := by
    cases hupper : isUpper c with
    | false => rwa [← asciiLower_eq_self rfl hupper]
    | true =>
      have hnat := toNat_asciiLower c hupper
      rw [isUpper_iff] at hupper
      omega
  refine ⟨?_, by omega⟩
  rw [lowerChar, if_pos hascii, asciiLower_asciiLower]

/-- What a character is mapped to is settled. -/
theorem settled_of_mem_lowerChar {c d : Char} (hc : c.toNat ≠ 0x3a3)
    (h : d ∈ lowerChar c) : Settled d := by
  have hself (hsame : lowerChar c = [c]) : Settled d := by
    rw [hsame] at h
    obtain rfl := List.mem_singleton.mp h
    exact ⟨hsame, hc⟩
  by_cases hascii : c.toNat < 0x80
  · rw [lowerChar, if_pos hascii] at h
    exact List.mem_singleton.mp h ▸ settled_asciiLower hascii
  · by_cases hdotted : c.toNat = 0x130
    · rw [lowerChar, if_neg hascii, if_pos hdotted] at h
      exact List.forall_mem_cons.mpr
        ⟨settled_dotted.1, List.forall_mem_singleton.mpr settled_dotted.2⟩ d h
    · cases hrun : caseRuns.find? fun run => decide (c.toNat ≤ run.last) with
      | none => exact hself (by simp [lowerChar, hascii, hdotted, hrun])
      | some run =>
        by_cases hin : run.first ≤ c.toNat ∧ (c.toNat - run.first) % run.stride = 0
        · have hlast : c.toNat ≤ run.last := by simpa using List.find?_some hrun
          simp only [lowerChar, hascii, hdotted, hrun, hin, if_false, if_true,
            and_self, List.mem_singleton] at h
          exact h ▸ settled_small (List.mem_of_find?_eq_some hrun) hin.1 hlast hin.2
        · exact hself (by simp [lowerChar, hascii, hdotted, hrun, hin])

theorem settled_of_mem_lowerAfter {before text : List Char} {d : Char}
    (h : d ∈ lowerAfter before text) : Settled d := by
  induction text generalizing before with
  | nil => cases h
  | cons c rest ih =>
    rcases List.mem_append.mp h with hsmall | hrest
    · by_cases hsigma : c.toNat = 0x3a3
      · rw [if_pos hsigma] at hsmall
        obtain rfl := List.mem_singleton.mp hsmall
        split <;> decide +kernel
      · rw [if_neg hsigma] at hsmall
        exact settled_of_mem_lowerChar hsigma hsmall
    · exact ih hrest

theorem lowerAfter_of_settled {before text : List Char}
    (h : ∀ c ∈ text, Settled c) : lowerAfter before text = text := by
  induction text generalizing before with
  | nil => rfl
  | cons c rest ih =>
    obtain ⟨hc, hrest⟩ := List.forall_mem_cons.mp h
    rw [lowerAfter, if_neg hc.2, hc.1, ih hrest]
    rfl

theorem asciiLower_of_settled {c : Char} (h : Settled c) : asciiLower c = c := by
  by_cases hascii : c.toNat < 0x80
  · have hlower := h.1
    rw [lowerChar, if_pos hascii] at hlower
    exact List.head_eq_of_cons_eq hlower
  · exact asciiLower_of_not_ascii hascii

/-! ## Texts -/

theorem toLower_toLower (s : String) : toLower (toLower s) = toLower s := by
  unfold toLower
  rw [String.toList_ofList,
    lowerAfter_of_settled fun _ => settled_of_mem_lowerAfter]

theorem toAsciiLower_toLower (s : String) :
    toAsciiLower (toLower s) = toLower s := by
  rw [← String.toList_inj]
  calc
    (toAsciiLower (toLower s)).toList =
        (lowerAfter [] s.toList).map asciiLower := by
      rw [toAsciiLower, toLower, String.toList_map, String.toList_ofList]
    _ = (lowerAfter [] s.toList).map id :=
      List.map_congr_left fun c hc =>
        asciiLower_of_settled (settled_of_mem_lowerAfter hc)
    _ = (toLower s).toList := by rw [List.map_id, toLower, String.toList_ofList]

/-- A set that has the small ASCII letters iff it has their capitals does not
tell them apart. -/
theorem inBoundaries_asciiLower (boundaries : List Nat)
    (h : ∀ k < 26, inBoundaries boundaries (65 + k) =
      inBoundaries boundaries (97 + k)) (c : Char) :
    inBoundaries boundaries (asciiLower c).toNat =
      inBoundaries boundaries c.toNat := by
  cases hupper : isUpper c with
  | false => rw [← asciiLower_eq_self rfl hupper]
  | true =>
    rw [toNat_asciiLower c hupper]
    obtain ⟨hlow, hhigh⟩ := isUpper_iff.mp hupper
    have hsame := h (c.toNat - 65) (by omega)
    rw [show 65 + (c.toNat - 65) = c.toNat by omega,
      show 97 + (c.toNat - 65) = c.toNat + 32 by omega] at hsame
    exact hsame.symm

theorem meetsCased_map_asciiLower (text : List Char) :
    meetsCased (text.map asciiLower) = meetsCased text := by
  have hskip := inBoundaries_asciiLower caseIgnorableBoundaries (by decide +kernel)
  have hcased := inBoundaries_asciiLower casedBoundaries (by decide +kernel)
  induction text with
  | nil => rfl
  | cons c rest ih =>
    unfold meetsCased at ih ⊢
    rw [List.map_cons, List.dropWhile_cons, List.dropWhile_cons, hskip]
    cases inBoundaries caseIgnorableBoundaries c.toNat with
    | true => exact ih
    | false => exact hcased c

theorem lowerChar_asciiLower (c : Char) :
    lowerChar (asciiLower c) = lowerChar c := by
  by_cases hascii : c.toNat < 0x80
  · rw [(settled_asciiLower hascii).1, lowerChar, if_pos hascii]
  · rw [asciiLower_of_not_ascii hascii]

theorem lowerAfter_map_asciiLower (before text : List Char) :
    lowerAfter (before.map asciiLower) (text.map asciiLower) =
      lowerAfter before text := by
  induction text generalizing before with
  | nil => rfl
  | cons c rest ih =>
    have hsigma : (asciiLower c).toNat = 0x3a3 ↔ c.toNat = 0x3a3 := by
      by_cases hascii : c.toNat < 0x80
      · exact iff_of_false (settled_asciiLower hascii).2 (by omega)
      · rw [asciiLower_of_not_ascii hascii]
    rw [List.map_cons, lowerAfter, lowerAfter, meetsCased_map_asciiLower,
      meetsCased_map_asciiLower, lowerChar_asciiLower]
    simp only [hsigma]
    rw [← ih (c :: before), List.map_cons]

/-- Texts that differ only in the case of ASCII letters are written the same in
small letters. -/
theorem toLower_toAsciiLower (s : String) :
    toLower (toAsciiLower s) = toLower s := by
  rw [toLower, toAsciiLower, String.toList_map]
  exact congrArg String.ofList (lowerAfter_map_asciiLower [] s.toList)

theorem toAsciiLower_eq_iff {s t : String} :
    toAsciiLower s = t ↔ s.toList.map asciiLower = t.toList := by
  rw [toAsciiLower, ← String.toList_inj, String.toList_map]

/-- A text of ASCII characters. -/
def IsAscii (s : String) : Prop := ∀ c ∈ s.toList, c.toNat < 0x80

instance (s : String) : Decidable (IsAscii s) :=
  List.decidableBAll (fun c : Char => c.toNat < 0x80) s.toList

/-- On an ASCII text both mappings are the same. -/
theorem IsAscii.toLower_eq {s : String} (h : IsAscii s) :
    toLower s = toAsciiLower s := by
  have hsettled : ∀ c ∈ s.toList.map asciiLower, Settled c :=
    List.forall_mem_map.mpr fun c hc => settled_asciiLower (h c hc)
  calc
    toLower s = toLower (toAsciiLower s) := (toLower_toAsciiLower s).symm
    _ = String.ofList (lowerAfter [] (s.toList.map asciiLower)) := by
      rw [toLower, toAsciiLower, String.toList_map]
    _ = String.ofList (s.toList.map asciiLower) := by
      rw [lowerAfter_of_settled hsettled]
    _ = toAsciiLower s := by
      rw [← String.toList_map, String.ofList_toList, toAsciiLower]

end EntityMapper.Text
