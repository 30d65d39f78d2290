import EntityMapper.NameMap
import Mathlib.Data.List.Nodup
import Mathlib.Data.List.Perm.Basic
import Mathlib.Data.String.Basic

/-!
# Looking up names

What an operation on a map does to the value under each name. An insertion and a
removal are told without the order of the entries, since the first entry of a
name is the one that counts; what writing a whole map over another does depends
on the second map having each name once.
-/

namespace EntityMapper.NameMap

variable {α : Type*}

/-! ## Lookups -/

@[simp]
theorem get?_empty (name : String) : (∅ : NameMap α).get? name = none := rfl

theorem lookup_insertEntry (name other : String) (value : α)
    (entries : List (String × α)) :
    lookup other (insertEntry name value entries) =
      if name = other then some value else lookup other entries := by
  induction entries with
  | nil => rfl
  | cons entry rest ih =>
    obtain ⟨key, old⟩ := entry
    rw [insertEntry]
    by_cases hless : name < key
    · rw [if_pos hless, lookup]
    · rw [if_neg hless]
      by_cases hname : name = key
      · subst hname
        rw [if_pos rfl, lookup, lookup]
        split <;> rfl
      · rw [if_neg hname, lookup, lookup, ih]
        by_cases hkey : key = other
        · rw [if_pos hkey, if_pos hkey, if_neg fun h => hname (h.trans hkey.symm)]
        · rw [if_neg hkey, if_neg hkey]

@[simp]
theorem get?_insert (m : NameMap α) (name other : String) (value : α) :
    (m.insert name value).get? other =
      if name = other then some value else m.get? other :=
  lookup_insertEntry name other value m.entries

theorem get?_insert_self (m : NameMap α) (name : String) (value : α) :
    (m.insert name value).get? name = some value := by
  rw [get?_insert, if_pos rfl]

theorem get?_insert_of_ne {name other : String} (h : name ≠ other) (m : NameMap α)
    (value : α) : (m.insert name value).get? other = m.get? other := by
  rw [get?_insert, if_neg h]

@[simp]
theorem get?_erase (m : NameMap α) (name other : String) :
    (m.erase name).get? other = if name = other then none else m.get? other := by
  obtain ⟨entries⟩ := m
  simp only [get?, erase]
  induction entries with
  | nil => simp [lookup]
  | cons entry rest ih =>
    obtain ⟨key, value⟩ := entry
    by_cases hkey : key = name
    · subst hkey
      rw [List.filter_cons_of_neg (by simp), ih, lookup]
      split <;> rfl
    · rw [List.filter_cons_of_pos (by simpa using hkey), lookup, ih, lookup]
      by_cases hother : key = other
      · rw [if_pos hother, if_pos hother,
          if_neg fun h => hkey (hother.trans h.symm)]
      · rw [if_neg hother, if_neg hother]

theorem mem_of_lookup {name : String} {value : α} {entries : List (String × α)}
    (h : lookup name entries = some value) : (name, value) ∈ entries := by
  induction entries with
  | nil => cases h
  | cons entry rest ih =>
    rw [lookup] at h
    split at h
    · next hname =>
      obtain rfl := hname
      obtain rfl := Option.some.inj h
      exact List.mem_cons_self ..
    · exact List.mem_cons_of_mem _ (ih h)

theorem lookup_isSome_iff {name : String} {entries : List (String × α)} :
    (lookup name entries).isSome = true ↔ name ∈ entries.map Prod.fst := by
  induction entries with
  | nil => simp [lookup]
  | cons entry rest ih =>
    by_cases h : entry.1 = name
    · simp [lookup, h]
    · simp [lookup, h, ih, Ne.symm h]

theorem toList_ne_nil {m : NameMap α} {name : String}
    (h : (m.get? name).isSome = true) : m.toList ≠ [] := by
  intro hnil
  rw [get?, show m.entries = [] from hnil] at h
  cases h

/-- A list of names with a value for each of them. -/
theorem lookup_map (f : String → α) (names : List String) (name : String) :
    lookup name (names.map fun name => (name, f name)) =
      if name ∈ names then some (f name) else none := by
  induction names with
  | nil => rfl
  | cons first rest ih =>
    rw [List.map_cons, lookup, ih]
    by_cases hname : first = name
    · subst hname
      simp
    · simp [hname, Ne.symm hname]

theorem contains_iff {m : NameMap α} {name : String} :
    m.contains name = true ↔ name ∈ m.keys :=
  lookup_isSome_iff

@[simp]
theorem contains_insert (m : NameMap α) (name other : String) (value : α) :
    (m.insert name value).contains other =
      (decide (name = other) || m.contains other) := by
  by_cases h : name = other <;> simp [contains, h]

@[simp]
theorem contains_erase (m : NameMap α) (name other : String) :
    (m.erase name).contains other =
      (!decide (name = other) && m.contains other) := by
  by_cases h : name = other <;> simp [contains, h]

/-! ## Order -/

theorem wellFormed_empty : (∅ : NameMap α).WellFormed := List.Pairwise.nil

theorem mem_insertEntry {name : String} {value : α} {entry : String × α}
    {entries : List (String × α)} (h : entry ∈ insertEntry name value entries) :
    entry = (name, value) ∨ entry ∈ entries := by
  induction entries with
  | nil => exact .inl (List.mem_singleton.mp h)
  | cons first rest ih =>
    obtain ⟨key, old⟩ := first
    rw [insertEntry] at h
    split at h
    · exact List.mem_cons.mp h
    · split at h
      · exact (List.mem_cons.mp h).imp_right (List.mem_cons_of_mem _)
      · rcases List.mem_cons.mp h with rfl | h
        · exact .inr (List.mem_cons_self ..)
        · exact (ih h).imp_right (List.mem_cons_of_mem _)

theorem WellFormed.insert {m : NameMap α} (h : m.WellFormed) (name : String)
    (value : α) : (m.insert name value).WellFormed := by
  obtain ⟨entries⟩ := m
  simp only [WellFormed, NameMap.insert] at h ⊢
  induction entries with
  | nil => exact List.pairwise_singleton _ _
  | cons first rest ih =>
    obtain ⟨key, old⟩ := first
    obtain ⟨hfirst, hrest⟩ := List.pairwise_cons.mp h
    rw [insertEntry]
    by_cases hless : name < key
    · rw [if_pos hless]
      refine List.pairwise_cons.mpr ⟨fun entry hentry => ?_, h⟩
      rcases List.mem_cons.mp hentry with rfl | hentry
      · exact hless
      · exact hless.trans (hfirst entry hentry)
    · rw [if_neg hless]
      by_cases hname : name = key
      · subst hname
        rw [if_pos rfl]
        exact List.pairwise_cons.mpr ⟨hfirst, hrest⟩
      · rw [if_neg hname]
        refine List.pairwise_cons.mpr ⟨fun entry hentry => ?_, ih hrest⟩
        rcases mem_insertEntry hentry with rfl | hentry
        · exact lt_of_le_of_ne (not_lt.mp hless) (Ne.symm hname)
        · exact hfirst entry hentry

theorem WellFormed.erase {m : NameMap α} (h : m.WellFormed) (name : String) :
    (m.erase name).WellFormed :=
  List.Pairwise.filter _ h

theorem wellFormed_ofList (entries : List (String × α)) :
    (ofList entries).WellFormed :=
  List.foldlRecOn entries _ wellFormed_empty
    fun _ h entry _ => h.insert entry.1 entry.2

theorem mem_of_mem_ofList {entries : List (String × α)} {entry : String × α}
    (h : entry ∈ (ofList entries).entries) : entry ∈ entries := by
  have hmem : ∀ entry ∈ (ofList entries).entries, entry ∈ entries := by
    refine List.foldlRecOn
      (motive := fun m : NameMap α => ∀ entry ∈ m.entries, entry ∈ entries) entries
      _ (List.forall_mem_nil _) fun m hm written hwritten entry hentry => ?_
    rcases mem_insertEntry hentry with rfl | hentry
    · exact hwritten
    · exact hm entry hentry
  exact hmem entry h

/-- An entry whose name comes after all others goes to the end. -/
theorem insertEntry_of_lt {name : String} {value : α} {entries : List (String × α)}
    (h : ∀ entry ∈ entries, entry.1 < name) :
    insertEntry name value entries = entries ++ [(name, value)] := by
  induction entries with
  | nil => rfl
  | cons first rest ih =>
    obtain ⟨hfirst, hrest⟩ := List.forall_mem_cons.mp h
    calc
      insertEntry name value (first :: rest) =
          first :: insertEntry name value rest := by
        rw [insertEntry, if_neg (not_lt_of_gt hfirst), if_neg hfirst.ne']
      _ = first :: (rest ++ [(name, value)]) := by rw [ih hrest]

/-- A map is made from its own entries. -/
theorem WellFormed.ofList_entries {m : NameMap α} (h : m.WellFormed) :
    ofList m.entries = m := by
  have hfold (before behind : List (String × α))
      (hordered : (before ++ behind).Pairwise fun x y => x.1 < y.1) :
      behind.foldl (fun m entry => m.insert entry.1 entry.2) ⟨before⟩ =
        (⟨before ++ behind⟩ : NameMap α) := by
    induction behind generalizing before with
    | nil => simp
    | cons entry rest ih =>
      have hlast : ∀ other ∈ before, other.1 < entry.1 := fun other hother =>
        (List.pairwise_append.mp hordered).2.2 other hother entry
          (List.mem_cons_self ..)
      rw [List.foldl_cons, NameMap.insert, insertEntry_of_lt hlast]
      have hrest := ih (before ++ [entry]) (by simpa using hordered)
      simpa using hrest
  exact hfold [] m.entries h

/-! ## One map over another -/

/-- Entries with each name once, written over a map. -/
theorem get?_foldl_insert (m : NameMap α) {entries : List (String × α)}
    (h : (entries.map Prod.fst).Nodup) (name : String) :
    (entries.foldl (fun m entry => m.insert entry.1 entry.2) m).get? name =
      (lookup name entries).or (m.get? name) := by
  induction entries generalizing m with
  | nil => simp [lookup]
  | cons first rest ih =>
    obtain ⟨key, value⟩ := first
    obtain ⟨hfirst, hrest⟩ := List.nodup_cons.mp h
    rw [List.foldl_cons, ih _ hrest, lookup]
    by_cases hname : key = name
    · subst hname
      have hnone : lookup key rest = none := by
        rwa [← Option.not_isSome_iff_eq_none, lookup_isSome_iff]
      rw [hnone, if_pos rfl, Option.none_or, Option.some_or]
      exact get?_insert_self m key value
    · rw [if_neg hname, get?_insert_of_ne hname]

/-- The map of entries with each name once. -/
theorem get?_ofList {entries : List (String × α)} (h : (entries.map Prod.fst).Nodup)
    (name : String) : (ofList entries).get? name = lookup name entries := by
  calc
    (ofList entries).get? name =
        (lookup name entries).or ((empty : NameMap α).get? name) :=
      get?_foldl_insert empty h name
    _ = lookup name entries := Option.or_none

/-- Of several entries of one name the last counts. -/
theorem get?_ofList_eq_getLast? (entries : List (String × α)) (name : String) :
    (ofList entries).get? name =
      ((entries.filter fun entry => entry.1 = name).getLast?).map Prod.snd := by
  have hfold (m : NameMap α) :
      (entries.foldl (fun m entry => m.insert entry.1 entry.2) m).get? name =
        (((entries.filter fun entry => entry.1 = name).getLast?).map Prod.snd).or
          (m.get? name) := by
    induction entries generalizing m with
    | nil => rfl
    | cons entry rest ih =>
      rw [List.foldl_cons, ih, get?_insert]
      by_cases hname : entry.1 = name
      · rw [if_pos hname, List.filter_cons_of_pos (by simpa using hname),
          List.getLast?_cons]
        cases (rest.filter fun entry => entry.1 = name).getLast? <;> rfl
      · rw [if_neg hname, List.filter_cons_of_neg (by simpa using hname)]
  calc
    (ofList entries).get? name =
        (((entries.filter fun entry => entry.1 = name).getLast?).map Prod.snd).or
          ((empty : NameMap α).get? name) := hfold empty
    _ = ((entries.filter fun entry => entry.1 = name).getLast?).map Prod.snd :=
      Option.or_none

theorem WellFormed.nodup {m : NameMap α} (h : m.WellFormed) : m.keys.Nodup :=
  List.Pairwise.map Prod.fst (fun _ _ hless => hless.ne) h

theorem lookup_eq_some_iff {entries : List (String × α)}
    (h : (entries.map Prod.fst).Nodup) {name : String} {value : α} :
    lookup name entries = some value ↔ (name, value) ∈ entries := by
  induction entries with
  | nil => simp [lookup]
  | cons first rest ih =>
    obtain ⟨key, old⟩ := first
    obtain ⟨hfirst, hrest⟩ := List.nodup_cons.mp h
    rw [lookup, List.mem_cons, ← ih hrest]
    by_cases hname : key = name
    · subst hname
      have hnone : lookup key rest = none := by
        rwa [← Option.not_isSome_iff_eq_none, lookup_isSome_iff]
      simp [hnone, eq_comm]
    · simp [hname, Ne.symm hname]

/-- Maps with the same values are the same: their entries are the same, and in
the same order. -/
theorem WellFormed.ext {m n : NameMap α} (hm : m.WellFormed) (hn : n.WellFormed)
    (h : ∀ name, m.get? name = n.get? name) : m = n := by
  have hperm : m.entries.Perm n.entries := by
    refine (List.perm_ext_iff_of_nodup (List.Nodup.of_map Prod.fst hm.nodup)
      (List.Nodup.of_map Prod.fst hn.nodup)).mpr ?_
    rintro ⟨name, value⟩
    rw [← lookup_eq_some_iff hm.nodup, ← lookup_eq_some_iff hn.nodup]
    exact iff_of_eq (congrArg (· = some value) (h name))
  have hentries : m.entries = n.entries := hperm.eq_of_pairwise
    (fun x y _ _ hless hmore => absurd hmore (lt_asymm hless)) hm hn
  obtain ⟨entries⟩ := m
  exact congrArg NameMap.mk hentries

/-- The entries of the second map are written over those of the first. -/
theorem get?_extend (m : NameMap α) {other : NameMap α} (h : other.WellFormed)
    (name : String) :
    (m.extend other).get? name = (other.get? name).or (m.get? name) :=
  get?_foldl_insert m h.nodup name

/-! ## Writes one after another -/

theorem insertEntry_insertEntry (name : String) (old value : α)
    (entries : List (String × α)) :
    insertEntry name value (insertEntry name old entries) =
      insertEntry name value entries := by
  induction entries with
  | nil => simp [insertEntry]
  | cons entry rest ih =>
    obtain ⟨key, stored⟩ := entry
    by_cases hless : name < key
    · simp [insertEntry, hless]
    · by_cases hname : name = key
      · simp [insertEntry, hname]
      · simp [insertEntry, hless, hname, ih]

/-- Of two writes of one name the second counts. -/
theorem insert_insert (m : NameMap α) (name : String) (old value : α) :
    (m.insert name old).insert name value = m.insert name value :=
  congrArg mk (insertEntry_insertEntry name old value m.entries)

theorem insertEntry_comm {name other : String} (h : name < other) (value stored : α)
    (entries : List (String × α)) :
    insertEntry other stored (insertEntry name value entries) =
      insertEntry name value (insertEntry other stored entries) := by
  induction entries with
  | nil => simp [insertEntry, h, h.ne', not_lt_of_gt h]
  | cons entry rest ih =>
    obtain ⟨key, old⟩ := entry
    rcases lt_trichotomy name key with hless | rfl | hmore
    · rcases lt_trichotomy other key with hother | rfl | hother
      · simp [insertEntry, hless, hother, h, h.ne', not_lt_of_gt h]
      · simp [insertEntry, hless, h.ne', not_lt_of_gt h]
      · simp [insertEntry, hless, h.ne', not_lt_of_gt h, hother.ne',
          not_lt_of_gt hother]
    · simp [insertEntry, h.ne', not_lt_of_gt h]
    · have hother := hmore.trans h
      simp [insertEntry, hmore.ne', not_lt_of_gt hmore, hother.ne',
        not_lt_of_gt hother, ih]

/-- Writes of different names can change places. -/
theorem insert_comm {name other : String} (h : name ≠ other) (m : NameMap α)
    (value stored : α) :
    (m.insert name value).insert other stored =
      (m.insert other stored).insert name value := by
  rcases lt_or_gt_of_ne h with hless | hmore
  · exact congrArg mk (insertEntry_comm hless value stored m.entries)
  · exact congrArg mk (insertEntry_comm hmore stored value m.entries).symm

theorem extend_cons (m : NameMap α) (name : String) (value : α)
    (rest : List (String × α)) :
    m.extend ⟨(name, value) :: rest⟩ = (m.insert name value).extend ⟨rest⟩ := rfl

/-- A write before others that do not write its name might as well come behind
them. -/
theorem extend_insert_of_not_mem {name : String} {entries : List (String × α)}
    (h : name ∉ entries.map Prod.fst) (m : NameMap α) (value : α) :
    (m.insert name value).extend ⟨entries⟩ =
      (m.extend ⟨entries⟩).insert name value := by
  induction entries generalizing m with
  | nil => rfl
  | cons entry rest ih =>
    obtain ⟨hfirst, hrest⟩ := not_or.mp (List.mem_cons.not.mp h)
    calc
      (m.insert name value).extend ⟨entry :: rest⟩ =
          ((m.insert name value).insert entry.1 entry.2).extend ⟨rest⟩ :=
        extend_cons ..
      _ = ((m.insert entry.1 entry.2).insert name value).extend ⟨rest⟩ := by
        rw [insert_comm hfirst]
      _ = ((m.insert entry.1 entry.2).extend ⟨rest⟩).insert name value :=
        ih hrest _
      _ = (m.extend ⟨entry :: rest⟩).insert name value := by rw [extend_cons]

/-- A write before others that write its name is lost. -/
theorem extend_insert_of_mem {name : String} {entries : List (String × α)}
    (h : name ∈ entries.map Prod.fst) (m : NameMap α) (value : α) :
    (m.insert name value).extend ⟨entries⟩ = m.extend ⟨entries⟩ := by
  induction entries generalizing m with
  | nil => cases h
  | cons entry rest ih =>
    obtain ⟨key, stored⟩ := entry
    rw [extend_cons, extend_cons]
    by_cases hname : name = key
    · rw [hname, insert_insert]
    · rw [insert_comm hname, ih ((List.mem_cons.mp h).resolve_left hname)]

/-- To write a list of entries again changes nothing. -/
theorem extend_extend (m : NameMap α) (entries : List (String × α)) :
    (m.extend ⟨entries⟩).extend ⟨entries⟩ = m.extend ⟨entries⟩ := by
  induction entries generalizing m with
  | nil => rfl
  | cons entry rest ih =>
    obtain ⟨name, value⟩ := entry
    rw [extend_cons, extend_cons]
    by_cases hname : name ∈ rest.map Prod.fst
    · rw [extend_insert_of_mem hname, extend_insert_of_mem hname, ih]
    · calc
        ((m.insert name value).extend ⟨rest⟩ |>.insert name value).extend ⟨rest⟩ =
            (((m.insert name value).extend ⟨rest⟩).extend ⟨rest⟩).insert name
              value :=
          extend_insert_of_not_mem hname _ _
        _ = ((m.insert name value).extend ⟨rest⟩).insert name value := by rw [ih]
        _ = _ := by rw [extend_insert_of_not_mem hname, insert_insert]

/-- Entries of different names can be written in either order. -/
theorem extend_comm {first second : List (String × α)}
    (h : ∀ name ∈ first.map Prod.fst, name ∉ second.map Prod.fst) (m : NameMap α) :
    (m.extend ⟨first⟩).extend ⟨second⟩ = (m.extend ⟨second⟩).extend ⟨first⟩ := by
  induction first generalizing m with
  | nil => rfl
  | cons entry rest ih =>
    obtain ⟨hname, hrest⟩ := List.forall_mem_cons.mp h
    calc
      (m.extend ⟨entry :: rest⟩).extend ⟨second⟩ =
          ((m.insert entry.1 entry.2).extend ⟨rest⟩).extend ⟨second⟩ := by
        rw [extend_cons]
      _ = ((m.insert entry.1 entry.2).extend ⟨second⟩).extend ⟨rest⟩ := ih hrest _
      _ = ((m.extend ⟨second⟩).insert entry.1 entry.2).extend ⟨rest⟩ := by
        rw [extend_insert_of_not_mem hname]
      _ = (m.extend ⟨second⟩).extend ⟨entry :: rest⟩ := (extend_cons ..).symm

/-- Entries of other names leave what a map holds under a name. -/
theorem get?_extend_of_not_mem {name : String} {entries : List (String × α)}
    (h : name ∉ entries.map Prod.fst) (m : NameMap α) :
    (m.extend ⟨entries⟩).get? name = m.get? name := by
  induction entries generalizing m with
  | nil => rfl
  | cons entry rest ih =>
    obtain ⟨hentry, hrest⟩ := not_or.mp (List.mem_cons.not.mp h)
    rw [extend_cons, ih hrest, get?_insert_of_ne (Ne.symm hentry)]

/-- A name holds after writes what it did, or what one of them gives it. -/
theorem get?_extend_cases (m : NameMap α) (entries : List (String × α))
    (name : String) :
    (m.extend ⟨entries⟩).get? name = m.get? name ∨ ∃ value,
        (name, value) ∈ entries ∧ (m.extend ⟨entries⟩).get? name = some value := by
  induction entries generalizing m with
  | nil => exact .inl rfl
  | cons entry rest ih =>
    obtain ⟨other, value⟩ := entry
    rw [extend_cons]
    rcases ih (m.insert other value) with hkept | ⟨written, hwritten, hvalue⟩
    · rw [hkept, get?_insert]
      by_cases hname : other = name
      · subst hname
        rw [if_pos rfl]
        exact .inr ⟨value, List.mem_cons_self .., rfl⟩
      · rw [if_neg hname]
        exact .inl rfl
    · exact .inr ⟨written, List.mem_cons_of_mem _ hwritten, hvalue⟩

/-- Values that are written under names of their own, some of them perhaps more
than once. -/
theorem get?_extend_map {β : Type*} {label : β → String}
    (hlabel : ∀ x y, label x = label y → x = y) (m : NameMap α) (f : β → α)
    {xs : List β} {x : β} (hx : x ∈ xs) :
    (m.extend ⟨xs.map fun x => (label x, f x)⟩).get? (label x) = some (f x) := by
  induction xs generalizing m with
  | nil => cases hx
  | cons first rest ih =>
    rw [List.map_cons, extend_cons]
    by_cases hrest : x ∈ rest
    · exact ih _ hrest
    · obtain rfl : x = first := (List.mem_cons.mp hx).resolve_right hrest
      have hother : label x ∉ (rest.map fun y => (label y, f y)).map Prod.fst := by
        rw [List.map_map]
        intro hmem
        obtain ⟨y, hy, heq⟩ := List.mem_map.mp hmem
        exact hrest (hlabel y x heq ▸ hy)
      rw [get?_extend_of_not_mem hother, get?_insert_self]

/-- A map written over itself. -/
theorem WellFormed.extend_self {m : NameMap α} (h : m.WellFormed) :
    m.extend m = m := by
  have hordered : (m.extend m).WellFormed :=
    List.foldlRecOn m.entries _ h fun _ hm entry _ => hm.insert entry.1 entry.2
  refine hordered.ext h fun name => ?_
  rw [get?_extend m h]
  cases m.get? name <;> rfl

/-! ## Some of the entries, and other values -/

section

variable {β : Type*} {keep : String → Bool}

/-- The entries of a map whose names are kept. -/
def only (keep : String → Bool) (m : NameMap α) : NameMap α :=
  ⟨m.entries.filter fun entry => keep entry.1⟩

theorem WellFormed.only {m : NameMap α} (h : m.WellFormed) (keep : String → Bool) :
    (m.only keep).WellFormed :=
  List.Pairwise.filter _ h

theorem WellFormed.map {m : NameMap α} (h : m.WellFormed) (f : α → β) :
    (m.map f).WellFormed :=
  List.pairwise_map.mpr h

theorem get?_only (m : NameMap α) (name : String) :
    (m.only keep).get? name = if keep name then m.get? name else none := by
  obtain ⟨entries⟩ := m
  simp only [get?, only]
  induction entries with
  | nil => simp [lookup]
  | cons entry rest ih =>
    obtain ⟨key, value⟩ := entry
    rw [List.filter_cons]
    by_cases hkey : key = name
    · subst hkey
      cases hkeep : keep key with
      | true => simp [lookup]
      | false => simpa [hkeep] using ih
    · cases keep key <;> simp [lookup, hkey, ih]

theorem keep_of_mem_keys_only {m : NameMap α} {name : String}
    (h : name ∈ (m.only keep).keys) : keep name = true := by
  obtain ⟨entry, hentry, rfl⟩ := List.mem_map.mp h
  exact (List.mem_filter.mp hentry).2

theorem get?_map (f : α → β) (m : NameMap α) (name : String) :
    (m.map f).get? name = (m.get? name).map f := by
  obtain ⟨entries⟩ := m
  simp only [get?, NameMap.map]
  induction entries with
  | nil => rfl
  | cons entry rest ih =>
    rw [List.map_cons, lookup, lookup, ih]
    split <;> rfl

end

end EntityMapper.NameMap
