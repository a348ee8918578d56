import ArrayInference.Table
import Mathlib.Data.List.Nodup

/-!
# Look-up in tables

What a key stands for after a table has changed. Entering a key never disturbs the others. Removal
and selection agree with look-up as long as no key occurs twice, and every operation keeps it so.
-/

namespace ArrayInference

namespace Table

variable {κ α : Type} [DecidableEq κ]

/-- No key occurs twice. -/
def Distinct (t : Table κ α) : Prop :=
  (t.map Prod.fst).Nodup

theorem find?_insert (t : Table κ α) (key other : κ) (value : α) :
    (t.insert key value).find? other = if key = other then some value else t.find? other := by
  induction t with
  | nil => rfl
  | cons pair rest ih =>
    obtain ⟨k, a⟩ := pair
    by_cases h : k = key
    · subst h
      rw [insert, if_pos rfl, find?, find?]
      split <;> rfl
    · rw [insert, if_neg h, find?, find?, ih]
      by_cases ho : k = other
      · subst ho
        rw [if_pos rfl, if_pos rfl, if_neg (Ne.symm h)]
      · rw [if_neg ho, if_neg ho]

@[simp] theorem find?_insert_self (t : Table κ α) (key : κ) (value : α) :
    (t.insert key value).find? key = some value := by
  rw [find?_insert, if_pos rfl]

theorem find?_insert_of_ne (t : Table κ α) {key other : κ} (value : α) (h : key ≠ other) :
    (t.insert key value).find? other = t.find? other := by
  rw [find?_insert, if_neg h]

/-- Entering what is there already changes nothing. -/
theorem insert_of_find? {t : Table κ α} {key : κ} {value : α} (h : t.find? key = some value) :
    t.insert key value = t := by
  induction t with
  | nil => cases h
  | cons pair rest ih =>
    obtain ⟨k, a⟩ := pair
    by_cases hk : k = key
    · rw [find?, if_pos hk, Option.some.injEq] at h
      rw [insert, if_pos hk, h]
    · rw [find?, if_neg hk] at h
      rw [insert, if_neg hk, ih h]

theorem insert_insert (t : Table κ α) (key : κ) (old value : α) :
    (t.insert key old).insert key value = t.insert key value := by
  induction t with
  | nil => simp [insert]
  | cons pair rest ih =>
    obtain ⟨k, a⟩ := pair
    by_cases hk : k = key
    · rw [insert, if_pos hk, insert, if_pos hk, insert, if_pos hk]
    · rw [insert, if_neg hk, insert, if_neg hk, insert, if_neg hk, ih]

theorem mem_of_find? {t : Table κ α} {key : κ} {value : α} (h : t.find? key = some value) :
    (key, value) ∈ t := by
  induction t with
  | nil => cases h
  | cons pair rest ih =>
    obtain ⟨k, a⟩ := pair
    by_cases hk : k = key
    · rw [find?, if_pos hk, Option.some.injEq] at h
      rw [hk, h]
      exact List.mem_cons_self
    · rw [find?, if_neg hk] at h
      exact List.mem_cons_of_mem _ (ih h)

theorem find?_eq_none {t : Table κ α} {key : κ} :
    t.find? key = none ↔ key ∉ t.map Prod.fst := by
  induction t with
  | nil => simp [find?]
  | cons pair rest ih =>
    obtain ⟨k, a⟩ := pair
    rw [find?, List.map_cons, List.mem_cons, not_or, ← ih]
    by_cases hk : k = key
    · simp [hk]
    · simp [hk, Ne.symm hk]

theorem find?_of_mem {t : Table κ α} (distinct : t.Distinct) {key : κ} {value : α}
    (h : (key, value) ∈ t) : t.find? key = some value := by
  induction t with
  | nil => cases h
  | cons pair rest ih =>
    obtain ⟨k, a⟩ := pair
    obtain ⟨hfresh, hrest⟩ := List.nodup_cons.mp distinct
    rcases List.mem_cons.mp h with heq | hmem
    · cases heq
      rw [find?, if_pos rfl]
    · have hne : k ≠ key := by
        intro hk
        exact hfresh (List.mem_map.mpr ⟨_, hmem, hk.symm⟩)
      rw [find?, if_neg hne]
      exact ih hrest hmem

theorem contains_eq_true {t : Table κ α} {key : κ} :
    t.contains key = true ↔ ∃ value, t.find? key = some value := by
  rw [contains, Option.isSome_iff_exists]

theorem contains_eq_false {t : Table κ α} {key : κ} :
    t.contains key = false ↔ t.find? key = none := by
  rw [contains, Option.isSome_eq_false_iff, Option.isNone_iff_eq_none]

theorem map_fst_insert (t : Table κ α) (key : κ) (value : α) :
    (t.insert key value).map Prod.fst
      = if t.contains key then t.map Prod.fst else t.map Prod.fst ++ [key] := by
  induction t with
  | nil => rfl
  | cons pair rest ih =>
    obtain ⟨k, a⟩ := pair
    by_cases hk : k = key
    · simp [insert, contains, find?, hk]
    · have hc : contains ((k, a) :: rest) key = contains rest key := by
        rw [contains, find?, if_neg hk, contains]
      rw [insert, if_neg hk, List.map_cons, ih, hc]
      split <;> rfl

theorem length_insert_of_find? {t : Table κ α} {key : κ} {old : α} (h : t.find? key = some old)
    (value : α) : (t.insert key value).length = t.length := by
  rw [← List.length_map (f := Prod.fst), map_fst_insert,
    if_pos (contains_eq_true.mpr ⟨old, h⟩), List.length_map]

theorem length_insert_of_absent {t : Table κ α} {key : κ} (h : t.find? key = none) (value : α) :
    (t.insert key value).length = t.length + 1 := by
  rw [← List.length_map (f := Prod.fst), map_fst_insert,
    if_neg (by rw [contains_eq_false.mpr h]; exact Bool.false_ne_true), List.length_append,
    List.length_map]
  rfl

theorem mem_insert {t : Table κ α} {key : κ} {value : α} {pair : κ × α}
    (h : pair ∈ t.insert key value) : pair = (key, value) ∨ pair ∈ t := by
  induction t with
  | nil => exact .inl (List.mem_singleton.mp h)
  | cons first rest ih =>
    obtain ⟨k, a⟩ := first
    rw [insert] at h
    split at h
    · rename_i same
      subst same
      exact (List.mem_cons.mp h).imp_right (List.mem_cons_of_mem _)
    · rcases List.mem_cons.mp h with same | h
      · exact .inr (same ▸ List.mem_cons_self)
      · exact (ih h).imp_right (List.mem_cons_of_mem _)

/-! ## Distinct keys -/

theorem Distinct.insert {t : Table κ α} (h : t.Distinct) (key : κ) (value : α) :
    (t.insert key value).Distinct := by
  rw [Distinct, map_fst_insert]
  split
  · exact h
  · rename_i hc
    have hnone := find?_eq_none.mp (contains_eq_false.mp (Bool.not_eq_true _ ▸ hc))
    rw [List.nodup_append]
    refine ⟨h, List.nodup_singleton _, ?_⟩
    intro a ha b hb hab
    rw [List.mem_singleton.mp hb] at hab
    exact hnone (hab ▸ ha)

theorem erase_sublist (t : Table κ α) (key : κ) : (t.erase key).Sublist t := by
  induction t with
  | nil => exact List.Sublist.refl _
  | cons pair rest ih =>
    obtain ⟨k, a⟩ := pair
    rw [erase]
    split
    · exact List.sublist_cons_self _ _
    · exact ih.cons_cons _

omit [DecidableEq κ] in
theorem Distinct.sublist {t u : Table κ α} (h : u.Distinct) (sub : t.Sublist u) : t.Distinct :=
  List.Nodup.sublist (sub.map Prod.fst) h

theorem Distinct.erase {t : Table κ α} (h : t.Distinct) (key : κ) : (t.erase key).Distinct :=
  h.sublist (erase_sublist t key)

omit [DecidableEq κ] in
theorem Distinct.filter {t : Table κ α} (h : t.Distinct) (keep : κ × α → Bool) :
    Distinct (List.filter keep t) :=
  h.sublist List.filter_sublist

theorem find?_erase_of_ne (t : Table κ α) {key other : κ} (h : key ≠ other) :
    (t.erase key).find? other = t.find? other := by
  induction t with
  | nil => rfl
  | cons pair rest ih =>
    obtain ⟨k, a⟩ := pair
    rw [erase]
    by_cases hk : k = key
    · rw [if_pos hk, find?, if_neg (hk ▸ h)]
    · rw [if_neg hk, find?, find?, ih]

theorem find?_erase {t : Table κ α} (distinct : t.Distinct) (key other : κ) :
    (t.erase key).find? other = if key = other then none else t.find? other := by
  by_cases h : key = other
  · subst h
    rw [if_pos rfl]
    induction t with
    | nil => rfl
    | cons pair rest ih =>
      obtain ⟨k, a⟩ := pair
      obtain ⟨hfresh, hrest⟩ := List.nodup_cons.mp distinct
      rw [erase]
      by_cases hk : k = key
      · rw [if_pos hk]
        exact find?_eq_none.mpr (hk ▸ hfresh)
      · rw [if_neg hk, find?, if_neg hk]
        exact ih hrest
  · rw [if_neg h, find?_erase_of_ne t h]

theorem erase_of_absent {t : Table κ α} {key : κ} (h : t.find? key = none) : t.erase key = t := by
  induction t with
  | nil => rfl
  | cons pair rest ih =>
    obtain ⟨k, a⟩ := pair
    by_cases hk : k = key
    · rw [find?, if_pos hk] at h
      cases h
    · rw [find?, if_neg hk] at h
      rw [erase, if_neg hk, ih h]

theorem length_erase (t : Table κ α) (key : κ) :
    (t.erase key).length + (if t.contains key then 1 else 0) = t.length := by
  induction t with
  | nil => rfl
  | cons pair rest ih =>
    obtain ⟨k, a⟩ := pair
    by_cases hk : k = key
    · simp [erase, contains, find?, hk]
    · have hc : contains ((k, a) :: rest) key = contains rest key := by
        rw [contains, find?, if_neg hk, contains]
      rw [erase, if_neg hk, hc, List.length_cons, List.length_cons]
      omega

/-- Removal selects the other keys. -/
theorem erase_eq_filter {t : Table κ α} (distinct : t.Distinct) (key : κ) :
    t.erase key = List.filter (fun pair => decide (pair.1 ≠ key)) t := by
  induction t with
  | nil => rfl
  | cons pair rest ih =>
    obtain ⟨k, a⟩ := pair
    obtain ⟨hfresh, hrest⟩ := List.nodup_cons.mp distinct
    by_cases hk : k = key
    · have hkept : ∀ pair ∈ rest, decide (pair.1 ≠ key) = true := by
        intro pair hmem
        refine decide_eq_true fun hpair => hfresh ?_
        exact List.mem_map.mpr ⟨pair, hmem, hpair.trans hk.symm⟩
      rw [erase, if_pos hk, List.filter_cons, if_neg (by simp [hk]), List.filter_eq_self.mpr hkept]
    · rw [erase, if_neg hk, List.filter_cons, if_pos (by simp [hk]), ih hrest]

/-- Selection keeps what a key stands for exactly if it keeps the pair. -/
theorem find?_filter {t : Table κ α} (distinct : t.Distinct) (keep : κ × α → Bool) (key : κ) :
    find? (List.filter keep t) key = (t.find? key).filter fun value => keep (key, value) := by
  cases hfound : find? (List.filter keep t) key with
  | some value =>
    obtain ⟨hmem, hkeep⟩ := List.mem_filter.mp (mem_of_find? hfound)
    rw [find?_of_mem distinct hmem, Option.filter_some, if_pos hkeep]
  | none =>
    cases hall : t.find? key with
    | none => rfl
    | some value =>
      rw [Option.filter_some]
      split
      · rename_i hkeep
        have hmem : (key, value) ∈ List.filter keep t :=
          List.mem_filter.mpr ⟨mem_of_find? hall, hkeep⟩
        rw [find?_of_mem (distinct.filter keep) hmem] at hfound
        cases hfound
      · rfl

/-- Selection by keys alone. -/
theorem find?_filter_key (t : Table κ α) (keep : κ → Bool) (key : κ) :
    find? (List.filter (fun pair => keep pair.1) t) key
      = if keep key then t.find? key else none := by
  induction t with
  | nil => simp [find?]
  | cons pair rest ih =>
    obtain ⟨k, a⟩ := pair
    rw [List.filter_cons, find?]
    by_cases hk : k = key
    · subst hk
      by_cases h : keep k = true
      · rw [if_pos h, if_pos h, find?, if_pos rfl, if_pos rfl]
      · rw [if_neg h, ih, if_neg h, if_neg h]
    · rw [if_neg hk]
      by_cases h : keep k = true
      · rw [if_pos h, find?, if_neg hk, ih]
      · rw [if_neg h, ih]

end Table

end ArrayInference
