import ArrayInference.Proofs.Engine.Poisoning

/-!
# What is dropped

Entries that are no longer valid are dropped, together with everything that can be reached from one
of them by going from an entry to its readers. Everything else stays, and so do its readers.
-/

namespace ArrayInference

namespace Memo

/-- Nothing is left of an entry. -/
def Gone (m : Memo) (r : Readers) (key : Entry) : Prop :=
  m.find? key = none ∧ r.find? key = none

/-- What is left of a memo when the pending entries, and what read them, are dropped. -/
structure Dropped (pending : List Entry) (m : Memo) (r : Readers) (m' : Memo) (r' : Readers) :
    Prop where
  kept : ∀ key, (m'.find? key = m.find? key ∧ r'.find? key = r.find? key)
    ∨ (Gone m' r' key ∧ ∃ start ∈ pending, Relation.ReflTransGen r.Edge start key)
  start : ∀ key ∈ pending, Gone m' r' key
  closed : ∀ key, r.find? key ≠ none → Gone m' r' key → ∀ reader ∈ r.of key, Gone m' r' reader
  distinct : m'.Distinct
  distinctReaders : r'.Distinct

variable {pending rest : List Entry} {m m' : Memo} {r r' : Readers} {key : Entry}

theorem Dropped.gone (h : Dropped pending m r m' r') {k : Entry} (gone : Gone m r k) :
    Gone m' r' k := by
  rcases h.kept k with ⟨hm, hr⟩ | ⟨hgone, -⟩
  · exact ⟨hm.trans gone.1, hr.trans gone.2⟩
  · exact hgone

theorem Readers.of_of_find?_none {r : Readers} {k : Entry} (h : r.find? k = none) : r.of k = [] := by
  rw [Readers.of, h]
  rfl

theorem dropped_dropAll (n : Nat) (hm : m.Distinct) (hr : r.Distinct) (pending : List Entry) :
    Dropped pending m r (dropAll n m r pending).2.1 (dropAll n m r pending).2.2 := by
  fun_induction dropAll n m r pending with
  | case1 n m r =>
    exact ⟨fun _ => Or.inl ⟨rfl, rfl⟩, by simp, fun _ hk hgone => absurd hgone.2 hk, hm, hr⟩
  | case2 n m r key rest dropped absent ih =>
    have ih := ih (hm.erase key) hr
    have hkey : Gone (m.erase key) r key := ⟨by rw [Table.find?_erase hm, if_pos rfl], absent⟩
    refine ⟨?_, ?_, ih.closed, ih.distinct, ih.distinctReaders⟩
    · intro k
      by_cases hk : key = k
      · subst hk
        exact Or.inr ⟨ih.gone hkey, key, List.mem_cons_self, .refl⟩
      · rcases ih.kept k with ⟨hm', hr'⟩ | ⟨hgone, start, hstart, path⟩
        · exact Or.inl ⟨by rw [hm', Table.find?_erase_of_ne _ hk], hr'⟩
        · exact Or.inr ⟨hgone, start, List.mem_cons_of_mem _ hstart, path⟩
    · intro k hk
      rcases List.mem_cons.mp hk with rfl | hk
      · exact ih.gone hkey
      · exact ih.start k hk
  | case3 n m r key rest dropped known found ih =>
    have ih := ih (hm.erase key) (hr.erase key)
    have hkey : Gone (m.erase key) (r.erase key) key :=
      ⟨by rw [Table.find?_erase hm, if_pos rfl], by rw [Table.find?_erase hr, if_pos rfl]⟩
    have hof : r.of key = known := by rw [Readers.of, found]; rfl
    have hedge : ∀ {a b : Entry}, Readers.Edge (r.erase key) a b → r.Edge a b := by
      intro a b hab
      by_cases ha : key = a
      · subst ha
        rw [Readers.Edge, Readers.of_of_find?_none hkey.2] at hab
        cases hab
      · rw [Readers.Edge, Readers.of, Table.find?_erase_of_ne _ ha] at hab
        exact hab
    refine ⟨?_, ?_, ?_, ih.distinct, ih.distinctReaders⟩
    · intro k
      by_cases hk : key = k
      · subst hk
        exact Or.inr ⟨ih.gone hkey, key, List.mem_cons_self, .refl⟩
      · rcases ih.kept k with ⟨hm', hr'⟩ | ⟨hgone, start, hstart, path⟩
        · refine Or.inl ⟨?_, ?_⟩
          · rw [hm', Table.find?_erase_of_ne _ hk]
          · rw [hr', Table.find?_erase_of_ne _ hk]
        · refine Or.inr ⟨hgone, ?_⟩
          have path := Relation.ReflTransGen.mono (fun _ _ => hedge) _ _ path
          rcases List.mem_append.mp hstart with hreader | hrest
          · exact ⟨key, List.mem_cons_self, .head (show start ∈ r.of key from hof ▸ hreader) path⟩
          · exact ⟨start, List.mem_cons_of_mem _ hrest, path⟩
    · intro k hk
      rcases List.mem_cons.mp hk with rfl | hk
      · exact ih.gone hkey
      · exact ih.start k (List.mem_append_right _ hk)
    · intro k hk hgone reader hreader
      by_cases heq : key = k
      · subst heq
        exact ih.start reader (List.mem_append_left _ (hof ▸ hreader))
      · refine ih.closed k ?_ hgone reader ?_
        · rw [Table.find?_erase_of_ne _ heq]
          exact hk
        · rw [Readers.of, Table.find?_erase_of_ne _ heq]
          exact hreader

/-- Exactly what can be reached from the pending entries is dropped. -/
theorem Dropped.gone_of_reaches (h : Dropped pending m r m' r') {start key : Entry}
    (hstart : start ∈ pending) (path : Relation.ReflTransGen r.Edge start key) : Gone m' r' key := by
  induction path with
  | refl => exact h.start start hstart
  | @tail a b _ edge ih =>
    refine h.closed a ?_ ih b edge
    intro hnone
    rw [Readers.Edge, Readers.of_of_find?_none hnone] at edge
    cases edge

end Memo

end ArrayInference
