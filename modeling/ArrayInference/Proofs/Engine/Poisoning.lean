import ArrayInference.Engine.Memo
import ArrayInference.Proofs.Table
import Mathlib.Logic.Relation

/-!
# How far a late failure reaches

A late failure turns an entry into a failure, together with everything that can be reached from it
by going from an entry to its readers. Entries that have failed before keep their own error.
-/

namespace ArrayInference

namespace Promise

variable {ω : Type} {p : Promise ω}

theorem hasFailed_eq_true : p.hasFailed = true ↔ ∃ e, p.result = some (.error e) := by
  rw [hasFailed]
  constructor
  · intro h
    split at h
    · exact ⟨_, by assumption⟩
    · cases h
  · rintro ⟨e, he⟩
    rw [he]

theorem poison?_of_not_failed (h : p.hasFailed = false) (e : InferError) :
    p.poison? e = some (p.waiters, { result := some (.error e), waiters := [] }) := by
  rw [poison?, h, if_neg Bool.false_ne_true]

theorem poison?_of_failed (h : p.hasFailed = true) (e : InferError) : p.poison? e = none := by
  rw [poison?, if_pos h]

end Promise

/-- One entry was asked for by the computation of another one. -/
def Readers.Edge (r : Readers) (key reader : Entry) : Prop :=
  reader ∈ r.of key

namespace Memo

/-- The entry has a failure for its result. -/
def Failed (m : Memo) (key : Entry) : Prop :=
  ∃ p e, m.find? key = some p ∧ p.result = some (.error e)

/-- What a late failure has done to the memo. -/
structure Poisoned (readers : Readers) (e : InferError) (pending : List Entry) (m : Memo)
    (woken : List TaskId) (m' : Memo) : Prop where
  /-- What has changed is reached from a pending entry, and whoever waited for it is woken. -/
  changed : ∀ k, m'.find? k = m.find? k ∨
    ∃ p, m.find? k = some p ∧ p.hasFailed = false
      ∧ m'.find? k = some { result := some (.error e), waiters := [] } ∧ p.waiters ⊆ woken
      ∧ ∃ start ∈ pending, Relation.ReflTransGen readers.Edge start k
  /-- The pending entries have failed. -/
  start : ∀ k ∈ pending, (m.find? k).isSome → m'.Failed k
  /-- So have the readers of all that has changed. -/
  closed : ∀ k, m'.find? k ≠ m.find? k → ∀ reader ∈ readers.of k, (m.find? reader).isSome →
    m'.Failed reader

namespace Poisoned

variable {readers : Readers} {e : InferError} {pending rest : List Entry} {m m' : Memo}
  {woken : List TaskId} {key : Entry}

theorem nil : Poisoned readers e [] m woken m where
  changed := fun _ => Or.inl rfl
  start := fun _ hk => nomatch hk
  closed := fun _ hk => absurd rfl hk

/-- A pending entry that has failed already, or is not there, makes no difference. -/
theorem skip (h : Poisoned readers e rest m woken m')
    (settled : (m.find? key).isSome → m.Failed key) :
    Poisoned readers e (key :: rest) m woken m' where
  changed := by
    intro k
    rcases h.changed k with hsame | ⟨p, hp, hsound, hnew, hwoken, start, hstart, path⟩
    · exact Or.inl hsame
    · exact Or.inr ⟨p, hp, hsound, hnew, hwoken, start, List.mem_cons_of_mem _ hstart, path⟩
  start := by
    intro k hk hsome
    rcases List.mem_cons.mp hk with rfl | hk
    · obtain ⟨p, e', hp, he'⟩ := settled hsome
      rcases h.changed k with hsame | ⟨q, -, -, hnew, -⟩
      · exact ⟨p, e', hsame.trans hp, he'⟩
      · exact ⟨_, e, hnew, rfl⟩
    · exact h.start k hk hsome
  closed := h.closed

/-- A pending entry fails, and its readers become pending. -/
theorem fail {p : Promise TaskId} (found : m.find? key = some p) (sound : p.hasFailed = false)
    (hwoken : p.waiters ⊆ woken)
    (h : Poisoned readers e (readers.of key ++ rest)
      (m.insert key { result := some (.error e), waiters := [] }) woken m') :
    Poisoned readers e (key :: rest) m woken m' := by
  have hkey : m'.find? key = some { result := some (.error e), waiters := [] } := by
    rcases h.changed key with hsame | ⟨q, hq, hsound, -⟩
    · exact hsame.trans (Table.find?_insert_self _ _ _)
    · rw [Table.find?_insert_self, Option.some.injEq] at hq
      subst hq
      cases hsound
  have hother : ∀ k, key ≠ k →
      Table.find? (m.insert key { result := some (.error e), waiters := [] }) k = m.find? k :=
    fun k hk => Table.find?_insert_of_ne _ _ hk
  have hsome : ∀ k, (m.find? k).isSome →
      (Table.find? (m.insert key { result := some (.error e), waiters := [] }) k).isSome := by
    intro k hk
    rw [Table.find?_insert]
    split
    · rfl
    · exact hk
  refine ⟨?_, ?_, ?_⟩
  · intro k
    by_cases hk : key = k
    · subst hk
      exact Or.inr ⟨p, found, sound, hkey, hwoken, key, List.mem_cons_self, .refl⟩
    · rcases h.changed k with hsame | ⟨q, hq, hsound, hnew, hwaiters, start, hstart, path⟩
      · exact Or.inl (hsame.trans (hother k hk))
      · rw [hother k hk] at hq
        refine Or.inr ⟨q, hq, hsound, hnew, hwaiters, ?_⟩
        rcases List.mem_append.mp hstart with hedge | hrest
        · exact ⟨key, List.mem_cons_self, .head hedge path⟩
        · exact ⟨start, List.mem_cons_of_mem _ hrest, path⟩
  · intro k hk hs
    rcases List.mem_cons.mp hk with rfl | hk
    · exact ⟨_, e, hkey, rfl⟩
    · exact h.start k (List.mem_append_right _ hk) (hsome k hs)
  · intro k hne reader hreader hs
    by_cases hk : key = k
    · subst hk
      exact h.start reader (List.mem_append_left _ hreader) (hsome reader hs)
    · exact h.closed k (by rwa [hother k hk]) reader hreader (hsome reader hs)

end Poisoned

theorem subset_poisonAll (readers : Readers) (e : InferError) (m : Memo) (woken : List TaskId)
    (pending : List Entry) : woken ⊆ (poisonAll readers e m woken pending).1 := by
  fun_induction poisonAll readers e m woken pending with
  | case1 m woken => exact fun _ h => h
  | case2 m woken key rest absent ih => exact ih
  | case3 m woken key rest p found failed ih => exact ih
  | case4 m woken key rest p found waiters q sound ih =>
    exact fun _ h => ih (List.mem_append_left _ h)

theorem poisoned_poisonAll (readers : Readers) (e : InferError) (m : Memo) (woken : List TaskId)
    (pending : List Entry) :
    Poisoned readers e pending m (poisonAll readers e m woken pending).1
      (poisonAll readers e m woken pending).2 := by
  fun_induction poisonAll readers e m woken pending with
  | case1 m woken => exact .nil
  | case2 m woken key rest absent ih =>
    refine ih.skip ?_
    rw [absent]
    exact fun h => nomatch h
  | case3 m woken key rest p found failed ih =>
    refine ih.skip fun _ => ?_
    cases hfailed : p.hasFailed with
    | true =>
      obtain ⟨e', he'⟩ := Promise.hasFailed_eq_true.mp hfailed
      exact ⟨p, e', found, he'⟩
    | false =>
      rw [Promise.poison?_of_not_failed hfailed] at failed
      cases failed
  | case4 m woken key rest p found waiters q failing ih =>
    have sound := (Promise.hasFailed_of_poison? failing).1
    rw [Promise.poison?_of_not_failed sound] at failing
    obtain ⟨rfl, rfl⟩ := Prod.mk.injEq .. ▸ Option.some.inj failing
    refine Poisoned.fail found sound ?_ ih
    exact fun t ht => subset_poisonAll readers e _ _ _ (List.mem_append_right _ ht)

/-- A late failure reaches exactly what can be reached from reader to reader. -/
theorem poisoned_poison (m : Memo) (readers : Readers) (key : Entry) (e : InferError) :
    Poisoned readers e [key] m (m.poison readers key e).1 (m.poison readers key e).2 :=
  poisoned_poisonAll readers e m [] [key]

end Memo

end ArrayInference
