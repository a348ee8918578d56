import ArrayInference.Engine.Run
import ArrayInference.Proofs.Engine.Poisoning
import ArrayInference.Proofs.Engine.Search

/-!
# A failure that spreads, in any order

A late failure goes from an entry to its readers, and on to theirs, as long as it meets entries that
have not failed. The pending entries may be taken in any order. Every order comes to an end, because
an entry that has failed is not turned into a failure again, and all orders leave the same memo: what
can be reached through entries that had not failed holds the failure, and everything else is as it
was.
-/

namespace ArrayInference

namespace Memo

/-- The entry is there and has not failed. -/
def Unfailed (m : Memo) (key : Entry) : Prop :=
  ∃ p, m.find? key = some p ∧ p.hasFailed = false

/-- A failure of one entry reaches another one: from reader to reader, through entries that have not
failed. -/
def Strikes (m : Memo) (readers : Readers) (key : Entry) (other : Entry) : Prop :=
  m.Unfailed key ∧ Relation.ReflTransGen (fun a b => readers.Edge a b ∧ m.Unfailed b) key other

variable {m : Memo} {readers : Readers} {key other : Entry}

theorem reached_iff_strikes :
    Search.Reached readers.of m.Unfailed [key] other ↔ m.Strikes readers key other := by
  simp only [Search.Reached, List.mem_singleton, exists_eq_left, Strikes]
  rfl

theorem Strikes.unfailed (h : m.Strikes readers key other) : m.Unfailed other :=
  (reached_iff_strikes.mpr h).opened

theorem not_unfailed_of_failed (h : m.Failed key) : ¬ m.Unfailed key := by
  obtain ⟨p, e, hp, he⟩ := h
  rintro ⟨q, hq, sound⟩
  obtain rfl := Option.some.inj (hp.symm.trans hq)
  rw [Promise.hasFailed_eq_true.mpr ⟨e, he⟩] at sound
  cases sound

end Memo

/-- A memo in which a failure spreads, and the entries that are still to be turned into failures. -/
structure Spreading where
  memo : Memo
  pending : List Entry

namespace Spreading

variable {m : Memo} {readers : Readers} {e : InferError} {key : Entry} {d d' : Spreading}
  {s : Search Entry}

/-- One pending entry is dealt with, no matter which. -/
inductive Step (readers : Readers) (e : InferError) : Spreading → Spreading → Prop where
  /-- It has not failed: it does now, and its readers become pending in any order. -/
  | fail {d : Spreading} {key : Entry} {rest pending : List Entry} {p q : Promise TaskId}
      {woken : List TaskId} (picked : d.pending.Perm (key :: rest))
      (found : d.memo.find? key = some p) (poisoned : p.poison? e = some (woken, q))
      (pushed : pending.Perm (readers.of key ++ rest)) :
      Step readers e d { memo := d.memo.insert key q, pending }
  /-- It is not there, or it refuses a second failure. -/
  | skip {d : Spreading} {key : Entry} {rest pending : List Entry}
      (picked : d.pending.Perm (key :: rest))
      (refused : ∀ p, d.memo.find? key = some p → p.poison? e = none)
      (left : pending.Perm rest) :
      Step readers e d { memo := d.memo, pending }

/-- What is left to do: the pending entries, and the readers of the entries that have not failed. -/
def load (readers : Readers) (d : Spreading) : Nat :=
  d.memo.soundReads readers + d.pending.length

theorem Step.load_lt (step : Step readers e d d') : d'.load readers < d.load readers := by
  cases step with
  | @fail key rest pending p q woken picked found poisoned pushed =>
    have hpicked : d.pending.length = rest.length + 1 := picked.length_eq
    have hpushed : pending.length = (readers.of key).length + rest.length := by
      rw [pushed.length_eq, List.length_append]
    obtain ⟨sound, failed⟩ := Promise.hasFailed_of_poison? poisoned
    have hsound : Memo.soundReads readers (d.memo.insert key q) + (1 + (readers.of key).length)
        = d.memo.soundReads readers := Memo.soundReads_insert found sound failed
    simp only [load]
    omega
  | skip picked refused left =>
    simp only [load, left.length_eq, picked.length_eq, List.length_cons]
    omega

/-- A failure spreads for ever in no order, even if entries have read each other. -/
theorem wellFounded_step (readers : Readers) (e : InferError) :
    WellFounded fun d' d => Step readers e d d' :=
  Subrelation.wf (fun step => step.load_lt) (measure (load readers)).wf

/-- An entry that has been turned into a failure. -/
def failure (e : InferError) : Promise TaskId :=
  { result := some (.error e), waiters := [] }

/-- The memo is told by the entries that the search along the readers has entered. -/
structure Shows (m : Memo) (e : InferError) (d : Spreading) (s : Search Entry) : Prop where
  failed : ∀ k ∈ s.entered, d.memo.find? k = some (failure e)
  same : ∀ k, k ∉ s.entered → d.memo.find? k = m.find? k
  pending : d.pending = s.pending

/-- Dealing with an entry is a step of the search. -/
theorem Shows.step (h : Shows m e d s) (step : Step readers e d d') :
    ∃ s', Search.Step readers.of m.Unfailed s s' ∧ Shows m e d' s' := by
  cases step with
  | @fail key rest pending p q woken picked found poisoned pushed =>
    have sound := (Promise.hasFailed_of_poison? poisoned).1
    rw [Promise.poison?_of_not_failed sound] at poisoned
    obtain ⟨rfl, rfl⟩ := Prod.mk.injEq .. ▸ Option.some.inj poisoned
    have new : key ∉ s.entered := by
      intro hkey
      obtain rfl := Option.some.inj (found.symm.trans (h.failed key hkey))
      cases sound
    have opened : m.Unfailed key := ⟨p, (h.same key new).symm.trans found, sound⟩
    rw [h.pending] at picked
    refine ⟨_, .enter picked opened new pushed, fun k hk => ?_, fun k hk => ?_, rfl⟩
    · by_cases hkey : key = k
      · subst hkey
        exact Table.find?_insert_self _ _ _
      · exact (Table.find?_insert_of_ne _ _ hkey).trans
          (h.failed k ((List.mem_cons.mp hk).resolve_left (Ne.symm hkey)))
    · have hkey : key ≠ k := fun heq => hk (heq ▸ List.mem_cons_self)
      exact (Table.find?_insert_of_ne _ _ hkey).trans
        (h.same k fun hmem => hk (List.mem_cons_of_mem _ hmem))
  | @skip key rest pending picked refused left =>
    rw [h.pending] at picked
    refine ⟨_, .pass picked ?_ left, h.failed, h.same, rfl⟩
    rintro ⟨p, found, sound⟩
    by_contra new
    have hnone := refused p ((h.same key new).trans found)
    rw [Promise.poison?_of_not_failed sound] at hnone
    cases hnone

/-- Spreading in any order is a search along the readers. -/
theorem exists_search
    (steps : Relation.ReflTransGen (Step readers e) { memo := m, pending := [key] } d) :
    ∃ s, Search.Sound readers.of m.Unfailed [key] s ∧ Shows m e d s := by
  induction steps with
  | refl =>
    exact ⟨_, Search.sound_start _ _ _, ⟨fun _ h => (nomatch h), fun _ _ => rfl, rfl⟩⟩
  | tail _ step ih =>
    obtain ⟨s, sound, shows'⟩ := ih
    obtain ⟨s', moved, shows''⟩ := shows'.step step
    exact ⟨s', sound.step moved, shows''⟩

/-- What the memo holds when nothing is pending any more. -/
structure Over (m : Memo) (readers : Readers) (key : Entry) (e : InferError) (m' : Memo) : Prop where
  struck : ∀ k, m.Strikes readers key k → m'.find? k = some (failure e)
  spared : ∀ k, ¬ m.Strikes readers key k → m'.find? k = m.find? k

theorem over_of_steps
    (steps : Relation.ReflTransGen (Step readers e) { memo := m, pending := [key] } d)
    (finished : d.pending = []) : Over m readers key e d.memo := by
  obtain ⟨s, sound, shows'⟩ := exists_search steps
  have entered (k : Entry) : k ∈ s.entered ↔ m.Strikes readers key k :=
    (sound.mem_entered_iff (shows'.pending ▸ finished)).trans Memo.reached_iff_strikes
  refine ⟨fun k hk => shows'.failed k ((entered k).mpr hk), fun k hk => shows'.same k ?_⟩
  rwa [entered]

/-- The order that the engine takes is one of them. -/
theorem steps_poisonAll (readers : Readers) (e : InferError) (m : Memo) (woken : List TaskId)
    (pending : List Entry) :
    Relation.ReflTransGen (Step readers e) { memo := m, pending }
      { memo := (Memo.poisonAll readers e m woken pending).2, pending := [] } := by
  fun_induction Memo.poisonAll readers e m woken pending with
  | case1 m woken => exact .refl
  | case2 m woken key rest absent ih =>
    refine .head (.skip (.refl _) ?_ (.refl _)) ih
    intro q hq
    simp [absent] at hq
  | case3 m woken key rest p found refused ih =>
    refine .head (.skip (.refl _) ?_ (.refl _)) ih
    intro q hq
    obtain rfl := Option.some.inj (found.symm.trans hq)
    exact refused
  | case4 m woken key rest p found waiters q poisoned ih =>
    exact .head (.fail (.refl _) found poisoned (.refl _)) ih

end Spreading

namespace Run

open Spreading in
/-- A late failure of an entry spreads in any order to the same entries, and comes to an end in each.
The entries that can be reached from reader to reader through entries that have not failed hold the
failure, and what their own computation finds later is refused; entries that have failed before keep
their own error, all other entries and the readers are as they were. -/
theorem poison_exact (s : Run) (key : Entry) (e : InferError) :
    WellFounded (fun d' d => Step s.engine.readers e d d')
      ∧ Relation.ReflTransGen (Step s.engine.readers e)
          { memo := s.engine.memo, pending := [key] }
          { memo := (s.poison key e).engine.memo, pending := [] }
      ∧ (∀ d, d.pending = [] →
          Relation.ReflTransGen (Step s.engine.readers e)
            { memo := s.engine.memo, pending := [key] } d →
          ∀ k, d.memo.find? k = (s.poison key e).engine.memo.find? k)
      ∧ (∀ k, s.engine.memo.Strikes s.engine.readers key k →
          (s.poison key e).engine.memo.find? k = some { result := some (.error e), waiters := [] }
            ∧ ∀ r, (s.poison key e).resolve (.entry k) r = s.poison key e)
      ∧ (∀ k, s.engine.memo.Failed k →
          (s.poison key e).engine.memo.find? k = s.engine.memo.find? k)
      ∧ (∀ k, ¬ s.engine.memo.Strikes s.engine.readers key k →
          (s.poison key e).engine.memo.find? k = s.engine.memo.find? k)
      ∧ (s.poison key e).engine = { s.engine with memo := (s.poison key e).engine.memo } := by
  have taken := steps_poisonAll s.engine.readers e s.engine.memo [] [key]
  have finished : Over s.engine.memo s.engine.readers key e (s.poison key e).engine.memo :=
    over_of_steps taken rfl
  refine ⟨wellFounded_step _ _, taken, ?_, ?_, ?_, finished.spared, rfl⟩
  · intro d done steps k
    have finished' := over_of_steps steps done
    by_cases hk : s.engine.memo.Strikes s.engine.readers key k
    · rw [finished'.struck k hk, finished.struck k hk]
    · rw [finished'.spared k hk, finished.spared k hk]
  · intro k hk
    refine ⟨finished.struck k hk, fun r => ?_⟩
    have resolved : (s.poison key e).promise? (.entry k) = some (failure e) := finished.struck k hk
    rw [resolve, resolved]
    rfl
  · exact fun k hk => finished.spared k fun strikes => Memo.not_unfailed_of_failed hk strikes.unfailed

end Run

end ArrayInference
