import ArrayInference.Proofs.Engine.Invalidation
import ArrayInference.Proofs.Engine.Search

/-!
# Dropping in any order

The pending entries may be dropped in any order, and so may the readers of an entry once it is gone.
Every order comes to an end, and all orders end in the same place: the entries that can be reached
from the first ones along reader edges are gone, with their readers, and all others are as they were.
-/

namespace ArrayInference

namespace Table

variable {κ α : Type} [DecidableEq κ] (t : Table κ α) {keys : List κ} {key : κ}

/-- A table without some keys. -/
def without (t : Table κ α) (keys : List κ) : Table κ α :=
  List.filter (fun pair => decide (pair.1 ∉ keys)) t

theorem without_nil : t.without [] = t := by
  simp [without]

theorem without_congr {others : List κ} (h : ∀ k, k ∈ keys ↔ k ∈ others) :
    t.without keys = t.without others := by
  simp only [without, h]

theorem without_cons_of_mem (h : key ∈ keys) : t.without (key :: keys) = t.without keys :=
  t.without_congr fun _ =>
    ⟨fun hk => (List.mem_cons.mp hk).elim (fun heq => heq ▸ h) id, List.mem_cons_of_mem _⟩

theorem find?_without (keys : List κ) (key : κ) :
    (t.without keys).find? key = if key ∈ keys then none else t.find? key := by
  rw [without, find?_filter_key t (fun k => decide (k ∉ keys))]
  by_cases h : key ∈ keys
  · rw [if_pos h, if_neg (by simpa using h)]
  · rw [if_neg h, if_pos (by simpa using h)]

theorem erase_without {t : Table κ α} (distinct : t.Distinct) (keys : List κ) (key : κ) :
    (t.without keys).erase key = t.without (key :: keys) := by
  rw [without, erase_eq_filter (distinct.filter _), List.filter_filter, without]
  congr 1
  funext pair
  simp [not_or]

end Table

/-- What is left while entries are dropped, and which ones are still to be dropped. -/
structure Dropping where
  /-- How many entries are gone. -/
  dropped : Nat
  memo : Memo
  readers : Readers
  pending : List Entry

namespace Dropping

variable {m : Memo} {r : Readers} {d d' : Dropping} {s : Search Entry} {keys : List Entry}

/-- The beginning. -/
def start (m : Memo) (r : Readers) (keys : List Entry) : Dropping :=
  { dropped := 0, memo := m, readers := r, pending := keys }

/-- One pending entry is dropped, no matter which, and its readers become pending in any order. -/
inductive Step : Dropping → Dropping → Prop where
  | drop {d : Dropping} {key : Entry} {rest pending : List Entry}
      (picked : d.pending.Perm (key :: rest))
      (pushed : pending.Perm (d.readers.of key ++ rest)) :
      Step d
        { dropped := if d.memo.contains key then d.dropped + 1 else d.dropped
          memo := d.memo.erase key
          readers := d.readers.erase key
          pending }

/-- What is left to do: the pending entries, and the readers that may still become pending. -/
def load (d : Dropping) : Nat :=
  Memo.reads d.readers + d.pending.length

theorem Step.load_lt (step : Step d d') : d'.load < d.load := by
  cases step with
  | @drop key rest pending picked pushed =>
    have hpicked : d.pending.length = rest.length + 1 := picked.length_eq
    have hpushed : pending.length = (d.readers.of key).length + rest.length := by
      rw [pushed.length_eq, List.length_append]
    simp only [load]
    cases found : d.readers.find? key with
    | none =>
      rw [Memo.Readers.of_of_find?_none found] at hpushed
      rw [Table.erase_of_absent found, hpushed, hpicked]
      simp
    | some known =>
      have hof : d.readers.of key = known := by rw [Readers.of, found]; rfl
      have := Memo.reads_erase found
      rw [hof] at hpushed
      omega

/-- No order of dropping goes on for ever. -/
theorem wellFounded_step : WellFounded fun d' d => Step d d' :=
  Subrelation.wf (fun step => step.load_lt) (measure load).wf

/-- What is left is told by the entries that the search along the readers has entered. -/
structure Shows (m : Memo) (r : Readers) (d : Dropping) (s : Search Entry) : Prop where
  memo : d.memo = m.without s.entered
  readers : d.readers = r.without s.entered
  dropped : d.dropped + d.memo.length = m.length
  pending : d.pending = s.pending

/-- Dropping an entry is a step of the search. -/
theorem Shows.step (hm : m.Distinct) (hr : r.Distinct) (h : Shows m r d s) (step : Step d d') :
    ∃ s', Search.Step r.of (fun _ => True) s s' ∧ Shows m r d' s' := by
  cases step with
  | @drop key rest pending picked pushed =>
    have hmemo : d.memo.erase key = m.without (key :: s.entered) := by
      rw [h.memo, Table.erase_without hm]
    have hreaders : d.readers.erase key = r.without (key :: s.entered) := by
      rw [h.readers, Table.erase_without hr]
    have hcount : (if d.memo.contains key then d.dropped + 1 else d.dropped)
        + (d.memo.erase key).length = m.length := by
      have hlength := Table.length_erase d.memo key
      have hdropped := h.dropped
      by_cases hc : d.memo.contains key = true
      · rw [if_pos hc] at hlength ⊢
        omega
      · rw [if_neg hc] at hlength ⊢
        omega
    have hfind : d.readers.find? key = if key ∈ s.entered then none else r.find? key := by
      rw [h.readers, Table.find?_without]
    rw [h.pending] at picked
    by_cases hkey : key ∈ s.entered
    · have hnone : d.readers.of key = [] := by
        rw [Readers.of, hfind, if_pos hkey]
        rfl
      rw [hnone, List.nil_append] at pushed
      refine ⟨_, .pass picked (fun _ => hkey) pushed, ?_, ?_, hcount, rfl⟩
      · exact hmemo.trans (m.without_cons_of_mem hkey)
      · exact hreaders.trans (r.without_cons_of_mem hkey)
    · have hsame : d.readers.of key = r.of key := by
        rw [Readers.of, hfind, if_neg hkey, Readers.of]
      rw [hsame] at pushed
      exact ⟨_, .enter picked trivial hkey pushed, hmemo, hreaders, hcount, rfl⟩

theorem shows_start : Shows m r (start m r keys) { entered := [], pending := keys } where
  memo := m.without_nil.symm
  readers := r.without_nil.symm
  dropped := Nat.zero_add _
  pending := rfl

/-- Dropping in any order is a search along the readers. -/
theorem exists_search (hm : m.Distinct) (hr : r.Distinct)
    (steps : Relation.ReflTransGen Step (start m r keys) d) :
    ∃ s, Search.Sound r.of (fun _ => True) keys s ∧ Shows m r d s := by
  induction steps with
  | refl => exact ⟨_, Search.sound_start _ _ _, shows_start⟩
  | tail _ step ih =>
    obtain ⟨s, sound, shows'⟩ := ih
    obtain ⟨s', moved, shows''⟩ := shows'.step hm hr step
    exact ⟨s', sound.step moved, shows''⟩

/-- The entries that can be reached from some entries along reader edges. -/
def Reached (r : Readers) (keys : List Entry) (key : Entry) : Prop :=
  ∃ start ∈ keys, Relation.ReflTransGen r.Edge start key

theorem reached_iff {key : Entry} :
    Search.Reached r.of (fun _ => True) keys key ↔ Reached r keys key := by
  simp only [Search.Reached, Reached, true_and, and_true]
  rfl

/-- What is left when nothing is pending any more. -/
structure Over (m : Memo) (r : Readers) (keys : List Entry) (d : Dropping) : Prop where
  /-- What can be reached is gone. -/
  gone : ∀ key, Reached r keys key → d.memo.find? key = none ∧ d.readers.find? key = none
  /-- All else is as it was. -/
  kept : ∀ key, ¬ Reached r keys key →
    d.memo.find? key = m.find? key ∧ d.readers.find? key = r.find? key
  /-- The entries that are gone have been counted. -/
  counted : d.dropped + d.memo.length = m.length

theorem over_of_steps (hm : m.Distinct) (hr : r.Distinct)
    (steps : Relation.ReflTransGen Step (start m r keys) d) (finished : d.pending = []) :
    Over m r keys d := by
  obtain ⟨s, sound, shows'⟩ := exists_search hm hr steps
  have entered {key : Entry} : key ∈ s.entered ↔ Reached r keys key :=
    (sound.mem_entered_iff (shows'.pending ▸ finished)).trans reached_iff
  refine ⟨fun key hkey => ?_, fun key hkey => ?_, shows'.dropped⟩
  · rw [← entered] at hkey
    rw [shows'.memo, shows'.readers, Table.find?_without, Table.find?_without, if_pos hkey,
      if_pos hkey]
    exact ⟨rfl, rfl⟩
  · rw [← entered] at hkey
    rw [shows'.memo, shows'.readers, Table.find?_without, Table.find?_without, if_neg hkey,
      if_neg hkey]
    exact ⟨rfl, rfl⟩

/-- All orders end in the same place. -/
theorem unique_over (hm : m.Distinct) (hr : r.Distinct)
    (steps : Relation.ReflTransGen Step (start m r keys) d) (finished : d.pending = [])
    (steps' : Relation.ReflTransGen Step (start m r keys) d') (finished' : d'.pending = []) :
    d = d' := by
  obtain ⟨s, sound, shows'⟩ := exists_search hm hr steps
  obtain ⟨s', sound', shows''⟩ := exists_search hm hr steps'
  have entered (key : Entry) : key ∈ s.entered ↔ key ∈ s'.entered :=
    (sound.mem_entered_iff (shows'.pending ▸ finished)).trans
      (sound'.mem_entered_iff (shows''.pending ▸ finished')).symm
  have memo : d.memo = d'.memo := by
    rw [shows'.memo, shows''.memo, m.without_congr entered]
  have readers : d.readers = d'.readers := by
    rw [shows'.readers, shows''.readers, r.without_congr entered]
  have dropped : d.dropped = d'.dropped := by
    have := shows'.dropped
    have := shows''.dropped
    rw [memo] at *
    omega
  cases d
  cases d'
  simp_all

/-- The order that the engine takes is one of them. -/
theorem steps_dropAll (n : Nat) (m : Memo) (r : Readers) (pending : List Entry) :
    Relation.ReflTransGen Step { dropped := n, memo := m, readers := r, pending }
      { dropped := (Memo.dropAll n m r pending).1
        memo := (Memo.dropAll n m r pending).2.1
        readers := (Memo.dropAll n m r pending).2.2
        pending := [] } := by
  fun_induction Memo.dropAll n m r pending with
  | case1 n m r => exact .refl
  | case2 n m r key rest dropped absent ih =>
    have step := Step.drop (d := { dropped := n, memo := m, readers := r, pending := key :: rest })
      (.refl _) (.refl _)
    rw [Table.erase_of_absent absent, Memo.Readers.of_of_find?_none absent] at step
    exact .head step ih
  | case3 n m r key rest dropped known found ih =>
    have step := Step.drop (d := { dropped := n, memo := m, readers := r, pending := key :: rest })
      (.refl _) (.refl _)
    rw [show r.of key = known by rw [Readers.of, found]; rfl] at step
    exact .head step ih

end Dropping

namespace Memo

open Dropping in
/-- Whatever order is taken, dropping some entries comes to an end, and ends where `invalidate` does:
the entries that can be reached from them along reader edges are gone from the memo, with their sets
of readers, everything else is as it was, and the number is that of the entries that are gone. -/
theorem invalidate_exact {m : Memo} {r : Readers} (hm : m.Distinct) (hr : r.Distinct)
    (keys : List Entry) :
    WellFounded (fun d' d => Step d d')
      ∧ (∀ d, d.pending = [] →
          (Relation.ReflTransGen Step (start m r keys) d
            ↔ (d.dropped, d.memo, d.readers) = m.invalidate r keys))
      ∧ (∀ key, Reached r keys key →
          (m.invalidate r keys).2.1.find? key = none ∧ (m.invalidate r keys).2.2.find? key = none)
      ∧ (∀ key, ¬ Reached r keys key →
          (m.invalidate r keys).2.1.find? key = m.find? key
            ∧ (m.invalidate r keys).2.2.find? key = r.find? key)
      ∧ (m.invalidate r keys).1 + (m.invalidate r keys).2.1.length = m.length := by
  have taken := steps_dropAll 0 m r keys
  have finished := over_of_steps hm hr taken rfl
  refine ⟨wellFounded_step, fun d done => ⟨fun steps => ?_, fun same => ?_⟩, finished.gone, finished.kept,
    finished.counted⟩
  · rw [unique_over hm hr steps done taken rfl]
    rfl
  · obtain ⟨dropped, memo, readers, pending⟩ := d
    obtain rfl : pending = [] := done
    simp only [invalidate, Prod.ext_iff] at same
    obtain ⟨rfl, rfl, rfl⟩ := same
    exact taken

/-- The type of a node that stands in no context. -/
def node (n : Nat) : Entry :=
  { ref := { node := ⟨n⟩, ctx := .empty }, track := .type }

/-- Two entries that have read each other, and one that has read neither of them. -/
def knot : Memo × Readers :=
  ([(node 0, .pending), (node 1, .pending), (node 2, .pending)],
    [(node 0, [node 1]), (node 1, [node 0])])

/-- The two entries of `knot` that have read each other go with either of them; the third stays. -/
theorem invalidate_exact_knot :
    knot.1.Distinct ∧ knot.2.Distinct
      ∧ (∀ n ∈ [0, 1], (knot.1.invalidate knot.2 [node 1]).2.1.find? (node n) = none)
      ∧ (knot.1.invalidate knot.2 [node 1]).2.1.find? (node 2) = some .pending := by
  have hm : knot.1.Distinct := by unfold Table.Distinct; decide
  have hr : knot.2.Distinct := by unfold Table.Distinct; decide
  obtain ⟨-, -, gone, kept, -⟩ := invalidate_exact hm hr [node 1]
  refine ⟨hm, hr, fun n hn => (gone _ ⟨_, List.mem_singleton_self _, ?_⟩).1, (kept _ ?_).1⟩
  · rcases List.mem_cons.mp hn with rfl | hn
    · exact .single (show node 0 ∈ knot.2.of (node 1) by decide)
    · obtain rfl := List.mem_singleton.mp hn
      exact .refl
  · rintro ⟨start, hstart, path⟩
    obtain rfl := List.mem_singleton.mp hstart
    rcases path.cases_tail with heq | ⟨a, -, edge⟩
    · cases heq
    · have : ∀ pair ∈ knot.2, node 2 ∉ pair.2 := by decide
      cases found : knot.2.find? a with
      | none =>
        rw [Readers.Edge, Readers.of_of_find?_none found] at edge
        cases edge
      | some known =>
        rw [Readers.Edge, ArrayInference.Readers.of, found] at edge
        exact this _ (Table.mem_of_find? found) edge

end Memo

end ArrayInference
