import ArrayInference.Engine.Schedule
import ArrayInference.Promise
import ArrayInference.Reference
import ArrayInference.Table

/-!
# The memo

Every entry is computed once, and its result is kept in a promise. Beside it stand the readers of
each entry: the entries whose computation asked for it. A failure that is found late, and a result
that is no longer valid, reach exactly the entries that can be reached from one entry to its
readers.
-/

namespace ArrayInference

/-- The promises of the entries that have been asked for. -/
abbrev Memo := Table Entry (Promise TaskId)

/-- The entries whose computation asked for an entry. -/
abbrev Readers := Table Entry (List Entry)

namespace Readers

/-- The readers of an entry. -/
def of (r : Readers) (key : Entry) : List Entry :=
  (r.find? key).getD []

/-- Enters a reader of an entry. -/
def add (r : Readers) (key reader : Entry) : Readers :=
  let known := r.of key
  r.insert key (if reader ∈ known then known else known ++ [reader])

end Readers

namespace Memo

/-- How many entries have not failed, and how often these were read. -/
def soundReads (readers : Readers) (m : Memo) : Nat :=
  m.foldr (fun (key, p) total =>
    (if p.hasFailed then 0 else 1 + (readers.of key).length) + total) 0

theorem soundReads_insert {readers : Readers} {m : Memo} {key : Entry} {p q : Promise TaskId}
    (found : m.find? key = some p) (sound : p.hasFailed = false) (failed : q.hasFailed = true) :
    soundReads readers (m.insert key q) + (1 + (readers.of key).length) = soundReads readers m := by
  induction m with
  | nil => simp [Table.find?] at found
  | cons pair rest ih =>
    obtain ⟨k, a⟩ := pair
    by_cases h : k = key
    · simp only [Table.find?, h, ↓reduceIte, Option.some.injEq] at found
      subst found
      simp only [soundReads, Table.insert, h, sound, failed, ↓reduceIte, List.foldr_cons,
        Bool.false_eq_true]
      omega
    · simp only [Table.find?, h, ↓reduceIte] at found
      have := ih found
      simp only [soundReads, Table.insert, h, ↓reduceIte, List.foldr_cons] at this ⊢
      omega

/-- Turns the pending entries, and everything that read them, into failures, and collects who is
woken by that. Entries that have failed already keep their error, and nothing is followed through
them. -/
def poisonAll (readers : Readers) (e : InferError) (m : Memo) (woken : List TaskId)
    (pending : List Entry) : List TaskId × Memo :=
  match pending with
  | [] => (woken, m)
  | key :: rest =>
    match _found : m.find? key with
    | none => poisonAll readers e m woken rest
    | some p =>
      match _failing : p.poison? e with
      | none => poisonAll readers e m woken rest
      | some (waiters, q) =>
          poisonAll readers e (m.insert key q) (woken ++ waiters) (readers.of key ++ rest)
termination_by m.soundReads readers + pending.length
decreasing_by
  · simp
  · simp
  · have h := Promise.hasFailed_of_poison? _failing
    have : soundReads readers (m.insert key q) + (1 + (readers.of key).length)
        = soundReads readers m := soundReads_insert _found h.1 h.2
    simp only [List.length_append, List.length_cons]
    omega

/-- Turns an entry, and everything that read it, into a failure. -/
def poison (m : Memo) (readers : Readers) (key : Entry) (e : InferError) : List TaskId × Memo :=
  poisonAll readers e m [] [key]

/-- How many entries were read, and how often. -/
def reads (r : Readers) : Nat :=
  r.foldr (fun (_, known) total => 1 + known.length + total) 0

theorem reads_erase {r : Readers} {key : Entry} {known : List Entry}
    (found : r.find? key = some known) : reads (r.erase key) + (1 + known.length) = reads r := by
  induction r with
  | nil => simp [Table.find?] at found
  | cons pair rest ih =>
    obtain ⟨k, a⟩ := pair
    by_cases h : k = key
    · simp only [Table.find?, h, ↓reduceIte, Option.some.injEq] at found
      subst found
      simp only [reads, Table.erase, h, ↓reduceIte, List.foldr_cons]
      omega
    · simp only [Table.find?, h, ↓reduceIte] at found
      have := ih found
      simp only [reads, Table.erase, h, ↓reduceIte, List.foldr_cons] at this ⊢
      omega

/-- Drops the pending entries and everything that read them, and counts the entries dropped. -/
def dropAll (dropped : Nat) (m : Memo) (readers : Readers) (pending : List Entry) :
    Nat × Memo × Readers :=
  match pending with
  | [] => (dropped, m, readers)
  | key :: rest =>
    let dropped := if m.contains key then dropped + 1 else dropped
    match _found : readers.find? key with
    | none => dropAll dropped (m.erase key) readers rest
    | some known => dropAll dropped (m.erase key) (readers.erase key) (known ++ rest)
termination_by reads readers + pending.length
decreasing_by
  · simp
  · have := reads_erase _found
    simp only [List.length_append, List.length_cons]
    omega

/-- Drops some entries and everything that read them, and counts the entries dropped. -/
def invalidate (m : Memo) (readers : Readers) (keys : List Entry) : Nat × Memo × Readers :=
  dropAll 0 m readers keys

/-- The entries that have a result. -/
def resolved (m : Memo) : Memo :=
  m.filter fun (_, p) => p.isResolved

/-- The readers of the entries that are kept. -/
def readersOf (m : Memo) (readers : Readers) : Readers :=
  readers.filter fun (key, _) => m.contains key

end Memo

end ArrayInference
