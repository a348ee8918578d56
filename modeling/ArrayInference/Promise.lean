import ArrayInference.Property

/-!
# Promises

A promise is the place of a result that may still be missing. The first result settles it. A
success may still turn into a failure, once, when a check that ends later fails; a failure stays.
Whoever asks while the result is missing waits, and is woken when it appears.
-/

namespace ArrayInference

/-- The place of a result, and who waits for it. -/
structure Promise (ω : Type) where
  result : Option Outcome
  waiters : List ω

namespace Promise

variable {ω : Type}

/-- A promise without a result. -/
def pending : Promise ω :=
  { result := none, waiters := [] }

def isResolved (p : Promise ω) : Bool :=
  p.result.isSome

/-- Whether the promise holds a failure. -/
def hasFailed (p : Promise ω) : Bool :=
  match p.result with
  | some (.error _) => true
  | _ => false

/-- Settles a promise that has no result yet; `none` if it has one. -/
def resolve? (p : Promise ω) (r : Outcome) : Option (List ω × Promise ω) :=
  if p.isResolved then none else some (p.waiters, { result := some r, waiters := [] })

/-- Turns a promise into a failure; `none` if it is one already. -/
def poison? (p : Promise ω) (e : InferError) : Option (List ω × Promise ω) :=
  if p.hasFailed then none else some (p.waiters, { result := some (.error e), waiters := [] })

theorem hasFailed_of_poison? {p q : Promise ω} {e : InferError} {woken : List ω}
    (h : p.poison? e = some (woken, q)) : p.hasFailed = false ∧ q.hasFailed = true := by
  simp only [poison?] at h
  split at h
  · simp at h
  · rename_i hp
    obtain ⟨-, rfl⟩ := by simpa using h
    exact ⟨by simpa using hp, rfl⟩

/-- Asks for the result; who asks too early is entered as a waiter. -/
def ask (p : Promise ω) (who : ω) : Option Outcome × Promise ω :=
  match p.result with
  | some r => (some r, p)
  | none => (none, { p with waiters := p.waiters ++ [who] })

end Promise

end ArrayInference
