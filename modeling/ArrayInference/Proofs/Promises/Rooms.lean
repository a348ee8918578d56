import ArrayInference.Proofs.Promises.Settling
import ArrayInference.WaitingRoom
import Mathlib.Data.List.Perm.Basic

/-!
# Nobody is lost in a waiting room

A visitor asks when it has come and whenever it is woken, with its number for a waker. So whatever
happens in a room reaches the promise as calls, in some order. Main statements: at any time every
visitor who has come either has been served, once, or is still in the room; and one round after the
promise was settled all who have come are served.
-/

namespace ArrayInference

namespace WaitingRoom

/-- What can become of an empty room, and which visitors have been served on the way. -/
inductive Visited : List Nat → WaitingRoom → Prop where
  | empty : Visited [] empty
  | enter {served : List Nat} {w : WaitingRoom} (h : Visited served w) : Visited served w.enter
  | resolve {served : List Nat} {w : WaitingRoom} (h : Visited served w) (r : Outcome) :
      Visited served (w.resolve r).2
  | poison {served : List Nat} {w : WaitingRoom} (h : Visited served w) (e : InferError) :
      Visited served (w.poison e).2
  | serve {served : List Nat} {w : WaitingRoom} (h : Visited served w) :
      Visited (served ++ w.serve.1.map (·.1)) w.serve.2

/-- The visitors who are in the room. -/
def present (w : WaitingRoom) : List Nat :=
  w.promise.waiters ++ (w.woken ++ w.arrived)

variable {w : WaitingRoom} {served visitors : List Nat}

/-! ## A round -/

theorem foldl_askOnce_of_present {p : Promise Nat} {r : Outcome} (h : p.result = some r)
    (served : List (Nat × Outcome)) (visitors : List Nat) :
    visitors.foldl (fun (served, p) visitor => askOnce served p visitor) (served, p)
      = (served ++ visitors.map (·, r), p) := by
  induction visitors generalizing served with
  | nil => rw [List.foldl_nil, List.map_nil, List.append_nil]
  | cons visitor visitors ih =>
    have once : askOnce served p visitor = (served ++ [(visitor, r)], p) := by
      rw [askOnce, Promise.ask, h]
      rfl
    rw [List.foldl_cons]
    show List.foldl _ (askOnce served p visitor) visitors = _
    rw [once, ih, List.append_assoc]
    rfl

theorem foldl_askOnce_of_missing {p : Promise Nat} (h : p.result = none)
    (served : List (Nat × Outcome)) (visitors : List Nat) :
    visitors.foldl (fun (served, p) visitor => askOnce served p visitor) (served, p)
      = (served, { p with waiters := p.waiters ++ visitors }) := by
  induction visitors generalizing p with
  | nil => rw [List.foldl_nil, List.append_nil]
  | cons visitor visitors ih =>
    have once : askOnce served p visitor
        = (served, { p with waiters := p.waiters ++ [visitor] }) := by
      rw [askOnce, Promise.ask, h]
      simp
    rw [List.foldl_cons]
    show List.foldl _ (askOnce served p visitor) visitors = _
    rw [once]
    refine (ih ?_).trans ?_
    · exact h
    · rw [List.append_assoc]
      rfl

/-- Once there is a result, a round serves everyone who asks. -/
theorem serve_of_present {r : Outcome} (h : w.promise.result = some r) :
    w.serve = ((w.woken ++ w.arrived).map (·, r), { w with woken := [], arrived := [] }) := by
  rw [serve, foldl_askOnce_of_present h]
  rfl

/-- As long as there is no result, everyone who asks begins to wait. -/
theorem serve_of_missing (h : w.promise.result = none) :
    w.serve = ([],
      { w with
        promise := { w.promise with waiters := w.promise.waiters ++ (w.woken ++ w.arrived) }
        woken := []
        arrived := [] }) := by
  rw [serve, foldl_askOnce_of_missing h]

/-- A round is a poll by everyone who asks. -/
theorem promise_foldl_askOnce (served : List (Nat × Outcome)) (p : Promise Nat)
    (visitors : List Nat) :
    (visitors.foldl (fun (served, p) visitor => askOnce served p visitor) (served, p)).2
      = (visitors.map fun visitor => Promise.Call.poll visitor visitor).foldl
          (fun p c => (p.answer c).2) p := by
  induction visitors generalizing served p with
  | nil => rfl
  | cons visitor visitors ih =>
    have once : (askOnce served p visitor).2
        = (p.answer (Promise.Call.poll visitor visitor)).2 := by
      rw [askOnce, Promise.answer]
      cases h : p.ask visitor with
      | mk r q => cases r <;> rfl
    rw [List.foldl_cons, List.map_cons, List.foldl_cons, ← once]
    exact ih (askOnce served p visitor).1 (askOnce served p visitor).2

/-! ## Whoever is served leaves the room -/

theorem perm_settle {taken : Option (List Nat × Promise Nat)}
    (wakes : ∀ woken p, taken = some (woken, p) → woken = w.promise.waiters ∧ p.waiters = []) :
    (w.settle taken).2.present.Perm w.present := by
  cases taken with
  | none => exact .refl _
  | some taken =>
    obtain ⟨woken, p⟩ := taken
    obtain ⟨rfl, empty⟩ := wakes woken p rfl
    show (p.waiters ++ ((w.woken ++ w.promise.waiters) ++ w.arrived)).Perm w.present
    rw [empty, List.nil_append, List.append_assoc]
    exact List.perm_append_comm_assoc ..

theorem perm_resolve (w : WaitingRoom) (r : Outcome) : (w.resolve r).2.present.Perm w.present := by
  refine perm_settle fun woken p h => ?_
  rw [Promise.resolve?] at h
  split at h <;> cases h
  exact ⟨rfl, rfl⟩

theorem perm_poison (w : WaitingRoom) (e : InferError) :
    (w.poison e).2.present.Perm w.present := by
  refine perm_settle fun woken p h => ?_
  rw [Promise.poison?] at h
  split at h <;> cases h
  exact ⟨rfl, rfl⟩

theorem perm_serve (w : WaitingRoom) :
    (w.serve.1.map (·.1) ++ w.serve.2.present).Perm w.present := by
  cases h : w.promise.result with
  | none => simp [serve_of_missing h, present]
  | some r =>
    have same : ((w.woken ++ w.arrived).map (·, r)).map (·.1) = w.woken ++ w.arrived := by
      simp [Function.comp_def]
    rw [serve_of_present h, same]
    simp only [present, List.append_nil]
    exact List.perm_append_comm

theorem next_settle (w : WaitingRoom) (taken : Option (List Nat × Promise Nat)) :
    (w.settle taken).2.next = w.next := by
  cases taken <;> rfl

theorem promise_settle (w : WaitingRoom) (taken : Option (List Nat × Promise Nat)) :
    (w.settle taken).2.promise = (w.promise.attempt taken).2 := by
  cases taken <;> rfl

namespace Visited

/-- Every visitor who has come has been served, once, or is still in the room. -/
theorem perm_range (h : Visited served w) : (served ++ w.present).Perm (List.range w.next) := by
  induction h with
  | empty => exact .refl _
  | @enter served w _ ih =>
    have entered : served ++ w.enter.present = (served ++ w.present) ++ [w.next] := by
      simp [present, WaitingRoom.enter]
    rw [entered]
    show (_ ++ [w.next]).Perm (List.range (w.next + 1))
    rw [List.range_succ]
    exact ih.append_right _
  | @resolve served w _ r ih =>
    rw [WaitingRoom.resolve, next_settle]
    exact ((perm_resolve w r).append_left served).trans ih
  | @poison served w _ e ih =>
    rw [WaitingRoom.poison, next_settle]
    exact ((perm_poison w e).append_left served).trans ih
  | @serve served w _ ih =>
    rw [List.append_assoc]
    exact ((perm_serve w).append_left served).trans ih

/-- Whatever happens in a room reaches the promise as calls. -/
theorem exists_calls (h : Visited served w) :
    ∃ calls : List (Promise.Call Nat Nat), w.promise = Promise.after calls := by
  induction h with
  | empty => exact ⟨[], rfl⟩
  | enter _ ih => exact ih
  | @resolve served w _ r ih =>
    obtain ⟨calls, reached⟩ := ih
    refine ⟨calls ++ [.resolve r], ?_⟩
    rw [Promise.after_append, ← reached]
    exact promise_settle w (w.promise.resolve? r)
  | @poison served w _ e ih =>
    obtain ⟨calls, reached⟩ := ih
    refine ⟨calls ++ [.poison e], ?_⟩
    rw [Promise.after_append, ← reached]
    exact promise_settle w (w.promise.poison? e)
  | @serve served w _ ih =>
    obtain ⟨calls, reached⟩ := ih
    refine ⟨calls ++ (w.woken ++ w.arrived).map fun visitor => .poll visitor visitor, ?_⟩
    rw [Promise.after_append, ← reached]
    exact promise_foldl_askOnce [] w.promise (w.woken ++ w.arrived)

/-- One round after the promise was settled, all who have come are served. -/
theorem all_served (h : Visited served w) (settled : w.promise.isResolved = true) :
    (served ++ w.serve.1.map (·.1)).Perm (List.range w.next) := by
  obtain ⟨r, there⟩ := Promise.isResolved_eq_true.mp settled
  obtain ⟨calls, reached⟩ := h.exists_calls
  have nobody : w.promise.waiters = [] := by
    rw [reached] at settled ⊢
    exact Promise.waiters_of_isResolved settled
  have asking : w.serve.1.map (·.1) = w.present := by
    rw [serve_of_present there, present, nobody]
    simp [Function.comp_def]
  rw [asking]
  exact h.perm_range

end Visited

end WaitingRoom

end ArrayInference
