import ArrayInference.Promise
import Mathlib.Data.List.Induction
import Mathlib.Logic.ExistsUnique

/-!
# How a promise settles

Computations bring results to a promise, late failures overturn them, and waiters ask as often as
they like. These calls reach the promise one after the other, in any order. Wakers are called when
the promise has changed already, so whatever a waker does comes later in that order.

`Step` says all that one call can do. What holds after any calls follows by induction on the last of
them. Main statement: no waiter is lost, and the promise settles once.
-/

namespace ArrayInference

namespace Promise

variable {ι ω : Type}

/-- What reaches a promise. -/
inductive Call (ι ω : Type) where
  | resolve (r : Outcome)
  | poison (e : InferError)
  /-- A waiter asks, and leaves a waker if it has to wait. It may leave another one each time. -/
  | poll (waiter : ι) (waker : ω)

namespace Call

/-- The result that a call brings. -/
def outcome? : Call ι ω → Option Outcome
  | resolve r => some r
  | poison e => some (.error e)
  | poll .. => none

/-- The waker that a call leaves. -/
def waker? : Call ι ω → Option ω
  | poll _ waker => some waker
  | _ => none

end Call

/-- What a caller is told. -/
inductive Reply (ω : Type) where
  /-- The result is taken over, and these wakers are called. -/
  | settled (woken : List ω)
  /-- The promise keeps the result it has. -/
  | refused
  | ready (r : Outcome)
  | pending

/-- Whether a result was taken over. -/
def Reply.accepted : Reply ω → Bool
  | settled _ => true
  | _ => false

/-- What comes of an attempt to give the promise another result. -/
def attempt (p : Promise ω) : Option (List ω × Promise ω) → Reply ω × Promise ω
  | some (woken, q) => (.settled woken, q)
  | none => (.refused, p)

/-- The reply to a call, and the promise after it. -/
def answer (p : Promise ω) : Call ι ω → Reply ω × Promise ω
  | .resolve r => p.attempt (p.resolve? r)
  | .poison e => p.attempt (p.poison? e)
  | .poll _ waker =>
    match p.ask waker with
    | (some r, q) => (.ready r, q)
    | (none, q) => (.pending, q)

/-- All that a call can do. -/
inductive Step (p : Promise ω) : Call ι ω → Reply ω → Promise ω → Prop where
  | settles {c : Call ι ω} {r : Outcome} (missing : p.result = none)
      (brings : c.outcome? = some r) :
      Step p c (.settled p.waiters) { result := some r, waiters := [] }
  | overturns {v : Property} {e : InferError} (success : p.result = some (.ok v)) :
      Step p (.poison e) (.settled p.waiters) { result := some (.error e), waiters := [] }
  | late {r r' : Outcome} (present : p.result = some r) : Step p (.resolve r') .refused p
  | failed {e e' : InferError} (failure : p.result = some (.error e)) :
      Step p (.poison e') .refused p
  | ready {waiter : ι} {waker : ω} {r : Outcome} (present : p.result = some r) :
      Step p (.poll waiter waker) (.ready r) p
  | waits {waiter : ι} {waker : ω} (missing : p.result = none) :
      Step p (.poll waiter waker) .pending { p with waiters := p.waiters ++ [waker] }

theorem step_answer (p : Promise ω) (c : Call ι ω) : Step p c (p.answer c).1 (p.answer c).2 := by
  obtain ⟨result, waiters⟩ := p
  cases c with
  | resolve r =>
    cases result with
    | none => exact .settles rfl rfl
    | some _ => exact .late rfl
  | poison e =>
    rcases result with _ | _ | v
    · exact .settles rfl rfl
    · exact .failed rfl
    · exact .overturns rfl
  | poll waiter waker =>
    cases result with
    | none => exact .waits rfl
    | some r => exact .ready rfl

theorem isResolved_eq_true {p : Promise ω} : p.isResolved = true ↔ ∃ r, p.result = some r :=
  Option.isSome_iff_exists

theorem isResolved_eq_false {p : Promise ω} : p.isResolved = false ↔ p.result = none :=
  Option.isSome_eq_false_iff.trans Option.isNone_iff_eq_none

namespace Step

variable {p q : Promise ω} {c : Call ι ω} {told : Reply ω}

/-- A result stays, unless a failure overturns a success. -/
theorem result_kept (step : Step p c told q) {r : Outcome} (h : p.result = some r) :
    q.result = some r
      ∨ ∃ v e, r = .ok v ∧ c = .poison e ∧ q.result = some (.error e) := by
  cases step with
  | settles missing _ => rw [missing] at h; cases h
  | overturns success =>
    rw [success, Option.some.injEq] at h
    exact .inr ⟨_, _, h.symm, rfl, rfl⟩
  | late | failed | ready | waits => exact .inl h

theorem unattended (step : Step p c told q) (hp : p.isResolved = true → p.waiters = [])
    (h : q.isResolved = true) : q.waiters = [] := by
  cases step with
  | settles => rfl
  | overturns => rfl
  | late | failed | ready => exact hp h
  | waits missing =>
    rw [isResolved, missing] at h
    cases h

theorem failure_kept (step : Step p c told q) {e : InferError} (h : p.result = some (.error e)) :
    q.result = some (.error e) := by
  rcases step.result_kept h with h | ⟨_, _, h, _⟩
  · exact h
  · cases h

/-- A call that gives the promise its first result wakes all who wait. -/
theorem resolves (step : Step p c told q) (missing : p.result = none)
    (present : ∃ r, q.result = some r) :
    ∃ r, c.outcome? = some r ∧ q.result = some r ∧ told = .settled p.waiters := by
  cases step with
  | settles _ brings => exact ⟨_, brings, rfl, rfl⟩
  | overturns success => rw [missing] at success; cases success
  | late there => rw [missing] at there; cases there
  | failed failure => rw [missing] at failure; cases failure
  | ready there => rw [missing] at there; cases there
  | waits =>
    obtain ⟨r, hr⟩ := present
    rw [missing] at hr
    cases hr

/-- Whatever brings a result leaves one. -/
theorem isResolved (step : Step p c told q) {r : Outcome} (brings : c.outcome? = some r) :
    q.isResolved = true := by
  cases step with
  | settles | overturns => rfl
  | late there => exact isResolved_eq_true.mpr ⟨_, there⟩
  | failed failure => exact isResolved_eq_true.mpr ⟨_, failure⟩
  | ready | waits => cases brings

/-- While there is no result, whoever asks is kept. -/
theorem waiters_eq (step : Step p c told q) (h : q.result = none) :
    p.result = none ∧ q.waiters = p.waiters ++ c.waker?.toList := by
  cases step with
  | settles => cases h
  | overturns => cases h
  | late present => rw [present] at h; cases h
  | failed failure => rw [failure] at h; cases h
  | ready present => rw [present] at h; cases h
  | waits missing => exact ⟨missing, rfl⟩

/-- A waiter that asks early has to wait. -/
theorem pending_of_missing {waiter : ι} {waker : ω} (step : Step p (.poll waiter waker) told q)
    (missing : p.result = none) : told = .pending := by
  cases step with
  | settles _ brings => cases brings
  | ready present => rw [missing] at present; cases present
  | waits => rfl

theorem ready_of_present {waiter : ι} {waker : ω} (step : Step p (.poll waiter waker) told q)
    {r : Outcome} (present : p.result = some r) : told = .ready r := by
  cases step with
  | settles _ brings => cases brings
  | ready there =>
    rw [present] at there
    cases there
    rfl
  | waits missing => rw [missing] at present; cases present

theorem resolve_refused {r : Outcome} (step : Step p (.resolve r : Call ι ω) told q)
    (h : p.isResolved = true) : told.accepted = false := by
  cases step with
  | settles missing _ =>
    rw [Promise.isResolved, missing] at h
    cases h
  | late => rfl

/-- A late failure is taken over only in the place of a success. -/
theorem poison_accepted_iff {e : InferError} (step : Step p (.poison e : Call ι ω) told q)
    (h : p.isResolved = true) : told.accepted = true ↔ ∃ v, p.result = some (.ok v) := by
  cases step with
  | settles missing _ =>
    rw [Promise.isResolved, missing] at h
    cases h
  | overturns success => exact ⟨fun _ => ⟨_, success⟩, fun _ => rfl⟩
  | failed failure =>
    refine ⟨fun accepted => (nomatch accepted), ?_⟩
    rintro ⟨v, success⟩
    rw [failure] at success
    cases success

theorem failure_of_poison {e : InferError} (step : Step p (.poison e : Call ι ω) told q)
    (accepted : told.accepted = true) : q.result = some (.error e) := by
  cases step with
  | settles _ brings => exact brings.symm
  | overturns => rfl
  | failed => cases accepted

end Step

/-! ## After any calls -/

/-- What has become of a promise that had no result. -/
def after (calls : List (Call ι ω)) : Promise ω :=
  calls.foldl (fun p c => (p.answer c).2) pending

/-- The reply to a call that comes after others. -/
def reply (calls : List (Call ι ω)) (c : Call ι ω) : Reply ω :=
  ((after calls).answer c).1

theorem after_append (calls more : List (Call ι ω)) :
    after (calls ++ more) = more.foldl (fun p c => (p.answer c).2) (after calls) :=
  List.foldl_append

theorem step_after (calls : List (Call ι ω)) (c : Call ι ω) :
    Step (after calls) c (reply calls c) (after (calls ++ [c])) := by
  rw [after_append]
  exact step_answer (after calls) c

section

variable {calls past later : List (Call ι ω)} {c : Call ι ω}

theorem isResolved_append (h : (after past).isResolved = true) (later : List (Call ι ω)) :
    (after (past ++ later)).isResolved = true := by
  induction later using List.reverseRecOn with
  | nil => rwa [List.append_nil]
  | append_singleton later c ih =>
    rw [isResolved_eq_true] at ih ⊢
    obtain ⟨r, hr⟩ := ih
    rw [← List.append_assoc]
    rcases (step_after (past ++ later) c).result_kept hr with h | ⟨_, _, _, _, h⟩
    · exact ⟨_, h⟩
    · exact ⟨_, h⟩

theorem failure_append {e : InferError} (h : (after past).result = some (.error e))
    (later : List (Call ι ω)) : (after (past ++ later)).result = some (.error e) := by
  induction later using List.reverseRecOn with
  | nil => rwa [List.append_nil]
  | append_singleton later c ih =>
    rw [← List.append_assoc]
    exact (step_after (past ++ later) c).failure_kept ih

theorem waiters_of_isResolved (h : (after calls).isResolved = true) :
    (after calls).waiters = [] := by
  induction calls using List.reverseRecOn with
  | nil => cases h
  | append_singleton calls c ih =>
    exact (step_after calls c).unattended ih h

/-- As long as there is no result, the wakers of all who have asked are stored. -/
theorem waiters_of_missing (h : (after calls).result = none) :
    (after calls).waiters = calls.filterMap Call.waker? := by
  induction calls using List.reverseRecOn with
  | nil => rfl
  | append_singleton calls c ih =>
    obtain ⟨missing, added⟩ := (step_after calls c).waiters_eq h
    rw [added, ih missing, List.filterMap_append]
    rfl

/-- The call gives the promise its first result. -/
def Resolves (past : List (Call ι ω)) (c : Call ι ω) : Prop :=
  (after past).isResolved = false ∧ (after (past ++ [c])).isResolved = true

theorem Resolves.step (h : Resolves past c) :
    ∃ r, c.outcome? = some r ∧ (after (past ++ [c])).result = some r
      ∧ reply past c = .settled (after past).waiters := by
  obtain ⟨missing, present⟩ := h
  rw [isResolved_eq_false] at missing
  exact (step_after past c).resolves missing (isResolved_eq_true.mp present)

theorem Resolves.isResolved_append (h : Resolves past c) (later : List (Call ι ω)) :
    (after (past ++ c :: later)).isResolved = true := by
  rw [List.append_cons]
  exact Promise.isResolved_append h.2 later

/-- The first call that brings a result gives the promise its first result. -/
theorem exists_resolves (h : (after calls).isResolved = true) :
    ∃ past c later, calls = past ++ c :: later ∧ Resolves past c := by
  induction calls using List.reverseRecOn with
  | nil => cases h
  | append_singleton calls c ih =>
    by_cases earlier : (after calls).isResolved = true
    · obtain ⟨past, d, later, rfl, first⟩ := ih earlier
      exact ⟨past, d, later ++ [c], by simp, first⟩
    · exact ⟨calls, c, [], rfl, Bool.not_eq_true _ ▸ earlier, h⟩

theorem isResolved_of_mem (member : c ∈ calls) {r : Outcome} (brings : c.outcome? = some r) :
    (after calls).isResolved = true := by
  obtain ⟨past, later, rfl⟩ := List.append_of_mem member
  rw [List.append_cons]
  refine isResolved_append ?_ later
  exact (step_after past c).isResolved brings

theorem Resolves.not_later (h : Resolves past c) (between : List (Call ι ω)) (c' : Call ι ω) :
    ¬ Resolves (past ++ c :: between) c' := by
  rintro ⟨missing, _⟩
  rw [h.isResolved_append between] at missing
  cases missing

theorem Resolves.unique {past' later' : List (Call ι ω)} {c' : Call ι ω} (h : Resolves past c)
    (h' : Resolves past' c') (same : past ++ c :: later = past' ++ c' :: later') :
    past = past' := by
  rcases List.append_eq_append_iff.mp same with ⟨between, rfl, hc⟩ | ⟨between, rfl, hc⟩
  · cases between with
    | nil => rw [List.append_nil]
    | cons d between =>
      obtain ⟨rfl, -⟩ := List.cons.inj hc
      exact absurd h' (h.not_later between c')
  · cases between with
    | nil => rw [List.append_nil]
    | cons d between =>
      obtain ⟨rfl, -⟩ := List.cons.inj hc
      exact absurd h (h'.not_later between c)

end

/-- What is expected of a promise after some calls, whichever they are. -/
structure Settles (calls : List (Call ι ω)) : Prop where
  /-- A promise with a result stores no wakers. -/
  unattended : (after calls).isResolved = true → (after calls).waiters = []
  /-- If a result was brought at all, exactly one call has resolved the promise. -/
  once : (∃ c ∈ calls, ∃ r, c.outcome? = some r) →
    ∃! past, ∃ c later, calls = past ++ c :: later ∧ Resolves past c
  /-- That call has brought the result that is there then, and was told so. -/
  brought : ∀ {past c later}, calls = past ++ c :: later → Resolves past c →
    c.outcome? = (after (past ++ [c])).result ∧ (reply past c).accepted = true
  /-- Whoever had asked before it had to wait. -/
  waited : ∀ {past c later}, calls = past ++ c :: later → Resolves past c →
    ∀ {earlier waiter waker between}, past = earlier ++ .poll waiter waker :: between →
      reply earlier (.poll waiter waker) = .pending
  /-- It has called the wakers that they had left, all of them, in their order. -/
  woken : ∀ {past c later}, calls = past ++ c :: later → Resolves past c →
    reply past c = .settled (past.filterMap Call.waker?)
  /-- Whoever asks now gets the result that is there now. -/
  served : (after calls).isResolved = true → ∀ waiter waker,
    ∃ r, (after calls).result = some r ∧ reply calls (.poll waiter waker) = .ready r
  /-- A result stays, unless a failure overturns a success. -/
  kept : ∀ {r}, (after calls).result = some r → ∀ c,
    (after (calls ++ [c])).result = some r
      ∨ ∃ v e, r = .ok v ∧ c = .poison e ∧ (after (calls ++ [c])).result = some (.error e)
  /-- No other result is taken over. -/
  resolve_refused : (after calls).isResolved = true → ∀ r,
    (reply calls (.resolve r)).accepted = false
  /-- A late failure is taken over only in the place of a success. -/
  poison_accepted : (after calls).isResolved = true → ∀ e,
    (reply calls (.poison e)).accepted = true ↔ ∃ v, (after calls).result = some (.ok v)
  /-- After one failure that was taken over, no other one is. -/
  poison_once : ∀ {past e later}, calls = past ++ .poison e :: later →
    (reply past (.poison e)).accepted = true → ∀ e', (reply calls (.poison e')).accepted = false

/-- In whatever order results, failures and waiters come, no waiter is lost, the promise is resolved
once, and its result changes at most once more, from a success to a failure. -/
theorem settles_in_any_order (calls : List (Call ι ω)) : Settles calls where
  unattended := waiters_of_isResolved
  once := by
    rintro ⟨c, member, r, brings⟩
    obtain ⟨past, d, later, split, first⟩ := exists_resolves (isResolved_of_mem member brings)
    refine ⟨past, ⟨d, later, split, first⟩, ?_⟩
    rintro past' ⟨d', later', split', first'⟩
    exact first'.unique first (split'.symm.trans split)
  brought := by
    intro past c later _ first
    obtain ⟨r, brings, present, told⟩ := first.step
    rw [brings, present, told]
    exact ⟨rfl, rfl⟩
  waited := by
    rintro past c later _ ⟨missing, _⟩ earlier waiter waker between rfl
    have early : (after earlier).result = none := by
      rw [← isResolved_eq_false, Bool.eq_false_iff]
      intro h
      rw [isResolved_append h] at missing
      cases missing
    exact (step_after earlier _).pending_of_missing early
  woken := by
    intro past c later _ first
    obtain ⟨_, _, _, told⟩ := first.step
    rw [told, waiters_of_missing (isResolved_eq_false.mp first.1)]
  served := by
    intro h waiter waker
    obtain ⟨r, present⟩ := isResolved_eq_true.mp h
    exact ⟨r, present, (step_after calls _).ready_of_present present⟩
  kept := fun h c => (step_after calls c).result_kept h
  resolve_refused := fun h r => (step_after calls (.resolve r)).resolve_refused h
  poison_accepted := fun h e => (step_after calls (.poison e)).poison_accepted_iff h
  poison_once := by
    rintro past e later rfl accepted e'
    have failure := (step_after past (.poison e)).failure_of_poison accepted
    have lasting := failure_append failure later
    rw [← List.append_cons] at lasting
    have resolved := isResolved_eq_true.mpr ⟨_, lasting⟩
    rw [← Bool.not_eq_true, (step_after _ _).poison_accepted_iff resolved]
    rintro ⟨v, success⟩
    rw [lasting] at success
    cases success

/-- A waiter that asks twice is woken twice. -/
example (r : Outcome) :
    reply [.poll 0 "a", .poll 1 "b", .poll 0 "c"] (.resolve r) = .settled ["a", "b", "c"] := rfl

end Promise

end ArrayInference
