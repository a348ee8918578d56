import ArrayInference.Proofs.Infer.StaysRules

/-!
# Rules do not look at nodes

A rule asks about nothing but its arguments, so it never asks for a node. Only the computation of a
node asks for one, and only for its own. So a change of a node is noticed by its own computation
alone.
-/

namespace ArrayInference

namespace Infer

variable {α β : Type}

/-- A computation that asks for no node. -/
inductive Blind : Infer α → Prop where
  | done (a : α) : Blind (.done a)
  | fail (e : InferError) : Blind (.fail e)
  | forever : Blind .forever
  | ask {query : Query} {next : query.Answer → Infer α} (other : ∀ id, query ≠ .node id)
      (later : ∀ a, Blind (next a)) : Blind (.ask query next)
  | demand {key : Entry} {next : Property → Infer α} (later : ∀ p, Blind (next p)) :
      Blind (.demand key next)
  | call {callee : Inferrer} {args : List Ref} {next : Property → Infer α}
      (later : ∀ p, Blind (next p)) : Blind (.call callee args next)
  | unify {track : Track} {use : BranchUse} {first second : Ref} {next : Property → Infer α}
      (later : ∀ p, Blind (next p)) : Blind (.unify track use first second next)

theorem Blind.bind {b : Infer α} {f : α → Infer β} (h : b.Blind) (h' : ∀ a, (f a).Blind) :
    (b.bind f).Blind := by
  induction h with
  | done a => exact h' a
  | fail e => exact .fail e
  | forever => exact .forever
  | ask other _ ih => exact .ask other ih
  | demand _ ih => exact .demand ih
  | call _ ih => exact .call ih
  | unify _ ih => exact .unify ih

/-- One computation after the other. -/
theorem Blind.seq {b : Infer α} {f : α → Infer β} (h : b.Blind) (h' : ∀ a, (f a).Blind) :
    (b >>= f).Blind :=
  h.bind h'

/-- What asks about references alone asks for no node. -/
theorem Stays.blind {P : Ref → Prop} {b : Infer α} (h : b.Stays P) : b.Blind := by
  induction h with
  | done a => exact .done a
  | fail e => exact .fail e
  | forever => exact .forever
  | ask own _ ih =>
    refine .ask (fun id heq => ?_) ih
    subst heq
    exact own
  | demand _ _ ih => exact .demand ih
  | call _ _ ih => exact .call ih
  | unify _ _ _ ih => exact .unify ih

theorem blind_mapM {γ : Type} {f : γ → Infer α} (h : ∀ x, (f x).Blind) (xs : List γ) :
    (xs.mapM f).Blind := by
  induction xs with
  | nil => exact .done []
  | cons x xs ih =>
    rw [List.mapM_cons]
    exact (h x).seq fun _ => ih.seq fun _ => .done _

end Infer

end ArrayInference
