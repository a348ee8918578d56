import ArrayInference.Infer.Conditional

/-!
# The laws of computations

A computation that goes on with a second one is a tree with the second one at its leaves. So the
order in which steps are put together makes no difference.
-/

namespace ArrayInference

namespace Infer

variable {α β γ : Type}

theorem bind_done (b : Infer α) : b.bind done = b := by
  induction b with
  | done a => rfl
  | fail e => rfl
  | forever => rfl
  | ask query next ih => exact congrArg (ask query) (funext ih)
  | demand entry next ih => exact congrArg (demand entry) (funext ih)
  | call callee args next ih => exact congrArg (call callee args) (funext ih)
  | unify track use first second next ih =>
    exact congrArg (unify track use first second) (funext ih)

theorem bind_assoc (b : Infer α) (f : α → Infer β) (g : β → Infer γ) :
    (b.bind f).bind g = b.bind fun a => (f a).bind g := by
  induction b with
  | done a => rfl
  | fail e => rfl
  | forever => rfl
  | ask query next ih => exact congrArg (ask query) (funext ih)
  | demand entry next ih => exact congrArg (demand entry) (funext ih)
  | call callee args next ih => exact congrArg (call callee args) (funext ih)
  | unify track use first second next ih =>
    exact congrArg (unify track use first second) (funext ih)

instance : LawfulMonad Infer :=
  .mk' Infer bind_done (fun _ _ => rfl) bind_assoc

theorem ofExcept_bind (r : Except InferError α) (f : α → Except InferError β) :
    ofExcept (r >>= f) = ofExcept r >>= fun a => ofExcept (f a) := by
  cases r <;> rfl

theorem ofExcept_mapM (f : α → Except InferError β) (as : List α) :
    ofExcept (as.mapM f) = as.mapM fun a => ofExcept (f a) := by
  induction as with
  | nil => rfl
  | cons a rest ih =>
    rw [List.mapM_cons, List.mapM_cons, ofExcept_bind]
    congr 1
    funext b
    rw [ofExcept_bind, ih]
    rfl

end Infer

end ArrayInference
