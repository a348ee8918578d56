import ArrayInference.Infer.Access

/-!
# Conditionals

A condition with a known value selects one branch, and the other is never looked at. Otherwise both
branches are inferred, and must agree. An unknown condition leaves the value unknown.
-/

namespace ArrayInference

namespace Infer

/-- The property of a conditional whose branch is known. -/
def branch (track : Track) (use : BranchUse) (subject : Ref) : Infer Property := do
  let p ← get subject track
  match use with
  | .select => done p
  | .call => do
      let f ← ofExcept p.toInferrer
      callInferrer f []

/-- The property of a conditional. -/
def conditional (use : BranchUse) (track : Track) (condition ifTrue ifFalse : Ref) :
    Infer Property := do
  match ← valueOf condition with
  | .known (.bool taken) => do
      let description ← describe condition
      note (.branchElided taken) (some description)
      branch track use (if taken then ifTrue else ifFalse)
  | .known other => fail (.inference ("condition must be a boolean, got " ++ other.text))
  | .anything =>
    match track with
    | .value => done (.value .anything)
    | .type | .shape => unify track use ifTrue ifFalse done

end Infer

end ArrayInference
