import ArrayInference.Engine.State

/-!
# Registration of rules

A rule can be added to an operator that has none on a track. What was found with the fallback of the
track is dropped then, together with everything that read it.
-/

namespace ArrayInference

namespace Engine

/-- Whether an entry belongs to a track and has one of some inferrers as its property. -/
def holdsAny (track : Track) (stale : List Inferrer) (key : Entry) (p : Promise TaskId) : Bool :=
  key.track = track &&
    match p.result with
    | some (.ok (.inferrer f)) => stale.contains f
    | _ => false

/-- Adds a rule. An engine with a rule for the operator on that track already stays as it is. -/
def registerRule (e : Engine) (track : Track) (operator : Primitive) (arity : Arity) (rule : Rule) :
    Except InferError Unit × Engine :=
  match (e.rules.get track).register operator arity rule with
  | .error error => (.error error, e)
  | .ok registry =>
    let replaced (key : InferrerKey) : Bool :=
      key.track = track && key.callee = .primitive operator
    let stale := (e.inferrers.filter fun (key, _) => replaced key).map (·.2)
    let holders := (e.memo.filter fun (key, p) => holdsAny track stale key p).map (·.1)
    let (_, memo, readers) := e.memo.invalidate e.readers holders
    (.ok (),
     { e with
       rules := e.rules.set track registry
       inferrers := e.inferrers.filter fun (key, _) => !replaced key
       memo, readers })

end Engine

end ArrayInference
