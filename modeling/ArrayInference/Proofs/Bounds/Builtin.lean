import ArrayInference.Engine.State
import ArrayInference.Proofs.Bounds.Shape
import ArrayInference.Proofs.Bounds.Type
import ArrayInference.Proofs.Bounds.Value

/-!
# Every built-in rule stays in range

The checked rules of the three tracks cover the built-in ones. So no built-in rule reads, cuts or
subtracts out of range on a number of arguments that its arity accepts, whatever the properties of the
arguments are, and none of them meets a wrong number of arguments. Constants that a rule finds have
their shapes read from them, and there the extents of the elements of a list are compared axis by axis,
which is in range too.
-/

namespace ArrayInference

namespace Shape

/-- The extents of the axes, each unknown where the arrays disagree. -/
def checkedWiden (first : List Dim) (others : List (List Dim)) : Checked (List Dim) :=
  first.zipIdx.mapM fun (d, axis) => do
    let same ← others.allM fun ds => do
      let e ← Checked.item ds axis
      return decide (e = d)
    return if same then d else .anything

/-- The shape that all shapes of a list have in common. -/
def checkedCommon : List Shape → Checked Shape
  | [] => .plain (.fail (.inference "no shapes to match"))
  | first :: rest =>
    if rest.all (· = first) then return first
    else
      match first.dims?, rest.mapM dims? with
      | some ds, some others =>
        if others.any fun es => es.length ≠ ds.length then
          .plain (.fail (.structural "arrays of differing rank"))
        else do
          let merged ← checkedWiden ds others
          return .dims merged
      | _, _ => .plain (.fail (.structural "mismatched element shapes in list"))

theorem allM_item_eq {axis : Nat} (d : Dim) {others : List (List Dim)}
    (h : ∀ ds ∈ others, axis < ds.length) :
    (others.allM fun ds => do
      let e ← Checked.item ds axis
      return decide (e = d) : Checked Bool) = pure (others.all fun ds => ds[axis]? = some d) := by
  induction others with
  | nil => rfl
  | cons ds rest ih =>
    obtain ⟨e, found⟩ : ∃ e, ds[axis]? = some e :=
      ⟨_, List.getElem?_eq_getElem (h ds List.mem_cons_self)⟩
    replace ih := ih fun es hes => h es (List.mem_cons_of_mem _ hes)
    rw [List.allM, Checked.item_of_getElem? found, pure_bind, pure_bind, List.all_cons, found, ih]
    by_cases same : e = d <;> simp [same]

theorem mapM_eq_pure {α β : Type} {f : α → Checked β} {g : α → β} {xs : List α}
    (h : ∀ x ∈ xs, f x = pure (g x)) : xs.mapM f = pure (xs.map g) := by
  induction xs with
  | nil => rfl
  | cons x xs ih =>
    rw [List.mapM_cons, h x List.mem_cons_self, ih fun y hy => h y (List.mem_cons_of_mem _ hy)]
    rfl

theorem checkedWiden_eq {first : List Dim} {others : List (List Dim)}
    (ranks : ∀ ds ∈ others, ds.length = first.length) :
    checkedWiden first others = pure (widen first others) := by
  rw [checkedWiden, widen, List.mapIdx_eq_zipIdx_map]
  refine mapM_eq_pure fun ⟨d, axis⟩ found => ?_
  have within : axis < first.length := by simpa using (List.mem_zipIdx found).2.1
  simp only [allM_item_eq d fun ds hds => ranks ds hds ▸ within, pure_bind]

theorem faultless_common (shapes : List Shape) :
    Faultless (checkedCommon shapes) (Infer.ofExcept (common shapes)) := by
  cases shapes with
  | nil => exact .plain
  | cons first rest =>
    rw [checkedCommon, common]
    split
    · exact .pure first
    · cases first.dims? with
      | none => exact .plain
      | some ds =>
        cases rest.mapM dims? with
        | none => exact .plain
        | some others =>
          by_cases unequal : others.any fun es => es.length ≠ ds.length
          · simp only [unequal, if_true]
            exact .plain
          · simp only [unequal]
            exact .access (checkedWiden_eq (by simpa using unequal)) (.pure _)

end Shape

namespace CheckedRegistry

/-- The checked rules of every track. -/
def builtin : Track → CheckedRegistry
  | .value => ValueRules.checkedRegistry
  | .type => TypeRules.checkedRegistry
  | .shape => ShapeRules.checkedRegistry

theorem covers_builtin (track : Track) : (builtin track).Covers (Registries.builtin.get track) := by
  cases track with
  | value => exact ValueRules.covers_registry
  | type => exact TypeRules.covers_registry
  | shape => exact ShapeRules.covers_registry

/-- Every operator with a built-in rule has a checked rule. On every number of arguments that the arity
accepts it is the same computation as the rule, and whatever that is answered, it does not end in a
fault. Where the checked rule finds a wrong number of arguments, the rule complains about just that.
What constants are asked for on the way compares extents in range, too. -/
theorem builtin_faultless {track : Track} {operator : Primitive} {arity : Arity} {rule : Rule}
    (found : (Registries.builtin.get track).get? operator = some (arity, rule)) :
    (∃ checked, (builtin track).get? operator = some checked
      ∧ (∀ (self : Track) (args : List Ref), arity.accepts args.length = true →
        checked self args = .plain (rule self args)
          ∧ (checked self args).run.Ends fun result => ∃ p, result = .ok p)
      ∧ ∀ (self : Track) (args : List Ref) (expected actual : Nat),
        checked self args = throw (.wrongCount expected actual) →
          rule self args = .fail (Rule.wrongCount expected actual))
    ∧ ∀ shapes : List Shape,
      Shape.checkedCommon shapes = .plain (Infer.ofExcept (Shape.common shapes)) := by
  refine ⟨?_, Shape.faultless_common⟩
  obtain ⟨checked, covered, shadows⟩ := covers_builtin track operator arity rule found
  refine ⟨checked, covered, fun self args accepted => ?_, shadows.complains⟩
  exact ⟨shadows.faultless self args accepted, (shadows.faultless self args accepted).ends_ok⟩

/-- An array of which only the extents are given. -/
def extentsGiven (extents : List UInt64) : Ref :=
  .virtual { value := none, type := none, shape := some (.shape (Shape.ofExtents extents)) }

/-- The checked product of two matrices reads their extents in range. -/
theorem builtin_faultless_dot : ∃ checked,
    (builtin .shape).get? .dot = some checked
      ∧ checked .shape [extentsGiven [2, 3], extentsGiven [3, 4]]
        = pure (.shape (Shape.ofExtents [2, 4])) := by
  have found : (Registries.builtin.get .shape).get? .dot = some (.exactly 2, ShapeRules.dot) := rfl
  obtain ⟨⟨checked, covered, within, -⟩, -⟩ := builtin_faultless found
  refine ⟨checked, covered, ?_⟩
  rw [(within .shape [extentsGiven [2, 3], extentsGiven [3, 4]] rfl).1]
  rfl

end CheckedRegistry

end ArrayInference
