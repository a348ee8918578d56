import ArrayInference.Proofs.Refining.Generators
import ArrayInference.Proofs.Refining.Rounds

/-!
# One thing in two runs

Two runs of one program, the second of which knows more about the arguments. Here is said how what
they find of the same thing is related. Types are equal, and so are values that the first run knows;
shapes in the second run say at least as much; and a value that only the second run knows has the type
that is found in the first one. What can be called stands for the same in both, in contexts that are
related like this.
-/

namespace ArrayInference

/-- What is compared in two runs: a track, or the types of the first with the values of the second. -/
inductive Facet where
  | same (track : Track)
  | typed

namespace Facet

/-- The track in the first run. -/
def left : Facet → Track
  | same t => t
  | typed => .type

/-- The track in the second run. -/
def right : Facet → Track
  | same t => t
  | typed => .value

end Facet

/-- The shape that is taken for an argument. -/
def ArgSpec.assumedShape (a : ArgSpec) : Except InferError Shape :=
  a.shape.elim (Shape.ofType a.type) .ok

/-- An argument, and the same one with more that is known of it. -/
structure ArgSpec.Refines (a a' : ArgSpec) : Prop where
  type : a'.type = a.type
  value : a.value = none ∨ a'.value = a.value
  shape : ∀ s s', a.assumedShape = .ok s → a'.assumedShape = .ok s' → s'.AtMost s
  inhabits : ∀ c, a'.value = some c → c.Inhabits a'.type

/-- All graphs in an argument have a property. -/
structure ArgSpec.Within (V : GraphId → Prop) (a : ArgSpec) : Prop where
  type : a.type.Within V
  value : ∀ c, a.value = some c → c.Within V

theorem exists_of_bind {ε α β : Type} {r : Except ε α} {f : α → Except ε β} {b : β}
    (h : r >>= f = .ok b) : ∃ a, r = .ok a ∧ f a = .ok b := by
  cases r with
  | error e => cases h
  | ok a => exact ⟨a, rfl, h⟩

/-- More that is known of a shape leaves the number of axes as it is. -/
theorem Shape.AtMost.rank?_eq {a b : Shape} (h : a.AtMost b) : a.rank? = b.rank? := by
  cases h with
  | dims each => simp [Shape.rank?, Shape.dims?, each.length_eq]
  | _ => rfl

/-- The shapes of elements. -/
theorem Shape.AtMost.toElement {a b c d : Shape} (h : a.AtMost b) (left : a.toElement = .ok c)
    (right : b.toElement = .ok d) : c.AtMost d := by
  cases h with
  | dims each =>
    cases left
    cases right
    exact .noShape
  | list element =>
    cases left
    cases right
    exact element
  | _ => cases left

/-- Two engines that started from the same program. -/
structure Sides where
  program : Program
  left : Engine
  right : Engine

namespace Sides

section

variable (s : Sides)

mutual

/-- Inferrers of the two engines that stand for the same thing. -/
inductive Kin : Facet → Inferrer → Inferrer → Prop where
  | operator {m : Facet} {operator : Primitive} {f f' : Inferrer}
      (left : (Ledger.opening s.left False).Stands operator m.left f)
      (right : (Ledger.opening s.right False).Stands operator m.right f') : Kin m f f'
  | graph {m : Facet} {g : GraphId} {c c' : Context} {f f' : Inferrer} (own : s.program.Has g)
      (ctx : Around c c') (left : s.left.callable? f = some (.graph m.left g c))
      (right : s.right.callable? f' = some (.graph m.right g c')) : Kin m f f'
  | generated {m : Facet} {g g' : GraphId} {f f' : Inferrer}
      (pairs : Program.Pairs s.program s.left.program s.right.program g g')
      (left : s.left.callable? f = some (.graph m.left g .empty))
      (right : s.right.callable? f' = some (.graph m.right g' .empty)) : Kin m f f'
  | metaGraph {m : Facet} {generator : MetaGraph} {f f' : Inferrer}
      (own : ∀ g ∈ generator.mentions, s.program.Has g)
      (left : s.left.callable? f = some (.metaGraph m.left generator))
      (right : s.right.callable? f' = some (.metaGraph m.right generator)) : Kin m f f'
  | bound {m : Facet} {inner inner' : Inferrer} {xs xs' : List Ref} {f f' : Inferrer}
      (same : Kin m inner inner') (args : List.Forall₂ Names xs xs')
      (left : s.left.callable? f = some (.bound inner xs))
      (right : s.right.callable? f' = some (.bound inner' xs')) : Kin m f f'

/-- What the two runs find of the same thing. -/
inductive Finer : Facet → Property → Property → Prop where
  | anything (p : Property) : Finer (.same .value) (.value .anything) p
  | known {c : Constant} (own : c.Within s.program.Has) :
      Finer (.same .value) (.value (.known c)) (.value (.known c))
  | type {t : Ty} (own : t.Within s.program.Has) : Finer (.same .type) (.type t) (.type t)
  | shape {a a' : Shape} (le : a'.AtMost a) : Finer (.same .shape) (.shape a) (.shape a')
  | typed {t : Ty} {p : Property} (inhabits : ∀ c, p = .value (.known c) → c.Inhabits t) :
      Finer .typed (.type t) p
  | unknown (p : Property) : Finer .typed p (.value .anything)
  | inferrer {m : Facet} {f f' : Inferrer} (kin : Kin m f f') : Finer m (.inferrer f) (.inferrer f')

/-- The contexts of the same thing. -/
inductive Around : Context → Context → Prop where
  | empty : Around .empty .empty
  | frame {c c' : Context} {g : GraphId} {args args' : List ArgProps} (parent : Around c c')
      (own : s.program.Has g) (passed : List.Forall₂ Passed args args') :
      Around (.frame c g args) (.frame c' g args')

/-- The properties of the same argument. -/
inductive Passed : ArgProps → ArgProps → Prop where
  | mk {a a' : ArgProps} (each : ∀ m : Facet, Finer m (a.get m.left) (a'.get m.right)) : Passed a a'

/-- The same node. -/
inductive Places : NodeRef → NodeRef → Prop where
  | shared {n : NodeId} {c c' : Context} (own : n.index < s.program.nodes.size)
      (ctx : Around c c') : Places ⟨n, c⟩ ⟨n, c'⟩
  | constant {n n' : NodeId} {c : Constant} (own : c.Within s.program.Has)
      (data : ∀ g, c ≠ .graph g) (left : (s.left.program.node n).kind = .constant c)
      (right : (s.right.program.node n').kind = .constant c) : Places ⟨n, .empty⟩ ⟨n', .empty⟩
  | framed {x : Overlap} {q q' : Program} {g : GraphId} {n : NodeId} {args args' : List ArgProps}
      (twins : Program.Twins s.program s.left.program s.right.program x q q')
      (new : x.graphs ≤ g.index) (here : x.Local q g n) (passed : List.Forall₂ Passed args args') :
      Places ⟨n, .frame .empty g args⟩ ⟨x.node n, .frame .empty (x.graph g) args'⟩

/-- References to the same thing. -/
inductive Names : Ref → Ref → Prop where
  | node {r r' : NodeRef} (same : Places r r') : Names (.node r) (.node r')
  | given {a a' : ArgSpec} (refines : a.Refines a') (own : a.Within s.program.Has) :
      Names a.toRef a'.toRef
  | element {x x' : Ref} (same : Names x x') : Names (.element x) (.element x')

end

end

variable {s : Sides} {m : Facet} {p p' : Property}

/-! ## Properties -/

/-- What is known stays known. -/
theorem Finer.of_known {c : Constant} (h : s.Finer (.same .value) (.value (.known c)) p) :
    p = .value (.known c) ∧ c.Within s.program.Has := by
  cases h with
  | known own => exact ⟨rfl, own⟩

theorem Finer.of_type {t : Ty} (h : s.Finer (.same .type) (.type t) p) :
    p = .type t ∧ t.Within s.program.Has := by
  cases h with
  | type own => exact ⟨rfl, own⟩

theorem Finer.of_shape {a : Shape} (h : s.Finer (.same .shape) (.shape a) p) :
    ∃ a' : Shape, p = .shape a' ∧ a'.AtMost a := by
  cases h with
  | shape le => exact ⟨_, rfl, le⟩

/-- The first run may as well have found less. -/
theorem Finer.of_below {q : Property} (h : s.Finer m q p') (below : q.Below p) : s.Finer m p p' := by
  cases below with
  | same => exact h
  | shape le =>
    cases h with
    | shape le' => exact .shape (le'.trans le)
    | unknown => exact .unknown _

theorem Finer.kin {f f' : Inferrer} (h : s.Finer m (.inferrer f) (.inferrer f')) : s.Kin m f f' := by
  cases h with
  | inferrer kin => exact kin

/-- Elements of the same container. -/
theorem Finer.toElement (h : s.Finer m p p') {e e' : Property} (left : p.toElement m.left = .ok e)
    (right : p'.toElement m.right = .ok e') : s.Finer m e e' := by
  cases m with
  | typed =>
    cases right
    exact .unknown e
  | same t =>
    cases t with
    | value =>
      cases left
      exact .anything e'
    | type =>
      obtain ⟨t, ht, found⟩ := exists_of_bind left
      obtain ⟨t', ht', found'⟩ := exists_of_bind right
      cases p <;> cases ht
      obtain ⟨rfl, own⟩ := h.of_type
      cases ht'
      cases helement : t.element? with
      | none => simp [helement] at found
      | some u =>
        simp only [helement, Except.ok.injEq] at found found'
        subst found found'
        exact .type (own.element? helement)
    | shape =>
      obtain ⟨a, ha, found⟩ := exists_of_bind left
      obtain ⟨a', ha', found'⟩ := exists_of_bind right
      cases p <;> cases ha
      obtain ⟨_, rfl, le⟩ := h.of_shape
      cases ha'
      obtain ⟨b, hb, same⟩ := exists_of_bind found
      obtain ⟨b', hb', same'⟩ := exists_of_bind found'
      cases same
      cases same'
      exact .shape (le.toElement hb' hb)

end Sides

end ArrayInference
