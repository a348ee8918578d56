import ArrayInference.Proofs.Infer.Stays
import ArrayInference.Proofs.Tracks.Ledger

/-!
# Properties of one thing

Two tracks agree on something if its known value has the type and the shape that are found for it,
and if it is called in the same way on both. This is said of properties, and then of the frames of a
context and of references. Main statement: in a lawful ledger the value of a reference agrees with
its type and its shape.
-/

namespace ArrayInference

/-- The type of a reference is what its type track says. -/
theorem Infer.typeProperty_eq_get (x : Ref) : typeProperty x = get x .type := by
  induction x with
  | node r => rfl
  | virtual props =>
    rw [typeProperty, get, VirtualProps.get?]
    cases props.type <;> rfl
  | element container ih => rw [typeProperty, get, ih]

namespace Ledger

variable {v w : Ledger} {t : Track}

/-- An inferrer of the value track stands for the same thing as one of another track. -/
inductive Corresponds (w : Ledger) (t : Track) : Inferrer → Inferrer → Prop where
  | operator {operator : Primitive} {f g : Inferrer} (left : w.Stands operator .value f)
      (right : w.Stands operator t g) : Corresponds w t f g
  | graph {id : GraphId} {ctx : Context} {f g : Inferrer}
      (left : w.engine.callable? f = some (.graph .value id ctx))
      (right : w.engine.callable? g = some (.graph t id ctx)) : Corresponds w t f g
  | metaGraph {m : MetaGraph} {f g : Inferrer}
      (left : w.engine.callable? f = some (.metaGraph .value m))
      (right : w.engine.callable? g = some (.metaGraph t m)) : Corresponds w t f g
  | bound {inner inner' : Inferrer} {args : List Ref} {f g : Inferrer}
      (left : w.engine.callable? f = some (.bound inner args))
      (right : w.engine.callable? g = some (.bound inner' args))
      (same : Corresponds w t inner inner') : Corresponds w t f g

/-- What the value track knows of something agrees with what another track knows of it. -/
def Agree (w : Ledger) (t : Track) : Property → Property → Prop
  | .value (.known c), .type s => c.Inhabits s
  | .value (.known c), .shape s => w.shapes → c.Shaped s
  | .value (.known _), .inferrer _ => False
  | .inferrer f, .inferrer g => w.Corresponds t f g
  | _, _ => True

theorem Corresponds.mono {f g : Inferrer} (h : v.Corresponds t f g) (le : v.Le w) :
    w.Corresponds t f g := by
  induction h with
  | operator left right => exact .operator (left.mono le) (right.mono le)
  | graph left right => exact .graph (le.callables left) (le.callables right)
  | metaGraph left right => exact .metaGraph (le.callables left) (le.callables right)
  | bound left right _ ih => exact .bound (le.callables left) (le.callables right) ih

theorem Agree.mono {p q : Property} (h : v.Agree t p q) (le : v.Le w) : w.Agree t p q := by
  rcases p with (c | _) | _ | _ | f
  · rcases q with _ | s | s | g
    · trivial
    · exact h
    · exact fun shapes => h (le.shapes.mp shapes)
    · exact h
  · trivial
  · trivial
  · trivial
  · rcases q with _ | _ | _ | g
    · trivial
    · trivial
    · trivial
    · exact Corresponds.mono h le

/-- A context whose graphs are there, and whose frames hold arguments on which the tracks agree. -/
def Good (w : Ledger) : Context → Prop
  | .empty => True
  | .frame parent graph args =>
      graph.index < w.engine.program.graphs.size ∧ w.Good parent
        ∧ ∀ a ∈ args, w.Agree .type a.value a.type ∧ w.Agree .shape a.value a.shape

/-- A reference to a node in a good context, or to an argument whose properties fit. -/
def Sure (w : Ledger) : Ref → Prop
  | .node r => w.Good r.ctx
  | .virtual props => ∃ a : ArgSpec, a.Fits w.shapes ∧ Ref.virtual props = a.toRef
  | .element container => w.Sure container

theorem Good.mono {ctx : Context} (h : v.Good ctx) (le : v.Le w) : w.Good ctx := by
  induction ctx with
  | empty => trivial
  | frame parent graph args ih =>
    obtain ⟨there, good, agree⟩ := h
    refine ⟨Nat.lt_of_lt_of_le there le.program.size_graphs_le, ih good, fun a ha => ?_⟩
    exact ⟨(agree a ha).1.mono le, (agree a ha).2.mono le⟩

theorem Good.below {ctx : Context} (h : w.Good ctx) : ctx.Below w.engine.program.graphs.size := by
  induction ctx with
  | empty => trivial
  | frame parent graph args ih => exact ⟨h.1, ih h.2.1⟩

theorem Good.dropTo {ctx : Context} (h : w.Good ctx) (graph : GraphId) :
    w.Good (ctx.dropTo graph) := by
  induction ctx with
  | empty => trivial
  | frame parent g args ih =>
    rw [Context.dropTo]
    split
    · exact h
    · exact ih h.2.1

theorem Good.filter {ctx : Context} (h : w.Good ctx) (owner : Option GraphId) :
    w.Good (ctx.filter owner) := by
  cases owner with
  | none => trivial
  | some graph => exact h.dropTo graph

theorem Good.locate {ctx : Context} (h : w.Good ctx) (e : Engine) (node : NodeId) :
    w.Good (e.locate node ctx).ctx := by
  rw [Engine.locate]
  dsimp only
  split
  · exact h.filter _
  · trivial
  · exact h.filter _
  · exact h.filter _

/-- The arguments of a frame agree. -/
theorem Good.argument {ctx : Context} (h : w.Good ctx) {graph : GraphId} {index : Nat} {p q : Property}
    (left : ctx.argument? graph index .value = some p) (other : t ≠ .value)
    (right : ctx.argument? graph index t = some q) : w.Agree t p q := by
  have good := h.dropTo graph
  rw [Context.argument?] at left right
  cases hctx : ctx.dropTo graph with
  | empty => simp [hctx, Context.frameArgument?] at left
  | frame parent g args =>
    rw [hctx] at good left right
    simp only [Context.frameArgument?, Option.map_eq_some_iff] at left right
    obtain ⟨a, ha, rfl⟩ := left
    obtain ⟨b, hb, rfl⟩ := right
    rw [ha, Option.some.injEq] at hb
    subst hb
    have agree := good.2.2 a (List.mem_of_getElem? ha)
    cases t with
    | value => exact absurd rfl other
    | type => exact agree.1
    | shape => exact agree.2

theorem Sure.mono {x : Ref} (h : v.Sure x) (le : v.Le w) : w.Sure x := by
  induction x with
  | node r => exact Good.mono h le
  | virtual props =>
    obtain ⟨a, fits, same⟩ := h
    refine ⟨a, fun c known => ?_, same⟩
    exact ⟨(fits c known).1, fun shapes => (fits c known).2 (le.shapes.mp shapes)⟩
  | element container ih => exact ih h

theorem sure_base {x : Ref} : w.Sure x.base ↔ w.Sure x := by
  induction x with
  | node r => exact .rfl
  | virtual props => exact .rfl
  | element container ih => exact ih

/-- Constants of type type fit. -/
theorem sure_typeConstant {s t : Ty} (h : (Constant.type s).HasType t) :
    w.Sure (.constant (.type s) t) := by
  refine ⟨{ type := t, shape := none, value := some (.type s) }, ?_, rfl⟩
  rintro c ⟨⟩
  refine ⟨Constant.inhabits_of_hasType _ _ h, fun _ u shape => ?_⟩
  obtain ⟨home, rfl⟩ := Interning.Makes.of_intern
    (show Interning.Makes (liftM (Interning.generic .type)) t from h)
  cases shape
  exact Constant.shaped_of_isPlain rfl

/-- What is asked of a new inferrer. -/
def Sound (w : Ledger) : Callable → Prop
  | .primitive track operator arity rule =>
      (Registries.builtin.get track).get? operator = some (arity, rule)
  | .graph _ _ ctx => w.Good ctx
  | .bound _ args => ∀ x ∈ args, w.Sure x
  | .scalarShape | .anything | .metaGraph .. => True

theorem Sound.mono {c : Callable} (h : v.Sound c) (le : v.Le w) : w.Sound c := by
  cases c with
  | primitive track operator arity rule => exact h
  | graph track g ctx => exact Good.mono h le
  | bound inner args => exact fun x hx => (h x hx).mono le
  | _ => trivial

/-- An engine with the built-in rules, in which every inferrer is sound and is kept under what it
stands for. -/
structure Kept (w : Ledger) : Prop where
  rules : w.engine.rules = .builtin
  anything : w.engine.callable? Engine.anything = some .anything
  scalarShape : w.engine.callable? Engine.scalarShape = some .scalarShape
  sound : ∀ {f : Inferrer} {c : Callable}, w.engine.callable? f = some c → w.Sound c
  kept : ∀ {key : InferrerKey} {f : Inferrer}, w.engine.inferrers.find? key = some f →
    w.Holds key.ctx key.callee key.track (.inferrer f)

/-- Whatever was found agrees. -/
structure Lawful (w : Ledger) : Prop extends Kept w where
  functional : ∀ {key : Entry} {p q : Property}, w.found key p → w.found key q → q = p
  agree : ∀ {r : NodeRef} {t : Track} {p q : Property}, w.found { ref := r, track := .value } p →
    t ≠ .value → w.found { ref := r, track := t } q → w.Agree t p q

/-- Every entry is found to have one property only. -/
def Functional (w : Ledger) : Prop :=
  ∀ ⦃key : Entry⦄ ⦃p q : Property⦄, w.found key p → w.found key q → q = p

theorem Lawful.once (lawful : w.Lawful) : w.Functional :=
  fun _ _ _ => lawful.functional

/-- The value of a reference is known to be a constant. -/
abbrev Knows (w : Ledger) (calls : Calls) (x : Ref) (c : Constant) : Prop :=
  w.Yields calls (Infer.get x .value) (.value (.known c))

section

variable {calls calls' : Calls} {x : Ref}

/-! ## What is read once is read again -/

theorem yields_typeOf {s : Ty} :
    w.Yields calls (Infer.typeOf x) s
      ↔ ∃ p, w.Yields calls (Infer.get x .type) p ∧ w.Yields calls (Infer.asType p) s := by
  rw [Infer.typeOf, Infer.typeProperty_eq_get, yields_seq]

theorem asType_unique {p : Property} {s u : Ty} (h : w.Yields calls (Infer.asType p) s)
    (h' : w.Yields calls' (Infer.asType p) u) : u = s := by
  cases p with
  | inferrer f =>
    exact (yields_intern.mp h).unique (Interning.steady_generic _) (yields_intern.mp h')
  | _ =>
    simp only [Infer.asType, yields_ofExcept] at h h'
    rw [h, Except.ok.injEq] at h'
    exact h'.symm

theorem Functional.get_unique (once : w.Functional) {track : Track} {p q : Property}
    (h : w.Yields calls (Infer.get x track) p) (h' : w.Yields calls' (Infer.get x track) q) : q = p := by
  induction x generalizing track p q with
  | node r => exact once (yields_entry.mp h) (yields_entry.mp h')
  | virtual props =>
    rw [Infer.get] at h h'
    split at h
    · rename_i given
      rw [given] at h'
      rw [yields_done.mp h]
      exact yields_done.mp h'
    · rename_i missing
      rw [missing] at h'
      cases track with
      | value => rw [yields_done.mp h, yields_done.mp h']
      | type => simp [Infer.default] at h
      | shape =>
        simp only [Infer.default, yields_seq, yields_ofExcept, yields_done, yields_typeOf] at h h'
        obtain ⟨s, ⟨a, ha, hs⟩, shape, hshape, rfl⟩ := h
        obtain ⟨s', ⟨a', ha', hs'⟩, shape', hshape', rfl⟩ := h'
        have same : a' = a := by
          rw [Infer.get] at ha ha'
          split at ha
          · rename_i given
            rw [given] at ha'
            rw [yields_done.mp ha]
            exact yields_done.mp ha'
          · simp [Infer.default] at ha
        subst same
        rw [asType_unique hs hs', hshape, Except.ok.injEq] at hshape'
        rw [hshape']
  | element container ih =>
    simp only [Infer.get, yields_seq, yields_ofExcept] at h h'
    obtain ⟨a, ha, hp⟩ := h
    obtain ⟨b, hb, hq⟩ := h'
    rw [ih ha hb, hp, Except.ok.injEq] at hq
    exact hq.symm

theorem Functional.typeOf_unique (once : w.Functional) {s u : Ty}
    (h : w.Yields calls (Infer.typeOf x) s) (h' : w.Yields calls' (Infer.typeOf x) u) : u = s := by
  obtain ⟨p, hp, hs⟩ := yields_typeOf.mp h
  obtain ⟨q, hq, hu⟩ := yields_typeOf.mp h'
  rw [once.get_unique hp hq] at hu
  exact asType_unique hs hu

theorem yields_valueOf {a : Value} :
    w.Yields calls (Infer.valueOf x) a
      ↔ ∃ p, w.Yields calls (Infer.get x .value) p ∧ p.toValue = .ok a := by
  simp only [Infer.valueOf, yields_seq, yields_ofExcept]

theorem Functional.valueOf_unique (once : w.Functional) {a b : Value}
    (h : w.Yields calls (Infer.valueOf x) a) (h' : w.Yields calls' (Infer.valueOf x) b) : b = a := by
  obtain ⟨p, hp, ha⟩ := yields_valueOf.mp h
  obtain ⟨q, hq, hb⟩ := yields_valueOf.mp h'
  rw [once.get_unique hp hq, ha, Except.ok.injEq] at hb
  exact hb.symm

/-- A known constant is one that the value track knows. -/
theorem yields_known {c : Constant} :
    w.Yields calls (Infer.valueOf x) (.known c)
      ↔ w.Knows calls x c := by
  rw [yields_valueOf]
  constructor
  · rintro ⟨p, hp, known⟩
    cases p <;> cases known
    exact hp
  · exact fun h => ⟨_, h, rfl⟩

theorem yields_constantOf {what : String} {c : Constant} :
    w.Yields calls (Infer.constantOf x what) c
      ↔ w.Knows calls x c := by
  rw [Infer.constantOf, yields_seq, ← yields_known]
  constructor
  · rintro ⟨a, ha, h⟩
    cases a with
    | known d => exact yields_done.mp h ▸ ha
    | anything => exact h.elim
  · exact fun h => ⟨_, h, yields_done.mpr rfl⟩

theorem Functional.known_unique (once : w.Functional) {c d : Constant}
    (h : w.Knows calls x c) (h' : w.Knows calls' x d) : d = c := by
  have same := once.get_unique h h'
  cases same
  rfl

theorem Functional.shapeOf_unique (once : w.Functional) {s u : Shape}
    (h : w.Yields calls (Infer.shapeOf x) s) (h' : w.Yields calls' (Infer.shapeOf x) u) : u = s := by
  rw [Infer.shapeOf, yields_seq] at h h'
  obtain ⟨p, hp, hs⟩ := h
  obtain ⟨q, hq, hu⟩ := h'
  rw [once.get_unique hp hq] at hu
  cases p with
  | inferrer f => rw [yields_done.mp hs, yields_done.mp hu]
  | _ =>
    rw [yields_ofExcept] at hs hu
    rw [hs, Except.ok.injEq] at hu
    exact hu.symm

/-! ## What is read of one reference agrees -/

theorem agree_anything {q : Property} : w.Agree t (.value .anything) q := by
  cases q <;> trivial

/-- The tracks agree on whatever is sure. -/
theorem Lawful.agree_get (lawful : w.Lawful) (sure : w.Sure x) (other : t ≠ .value) {p q : Property}
    (left : w.Yields calls (Infer.get x .value) p) (right : w.Yields calls' (Infer.get x t) q) :
    w.Agree t p q := by
  induction x generalizing p q with
  | node r => exact lawful.agree (yields_entry.mp left) other (yields_entry.mp right)
  | virtual props =>
    obtain ⟨a, fits, same⟩ := sure
    cases same
    have left := yields_done.mp left
    cases hvalue : a.value with
    | none =>
      rw [left, hvalue]
      exact agree_anything
    | some c =>
      obtain ⟨inhabits, shaped⟩ := fits c hvalue
      rw [left, hvalue]
      cases t with
      | value => exact absurd rfl other
      | type =>
        rw [yields_done.mp right]
        exact inhabits
      | shape =>
        cases hshape : a.shape with
        | some s =>
          simp only [Infer.get, VirtualProps.get?, hshape, Option.map_some, yields_done] at right
          rw [right]
          exact fun shapes => shaped shapes s (by rw [hshape]; rfl)
        | none =>
          simp only [Infer.get, VirtualProps.get?, hshape, Option.map_none, Infer.default, yields_seq,
            yields_typeOf, yields_done, yields_ofExcept] at right
          obtain ⟨u, ⟨_, rfl, hu⟩, s, hs, rfl⟩ := right
          simp only [Infer.asType, Property.toType, yields_ofExcept, Except.ok.injEq] at hu
          subst hu
          exact fun shapes => shaped shapes s (by rw [hshape]; exact hs)
  | element container ih =>
    rw [Infer.get, yields_seq] at left
    obtain ⟨_, _, h⟩ := left
    cases yields_ofExcept.mp h
    exact agree_anything

/-- A known value has the type of its reference. -/
theorem Lawful.inhabits (lawful : w.Lawful) (sure : w.Sure x) {c : Constant} {s : Ty}
    (left : w.Knows calls x c) (right : w.Yields calls' (Infer.typeOf x) s) : c.Inhabits s := by
  obtain ⟨q, hq, hs⟩ := yields_typeOf.mp right
  have agree := lawful.agree_get sure (t := .type) (by simp) left hq
  cases q with
  | type u =>
    simp only [Infer.asType, Property.toType, yields_ofExcept, Except.ok.injEq] at hs
    exact hs ▸ agree
  | inferrer f => exact agree.elim
  | value v => simp [Infer.asType, Property.toType] at hs
  | shape u => simp [Infer.asType, Property.toType] at hs

/-- A known value has the shape of its reference. -/
theorem Lawful.shaped (lawful : w.Lawful) (sure : w.Sure x) {c : Constant} {s : Shape}
    (left : w.Knows calls x c) (right : w.Yields calls' (Infer.shapeOf x) s) (shapes : w.shapes) :
    c.Shaped s := by
  rw [Infer.shapeOf, yields_seq] at right
  obtain ⟨q, hq, hs⟩ := right
  have agree := lawful.agree_get sure (t := .shape) (by simp) left hq
  cases q with
  | shape u =>
    simp only [Property.toShape, yields_ofExcept, Except.ok.injEq] at hs
    exact hs ▸ agree shapes
  | inferrer f => exact agree.elim
  | value v => simp [Property.toShape] at hs
  | type u => simp [Property.toShape] at hs

end

end Ledger

end ArrayInference
