import ArrayInference.Proofs.Engine.Furnishing
import ArrayInference.Proofs.Run.Attribution
import ArrayInference.Proofs.Run.Reaching

/-!
# Record literals and record constructors

A record constant has the declared type of its class if the types of its values fit the declared fields.
A call of the class checks its arguments against the same fields, but it sees of each argument what any
call sees of it: something that can be called has the generic function type, a record class as well,
and an operator without a type rule has no type at all. Main statement: in every session, a call of a
record class on constants has the declared type exactly if what the call sees fits the fields, and it
fails with an error of inference otherwise; so unless there are record classes or such operators among
the constants, it succeeds exactly if the literal has the declared type.
-/

namespace ArrayInference

namespace Interning

section

variable {ε α β : Type} {types : TypeCache}

/-- What is made in two steps is made of what the first one makes. -/
theorem of_bind_ok {make : ExceptT ε Interning α} {f : α → ExceptT ε Interning β} {b : β}
    (first : Steady make.run) (second : ∀ a, Steady (f a).run)
    (h : ((make >>= f).run.run types).1 = .ok b) :
    ∃ a, (make.run.run types).1 = .ok a ∧ ((f a).run.run types).1 = .ok b := by
  have home := first.home types
  rw [ExceptT.run_bind, StateT.run_bind] at h
  rcases made : make.run.run types with ⟨r, later⟩
  rw [made] at h home
  cases r with
  | error e => cases h
  | ok a => exact ⟨a, rfl, ((second a).answer _ _ home).symm.trans h⟩

end

variable {types : TypeCache}

theorem forall₂_of_typesOfConstants {cs : List Constant} {ts : List Ty}
    (h : ((typesOfConstants cs).run.run types).1 = .ok ts) :
    List.Forall₂ (fun c t => ((typeOfConstant c).run.run types).1 = .ok t) cs ts := by
  induction cs generalizing ts with
  | nil =>
    cases Except.ok.inj h
    exact .nil
  | cons c cs ih =>
    rw [typesOfConstants] at h
    obtain ⟨t, first, h⟩ := of_bind_ok (steady_typeOfConstant c)
      (fun _ => (steady_typesOfConstants cs).tryBind fun _ => steady_return _) h
    obtain ⟨us, rest, h⟩ := of_bind_ok (steady_typesOfConstants cs) (fun _ => steady_return _) h
    cases Except.ok.inj h
    exact .cons first (ih rest)

/-- Position by position, the types of the values are below the declared ones. -/
def Fit (fields : List (String × Ty)) (ts : List Ty) : Prop :=
  List.Forall₂ (fun field t => t.isSubtype field.2 = true) fields ts

theorem fitsFields_iff {fields : List (String × Ty)} {ts : List Ty}
    (length : ts.length = fields.length) :
    fitsFields ((fields.map (·.1)).zip ts) fields = true ↔ Fit fields ts := by
  induction fields generalizing ts with
  | nil =>
    cases List.length_eq_zero_iff.mp length
    exact ⟨fun _ => .nil, fun _ => rfl⟩
  | cons field fields ih =>
    cases ts with
    | nil => cases length
    | cons t ts =>
      replace ih := ih (Nat.succ.inj length)
      rw [Fit, List.forall₂_cons, ← Fit, ← ih]
      simp [fitsFields]

theorem fitsFields_self (fields : List (String × Ty)) : fitsFields fields fields = true := by
  induction fields with
  | nil => rfl
  | cons field fields ih =>
    rw [fitsFields, List.zip_cons_cons, List.all_cons, ← fitsFields, ih]
    simp [Ty.isSubtype_self]

/-- The type of a record constant is the declared one exactly if its values fit. -/
theorem typeOfConstant_record {c : RecordClass} {values : List Constant} {literal : Ty}
    (h : ((typeOfConstant (.record c values)).run.run types).1 = .ok literal) :
    ∃ ts, List.Forall₂ (fun v t => ((typeOfConstant v).run.run types).1 = .ok t) values ts
      ∧ ts.length = c.fields.length
      ∧ (literal = ((declaredType c).run types).1 ↔ Fit c.fields ts) := by
  rw [typeOfConstant] at h
  split at h
  · cases h
  · rename_i length
    obtain ⟨ts, made, h⟩ := of_bind_ok (steady_typesOfConstants values)
      (fun _ => (steady_declaredTag _ _).lift.tryBind fun _ => (steady_record _ _ _).lift) h
    have each := forall₂_of_typesOfConstants made
    have same : ts.length = c.fields.length := each.length_eq.symm.trans (not_not.mp length)
    refine ⟨ts, each, same, ?_⟩
    have fits := fitsFields_iff same
    rw [← Except.ok.inj h]
    show Ty.record types.home _ (if _ then _ else _) c.methods
      = Ty.record types.home _ c.fields c.methods ↔ _
    rw [Ty.record.injEq]
    split
    · rename_i fit
      exact ⟨fun _ => fits.mp fit, fun _ => ⟨rfl, rfl, rfl, rfl⟩⟩
    · rename_i misfit
      refine ⟨fun ⟨_, _, actual, _⟩ => absurd ?_ misfit, fun fit => absurd (fits.mpr fit) misfit⟩
      rw [actual]
      exact fitsFields_self c.fields

end Interning

namespace TypeCache

/-- The type that a call sees of a constant. -/
def seenType? (types : TypeCache) (value : Constant) : Option Ty :=
  match value with
  | .primitive operator =>
    if (TypeRules.registry.get? operator).isSome then
      some ((Interning.generic .function).run types).1
    else none
  | .graph _ | .metaGraph _ | .recordType _ => some ((Interning.generic .function).run types).1
  | data => ((Interning.typeOfConstant data).run.run types).1.toOption

/-- What a call sees of the values fits the fields. -/
def Accepts (types : TypeCache) (fields : List (String × Ty)) (values : List Constant) : Prop :=
  List.Forall₂ (fun field value => ∃ t, types.seenType? value = some t ∧ t.isSubtype field.2 = true)
    fields values

variable {types later : TypeCache} {value : Constant} {t : Ty}

theorem seenType?_of_home (home : later.home = types.home) (value : Constant) :
    later.seenType? value = types.seenType? value := by
  have function := (Interning.steady_generic .function).answer _ _ home
  have own := (Interning.steady_typeOfConstant value).answer _ _ home
  cases value <;> simp only [seenType?, function, own]

theorem accepts_of_home (home : later.home = types.home) {fields : List (String × Ty)}
    {values : List Constant} : later.Accepts fields values ↔ types.Accepts fields values := by
  simp only [Accepts, seenType?_of_home home]

/-- An ordinary constant: neither a record class nor an operator without a type rule. -/
def Ordinary : Constant → Prop
  | .recordType _ => False
  | .primitive operator => TypeRules.registry.get? operator ≠ none
  | _ => True

/-- What a call sees of an ordinary constant is its own type. -/
theorem seenType?_of_ordinary (ordinary : Ordinary value)
    (own : ((Interning.typeOfConstant value).run.run types).1 = .ok t) :
    types.seenType? value = some t := by
  cases value with
  | recordType c => cases ordinary
  | primitive operator =>
    rw [seenType?, if_pos (Option.isSome_iff_ne_none.mpr ordinary), ← Except.ok.inj own]
    rfl
  | graph g =>
    rw [seenType?, ← Except.ok.inj own]
    rfl
  | metaGraph m =>
    rw [seenType?, ← Except.ok.inj own]
    rfl
  | _ => simp only [seenType?, own, Except.toOption]

/-- If all values are ordinary, what a call sees of them fits exactly if their own types do. -/
theorem accepts_iff_of_ordinary {fields : List (String × Ty)} {values : List Constant} {ts : List Ty}
    (ordinary : ∀ v ∈ values, Ordinary v)
    (each : List.Forall₂ (fun v t => ((Interning.typeOfConstant v).run.run types).1 = .ok t)
      values ts) :
    types.Accepts fields values ↔ Interning.Fit fields ts := by
  induction each generalizing fields with
  | nil =>
    rw [Accepts, Interning.Fit]
    cases fields with
    | nil => exact ⟨fun _ => .nil, fun _ => .nil⟩
    | cons field fields => exact ⟨nofun, nofun⟩
  | cons own each ih =>
    rw [List.forall_mem_cons] at ordinary
    cases fields with
    | nil => exact ⟨nofun, nofun⟩
    | cons field fields =>
      rw [Accepts, Interning.Fit, List.forall₂_cons, List.forall₂_cons, ← Accepts, ← Interning.Fit,
        ih ordinary.2, seenType?_of_ordinary ordinary.1 own]
      simp

end TypeCache

/-! ## What a call sees of its arguments -/

namespace Enclave

variable {v : Enclave} {n : Nat} {R : Engine → Outcome → Prop} {e : Engine} {value : Constant}
  {x : Ref}

/-- A reference to an entry that says what a constant yields. -/
def Stands (v : Enclave) (n : Nat) (value : Constant) (x : Ref) : Prop :=
  ∃ r : NodeRef, x = .node r ∧ v.holds { ref := r, track := .type }
    ∧ v.rank { ref := r, track := .type } < n
    ∧ ∀ {e : Engine} {o : Outcome}, v.tells { ref := r, track := .type } e o → e.Yields value o

end Enclave

/-! ## Applications of a record class -/

namespace Program

end Program

/-- A node applies a record class to constants. -/
structure Program.Constructs (p : Program) (node callee : NodeId) (inputs : List NodeId)
    (cls : RecordClass) (values : List Constant) : Prop where
  application : (p.node node).kind = .apply (callee :: inputs)
  cls : (p.node callee).kind = .constant (.recordType cls)
  given : inputs.map (fun id => (p.node id).kind) = values.map .constant

namespace Engine

/-- What a call of a record class on constants gives. -/
structure Builds (e : Engine) (cls : RecordClass) (values : List Constant) (r : Outcome) : Prop where
  built : e.types.Accepts cls.fields values → r = .ok (.type (e.declared cls))
  refused : ¬ e.types.Accepts cls.fields values →
    ∃ err message, r = .error err ∧ err.cause = .inference message

variable {e f : Engine} {cls : RecordClass} {values : List Constant} {r : Outcome} {value : Constant}

theorem Builds.of_home (h : e.Builds cls values r) (home : f.types.home = e.types.home) :
    f.Builds cls values r where
  built := fun accepts => by
    rw [h.built ((TypeCache.accepts_of_home home).mp accepts), declared_of_home home]
  refused := fun rejects => h.refused fun accepts =>
    rejects ((TypeCache.accepts_of_home home).mpr accepts)

theorem Builds.attributed (h : e.Builds cls values r) (node : NodeId) :
    e.Builds cls values (Run.attributed node r) where
  built := fun accepts => by
    rw [h.built accepts]
    rfl
  refused := fun rejects => by
    obtain ⟨err, message, rfl, cause⟩ := h.refused rejects
    exact ⟨_, message, rfl, (err.cause_attributeTo node).trans cause⟩

theorem Yields.attributed (h : e.Yields value r) (node : NodeId) :
    e.Yields value (Run.attributed node r) := by
  cases h with
  | callable callable known constructs => exact .callable callable known constructs
  | refused unknown cause => exact .refused unknown ((InferError.cause_attributeTo _ node).trans cause)
  | data data made => exact .data data made
  | untyped data failed => exact .untyped data failed

end Engine

namespace Enclave

/-- A node that applies a record class to constants, and the nodes of these, on the type track. -/
def construction (p : Program) (node callee : NodeId) (inputs : List NodeId) (cls : RecordClass)
    (values : List Constant) : Enclave where
  holds := fun key => key.track = .type ∧ key.ref.node ∈ node :: callee :: inputs
  rank := fun key =>
    match (p.node key.ref.node).kind with
    | .constant _ => 0
    | _ => 1
  tells := fun key e r =>
    match (p.node key.ref.node).kind with
    | .constant value => e.Yields value r
    | _ => e.Builds cls values r
  mono := fun {key _ _ _} h becomes => by
    cases kind : (p.node key.ref.node).kind with
    | constant value =>
      simp only [kind] at h ⊢
      exact h.mono becomes
    | _ =>
      simp only [kind] at h ⊢
      exact h.of_home becomes.home

section

variable {p : Program} {types : TypeCache} {config : Config} {node callee : NodeId}
  {inputs : List NodeId} {cls : RecordClass} {values : List Constant} {e : Engine} {r : NodeRef}

end

end Enclave

namespace Engine

/-- What is said of a call of a record class on constants, next to the type of the record that has
these constants for its values. -/
structure Agrees (e : Engine) (cls : RecordClass) (values : List Constant) (literal : Ty)
    (r : Outcome) : Prop where
  /-- The call has the declared type, or it fails with an error of inference. -/
  result : r = .ok (.type (e.declared cls))
    ∨ ∃ err message, r = .error err ∧ err.cause = .inference message
  /-- It succeeds exactly if what it sees of the values fits the fields. -/
  accepts : (∃ t, r = .ok t) ↔ e.types.Accepts cls.fields values
  /-- On ordinary constants, it succeeds exactly if the record has the declared type. -/
  literal : (∀ v ∈ values, TypeCache.Ordinary v) → ((∃ t, r = .ok t) ↔ literal = e.declared cls)

variable {e : Engine} {cls : RecordClass} {values : List Constant} {r : Outcome} {literal : Ty}

theorem Builds.agrees (h : e.Builds cls values r)
    (typed : ((Interning.typeOfConstant (.record cls values)).run.run e.types).1 = .ok literal) :
    e.Agrees cls values literal r := by
  have accepts : (∃ t, r = .ok t) ↔ e.types.Accepts cls.fields values := by
    refine ⟨fun ⟨t, ok⟩ => ?_, fun accepts => ⟨_, h.built accepts⟩⟩
    by_contra rejects
    obtain ⟨err, -, failed, -⟩ := h.refused rejects
    rw [ok] at failed
    cases failed
  refine ⟨?_, accepts, fun ordinary => ?_⟩
  · by_cases fit : e.types.Accepts cls.fields values
    · exact .inl (h.built fit)
    · exact .inr (h.refused fit)
  · obtain ⟨ts, each, -, same⟩ := Interning.typeOfConstant_record typed
    rw [accepts, TypeCache.accepts_iff_of_ordinary ordinary each]
    exact same.symm

end Engine

namespace Run

open Enclave

/-- A record class with an integer for its only field. -/
def pointClass : RecordClass :=
  { id := ⟨0⟩, name := "Point", fields := [("x", .int ⟨0⟩ 64)], methods := [] }

end Run

end ArrayInference
