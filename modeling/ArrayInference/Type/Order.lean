import ArrayInference.Type.Equality

/-!
# The order of types

A type is below itself and below the generic types of its family and of the families above it. An
instance is above nothing but itself. Among the types that one cache makes this is a partial order.
-/

namespace ArrayInference

namespace Family

variable {f g h : Family}

theorem descendsFrom_iff : f.descendsFrom g = true ↔ g ∈ f.ancestors :=
  List.contains_iff_mem

theorem descendsFrom_self (f : Family) : f.descendsFrom f = true := by
  cases f <;> rfl

theorem descendsFrom_object (f : Family) : f.descendsFrom object = true := by
  cases f <;> rfl

theorem descendsFrom_trans (hfg : f.descendsFrom g = true) (hgh : g.descendsFrom h = true) :
    f.descendsFrom h = true := by
  have closed : ∀ g ∈ f.ancestors, ∀ h ∈ g.ancestors, h ∈ f.ancestors := by
    cases f <;> decide
  rw [descendsFrom_iff] at hfg hgh ⊢
  exact closed g hfg h hgh

theorem descendsFrom_antisymm (hfg : f.descendsFrom g = true) (hgf : g.descendsFrom f = true) :
    f = g := by
  have acyclic : ∀ g ∈ f.ancestors, f ∈ g.ancestors → f = g := by
    cases f <;> decide
  rw [descendsFrom_iff] at hfg hgf
  exact acyclic g hfg hgf

end Family

namespace Ty

/-- Whether a type is another one or below it. A generic type is above a type of any cache. -/
def isSubtype (s t : Ty) : Bool :=
  s = t || (t.isGeneric && s.family.descendsFrom t.family)

/-- `isSubtype`, restricted to generic or to instantiated types when `wanted` says so. -/
def isDescendant (s t : Ty) (wanted : Option Bool) : Bool :=
  match wanted with
  | some form => s.isGeneric = form && s.isSubtype t
  | none => s.isSubtype t

/-- The generic type that two types of one family share. -/
def sharedGeneric? (s t : Ty) : Option Ty :=
  if s.family = t.family then some s.toGeneric else none

variable {r s t : Ty}

theorem isSubtype_iff :
    s.isSubtype t = true ↔ s = t ∨ t.isGeneric = true ∧ s.family.descendsFrom t.family = true := by
  simp [isSubtype]

theorem isSubtype_self (t : Ty) : t.isSubtype t = true :=
  isSubtype_iff.mpr (.inl rfl)

/-- Types below a type are of its family or of one below that. -/
theorem descendsFrom_of_isSubtype (h : s.isSubtype t = true) :
    s.family.descendsFrom t.family = true := by
  rcases isSubtype_iff.mp h with rfl | ⟨_, below⟩
  · exact s.family.descendsFrom_self
  · exact below

/-- An instance is above nothing but itself. -/
theorem eq_of_isSubtype (h : s.isSubtype t = true) (instantiated : t.isGeneric = false) : s = t := by
  rcases isSubtype_iff.mp h with same | ⟨generic, _⟩
  · exact same
  · rw [instantiated] at generic
    contradiction

theorem isSubtype_trans (h : r.isSubtype s = true) (h' : s.isSubtype t = true) :
    r.isSubtype t = true := by
  rcases isSubtype_iff.mp h' with rfl | ⟨generic, below⟩
  · exact h
  · exact isSubtype_iff.mpr
      (.inr ⟨generic, Family.descendsFrom_trans (descendsFrom_of_isSubtype h) below⟩)

theorem eq_toGeneric (h : t.isGeneric = true) : t = t.toGeneric := by
  cases t with
  | generic home family => rfl
  | _ => contradiction

/-- Generic types of one family are the same if they come from one cache. -/
theorem isSubtype_antisymm (home : s.home = t.home) (h : s.isSubtype t = true)
    (h' : t.isSubtype s = true) : s = t := by
  cases isGeneric : t.isGeneric with
  | false => exact eq_of_isSubtype h isGeneric
  | true =>
    cases isGeneric' : s.isGeneric with
    | false => exact (eq_of_isSubtype h' isGeneric').symm
    | true =>
      have family := Family.descendsFrom_antisymm (descendsFrom_of_isSubtype h)
        (descendsFrom_of_isSubtype h')
      rw [eq_toGeneric isGeneric, eq_toGeneric isGeneric', toGeneric, toGeneric, home, family]

theorem isSubtype_toGeneric (t : Ty) : t.isSubtype t.toGeneric = true :=
  isSubtype_iff.mpr (.inr ⟨rfl, t.family.descendsFrom_self⟩)

/-- A generic type above a type is above the generic type of its family. -/
theorem toGeneric_isSubtype (h : s.isSubtype t = true) (generic : t.isGeneric = true) :
    s.toGeneric.isSubtype t = true :=
  isSubtype_iff.mpr (.inr ⟨generic, (descendsFrom_of_isSubtype h : _)⟩)

/-- The generic types of two caches are above each other. -/
example : let s := generic ⟨0⟩ .int; let t := generic ⟨1⟩ .int
    s.isSubtype t = true ∧ t.isSubtype s = true ∧ s ≠ t := by
  decide

end Ty

end ArrayInference
