import ArrayInference.Proofs.Types.Canonical

/-!
# The order of the types of one store

Types are compared by identity, and only generic types are above others. A store has one generic type for
each family. So among the types of one store being a subtype is a partial order with `Object` on top,
whatever the store was asked for and in whatever order, and the least generic type above two types of one
family is that of the family. Main statement: `TypeStore.Serves.ordered`.
-/

namespace ArrayInference

namespace TypeStore

variable {names : ObjectId → String} {s t : TypeStore} {h k l g : TypeId}

/-- The generic type that two types of one family share. -/
def sharedGeneric? (s : TypeStore) (h k : TypeId) : Option TypeId :=
  if s.family h = s.family k then some (s.genericOf h) else none

/-! ## Reading what is compared -/

theorem Sound.home_read (sound : s.Sound names) (held : s.Holds h) : (s.read h).home = s.home := by
  obtain ⟨cell, found⟩ := held.exists_cell
  rw [sound.read_eq found, describes, Descriptor.home_toTy]

theorem Sound.holds_genericOf (sound : s.Sound names) (held : s.Holds h) :
    s.Holds (s.genericOf h) :=
  holds_of_cell (sound.genericOf held)

theorem Sound.read_genericOf (sound : s.Sound names) (held : s.Holds h) :
    s.read (s.genericOf h) = (s.read h).toGeneric := by
  rw [sound.read_generic (sound.genericOf held), Ty.toGeneric, sound.home_read held,
    sound.family_eq held]

theorem Sound.sharedGeneric?_read (sound : s.Sound names) (held : s.Holds h) (held' : s.Holds k) :
    (s.sharedGeneric? h k).map s.read = (s.read h).sharedGeneric? (s.read k) := by
  rw [sharedGeneric?, Ty.sharedGeneric?, sound.family_eq held, sound.family_eq held']
  by_cases same : (s.read h).family = (s.read k).family
  · rw [if_pos same, if_pos same, Option.map_some, sound.read_genericOf held]
  · rw [if_neg same, if_neg same, Option.map_none]

/-! ## The laws of the order -/

theorem Sound.isSubtype_trans (sound : s.Sound names) (hh : s.Holds h) (hk : s.Holds k)
    (hl : s.Holds l) (below : s.isSubtype h k = true) (below' : s.isSubtype k l = true) :
    s.isSubtype h l = true := by
  rw [sound.isSubtype_eq hh hk] at below
  rw [sound.isSubtype_eq hk hl] at below'
  rw [sound.isSubtype_eq hh hl]
  exact Ty.isSubtype_trans below below'

theorem Sound.isSubtype_antisymm (sound : s.Sound names) (hh : s.Holds h) (hk : s.Holds k)
    (below : s.isSubtype h k = true) (below' : s.isSubtype k h = true) : h = k := by
  rw [sound.isSubtype_eq hh hk] at below
  rw [sound.isSubtype_eq hk hh] at below'
  apply sound.read_injective hh hk
  apply Ty.isSubtype_antisymm _ below below'
  rw [sound.home_read hh, sound.home_read hk]

/-- The generic type of a type is above it. -/
theorem Sound.isSubtype_genericOf (sound : s.Sound names) (held : s.Holds h) :
    s.isSubtype h (s.genericOf h) = true := by
  rw [sound.isSubtype_eq held (sound.holds_genericOf held), sound.read_genericOf held]
  exact Ty.isSubtype_toGeneric _

/-- The generic type of a type is below every generic type above it. -/
theorem Sound.genericOf_isSubtype (sound : s.Sound names) (held : s.Holds h) (held' : s.Holds g)
    (generic : s.isGeneric g = true) (below : s.isSubtype h g = true) :
    s.isSubtype (s.genericOf h) g = true := by
  rw [sound.isSubtype_eq held held'] at below
  rw [sound.isGeneric_eq held'] at generic
  rw [sound.isSubtype_eq (sound.holds_genericOf held) held', sound.read_genericOf held]
  exact Ty.toGeneric_isSubtype below generic

/-- Types of one family have one generic type. -/
theorem Sound.genericOf_eq (sound : s.Sound names) (held : s.Holds h) (held' : s.Holds k)
    (same : s.family h = s.family k) : s.genericOf h = s.genericOf k := by
  apply sound.read_injective (sound.holds_genericOf held) (sound.holds_genericOf held')
  rw [sound.read_generic (sound.genericOf held), sound.read_generic (sound.genericOf held'), same]

theorem Sound.isGeneric_genericOf (sound : s.Sound names) (held : s.Holds h) :
    s.isGeneric (s.genericOf h) = true := by
  rw [sound.isGeneric_eq (sound.holds_genericOf held), sound.read_genericOf held]
  rfl

theorem Sound.sharedGeneric?_comm (sound : s.Sound names) (held : s.Holds h) (held' : s.Holds k) :
    s.sharedGeneric? h k = s.sharedGeneric? k h := by
  rw [sharedGeneric?, sharedGeneric?]
  by_cases same : s.family h = s.family k
  · rw [if_pos same, if_pos same.symm, sound.genericOf_eq held held' same]
  · rw [if_neg same, if_neg (Ne.symm same)]

/-- A generic type above two types, and below every other one above both. -/
structure LeastGeneric (s : TypeStore) (h k g : TypeId) : Prop where
  held : s.Holds g
  generic : s.isGeneric g = true
  left : s.isSubtype h g = true
  right : s.isSubtype k g = true
  least : ∀ {other : TypeId}, s.Holds other → s.isGeneric other = true →
    s.isSubtype h other = true → s.isSubtype k other = true → s.isSubtype g other = true

theorem Sound.leastGeneric (sound : s.Sound names) (held : s.Holds h) (held' : s.Holds k)
    (shared : s.sharedGeneric? h k = some g) : s.LeastGeneric h k g := by
  rw [sharedGeneric?] at shared
  split at shared
  · rename_i same
    obtain rfl := Option.some.inj shared
    refine ⟨sound.holds_genericOf held, sound.isGeneric_genericOf held,
      sound.isSubtype_genericOf held, ?_, ?_⟩
    · rw [sound.genericOf_eq held held' same]
      exact sound.isSubtype_genericOf held'
    · intro other held'' generic below _
      exact sound.genericOf_isSubtype held held'' generic below
  · contradiction

/-- The generic type of all types is above everything. -/
theorem Sound.isSubtype_object (sound : s.Sound names) {top : TypeId}
    (asked : (Storing.generic .object).run s = (top, t)) (held : t.Holds h) :
    t.isSubtype h top = true := by
  obtain ⟨u, object, run, -, sound', -, cell, -⟩ := Storing.exists_generic sound .object
  rw [asked] at run
  cases run
  rw [sound'.isSubtype_eq held (holds_of_cell cell), sound'.read_generic cell]
  exact Ty.isSubtype_iff.mpr (.inr ⟨rfl, Family.descendsFrom_object _⟩)

/-- The types of a store are partially ordered. -/
structure Ordered (s : TypeStore) : Prop where
  refl : ∀ {h : TypeId}, s.Holds h → s.isSubtype h h = true
  trans : ∀ {h k l : TypeId}, s.Holds h → s.Holds k → s.Holds l →
    s.isSubtype h k = true → s.isSubtype k l = true → s.isSubtype h l = true
  antisymm : ∀ {h k : TypeId}, s.Holds h → s.Holds k →
    s.isSubtype h k = true → s.isSubtype k h = true → h = k
  /-- `Object` is above everything, whether it was there before or not. -/
  object : ∀ {top : TypeId} {t : TypeStore} {h : TypeId},
    (Storing.generic .object).run s = (top, t) → t.Holds h → t.isSubtype h top = true
  generic : ∀ {h : TypeId}, s.Holds h → s.isSubtype h (s.genericOf h) = true
  /-- An instance is above nothing but itself. -/
  instantiated : ∀ {h k : TypeId}, s.Holds h → s.Holds k → s.isGeneric k = false →
    s.isSubtype h k = true → h = k
  /-- Types share a generic type exactly if they are of one family. -/
  shared : ∀ {h k : TypeId}, s.Holds h → s.Holds k →
    ((s.sharedGeneric? h k).isSome = true ↔ s.family h = s.family k)
  least : ∀ {h k g : TypeId}, s.Holds h → s.Holds k → s.sharedGeneric? h k = some g →
    s.LeastGeneric h k g
  comm : ∀ {h k : TypeId}, s.Holds h → s.Holds k → s.sharedGeneric? h k = s.sharedGeneric? k h
  /-- Comparing identities is comparing whole types. -/
  isSubtype_read : ∀ {h k : TypeId}, s.Holds h → s.Holds k →
    s.isSubtype h k = (s.read h).isSubtype (s.read k)
  sharedGeneric_read : ∀ {h k : TypeId}, s.Holds h → s.Holds k →
    (s.sharedGeneric? h k).map s.read = (s.read h).sharedGeneric? (s.read k)

/-- Whatever a store was asked for, and in whatever order, its types are partially ordered. -/
theorem Serves.ordered {home : CacheId} {log : List (Request × Reply TypeId TagId)}
    (serves : Serves names (.empty home) log s) : Ordered s := by
  have sound := (serves.sound (.empty home)).1
  constructor
  case refl =>
    intro h held
    rw [sound.isSubtype_eq held held]
    exact Ty.isSubtype_self _
  case trans => exact sound.isSubtype_trans
  case antisymm => exact sound.isSubtype_antisymm
  case object => exact sound.isSubtype_object
  case generic => exact sound.isSubtype_genericOf
  case instantiated =>
    intro h k held held' instantiated below
    rw [sound.isGeneric_eq held'] at instantiated
    rw [sound.isSubtype_eq held held'] at below
    exact sound.read_injective held held' (Ty.eq_of_isSubtype below instantiated)
  case shared =>
    intro h k held held'
    rw [sharedGeneric?]
    split <;> simp [*]
  case least => exact sound.leastGeneric
  case comm => exact sound.sharedGeneric?_comm
  case isSubtype_read => exact sound.isSubtype_eq
  case sharedGeneric_read => exact sound.sharedGeneric?_read

/-- Two integer types and a float type. -/
def numberLog : List (Request × Reply TypeId TagId) :=
  [(.int 64, .type (.ok ⟨1⟩)), (.int 32, .type (.ok ⟨2⟩)), (.float 64, .type (.ok ⟨4⟩))]

/-- The integers share a generic type, and share none with the float. -/
theorem Serves.ordered_numbers :
    ∃ s, Serves (fun _ => "") (.empty ⟨0⟩) numberLog s ∧ Ordered s
      ∧ s.sharedGeneric? ⟨1⟩ ⟨2⟩ = some ⟨0⟩ ∧ s.sharedGeneric? ⟨1⟩ ⟨4⟩ = none := by
  have serves : ∃ s, Serves (fun _ => "") (.empty ⟨0⟩) numberLog s
      ∧ s.sharedGeneric? ⟨1⟩ ⟨2⟩ = some ⟨0⟩ ∧ s.sharedGeneric? ⟨1⟩ ⟨4⟩ = none :=
    ⟨_, .ask trivial rfl (.ask trivial rfl (.ask trivial rfl .done)), rfl, rfl⟩
  obtain ⟨s, serves, shared, apart⟩ := serves
  exact ⟨s, serves, serves.ordered, shared, apart⟩

end TypeStore

end ArrayInference
