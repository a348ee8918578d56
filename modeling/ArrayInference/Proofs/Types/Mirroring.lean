import ArrayInference.Proofs.Types.Interning

/-!
# The operations of a store mirror those of a cache

Every operation looks at families, at whether a type is generic, and at whether two types are the same,
and it makes types by interning descriptors. The first two are in the cell of a type, and two types are
the same if their identities are. So each operation on identities mirrors the one on whole types.
-/

namespace ArrayInference

namespace TypeStore

variable {names : ObjectId → String} {s t : TypeStore} {h k : TypeId}

/-- Identities that point to types, in order. -/
def StandsAll (s : TypeStore) (hs : List TypeId) (types : List Ty) : Prop :=
  (∀ h ∈ hs, s.Holds h) ∧ hs.map s.read = types

/-- Attributes with types as whole types. -/
def readAttributes (s : TypeStore) (attributes : List (String × TypeId)) : List (String × Ty) :=
  attributes.map fun (name, a) => (name, s.read a)

/-- Named identities that point to the types of attributes, in order. -/
def StandsNamed (s : TypeStore) (hs : List (String × TypeId)) (attributes : List (String × Ty)) : Prop :=
  (∀ a ∈ hs, s.Holds a.2) ∧ s.readAttributes hs = attributes

theorem Later.standsAll {hs : List TypeId} {types : List Ty} (up : s.Later t)
    (sound : s.Sound names) (sound' : t.Sound names) (h : s.StandsAll hs types) :
    t.StandsAll hs types :=
  ⟨fun a ha => up.holds (h.1 a ha),
    (List.map_congr_left fun a ha => up.read sound sound' (h.1 a ha)).trans h.2⟩

theorem Later.standsNamed {hs : List (String × TypeId)} {attributes : List (String × Ty)}
    (up : s.Later t) (sound : s.Sound names) (sound' : t.Sound names)
    (h : s.StandsNamed hs attributes) : t.StandsNamed hs attributes :=
  ⟨fun a ha => up.holds (h.1 a ha),
    (List.map_congr_left fun a ha =>
      congrArg (Prod.mk a.1) (up.read sound sound' (h.1 a ha))).trans h.2⟩

theorem Later.entries (up : s.Later t) (sound : s.Sound names) (sound' : t.Sound names) {type : Ty}
    (known : type ∈ s.cache.entries) : type ∈ t.cache.entries := by
  obtain ⟨h, held, rfl⟩ := mem_entries.mp known
  exact mem_entries.mpr ⟨h, up.holds held, up.read sound sound' held⟩

theorem Sound.isGeneric_eq (sound : s.Sound names) (held : s.Holds h) :
    s.isGeneric h = (s.read h).isGeneric := by
  obtain ⟨cell, found⟩ := held.exists_cell
  rw [isGeneric, found, sound.read_eq found, describes]
  rcases sound.generics found with ⟨family, rfl⟩ | ⟨g, hg, other, -⟩
  · rfl
  · have : (cell.descriptor.toTy s.home s.read s.readTag).isGeneric = false := by
      rw [← Bool.not_eq_true, Descriptor.isGeneric_toTy]
      rintro ⟨family, same⟩
      exact other family same
    rw [this]
    simp [hg]

theorem Sound.family_eq (sound : s.Sound names) (held : s.Holds h) :
    s.family h = (s.read h).family := by
  obtain ⟨cell, found⟩ := held.exists_cell
  rw [family, found, sound.read_eq found, describes, Descriptor.family_toTy]
  rfl

theorem Sound.eq_iff (sound : s.Sound names) (held : s.Holds h) (held' : s.Holds k) :
    h = k ↔ s.read h = s.read k :=
  ⟨fun same => same ▸ rfl, sound.read_injective held held'⟩

theorem Sound.isSubtype_eq (sound : s.Sound names) (held : s.Holds h) (held' : s.Holds k) :
    s.isSubtype h k = (s.read h).isSubtype (s.read k) := by
  rw [isSubtype, Ty.isSubtype, sound.isGeneric_eq held', sound.family_eq held, sound.family_eq held']
  congr 1
  exact decide_eq_decide.mpr (sound.eq_iff held held')

theorem Sound.fitsFields_eq (sound : s.Sound names) {actual fields : List (String × TypeId)}
    (held : ∀ a ∈ actual, s.Holds a.2) (held' : ∀ a ∈ fields, s.Holds a.2) :
    Storing.fitsFields s actual fields
      = Interning.fitsFields (s.readAttributes actual) (s.readAttributes fields) := by
  rw [Storing.fitsFields, Interning.fitsFields, readAttributes, readAttributes, List.zip_map,
    List.all_map, Bool.eq_iff_iff, List.all_eq_true, List.all_eq_true]
  refine forall₂_congr fun pair hpair => ?_
  obtain ⟨left, right⟩ := List.of_mem_zip hpair
  show s.isSubtype pair.1.2 pair.2.2 = true
    ↔ (s.read pair.1.2).isSubtype (s.read pair.2.2) = true
  rw [sound.isSubtype_eq (held _ left) (held' _ right)]

end TypeStore

/-- Parameters that were made. -/
def Parameters.Fits (s : TypeStore) : Parameters → Prop
  | .bits _ | .host _ => True
  | .elements types => ∀ h ∈ types, s.Holds h
  | .element type => s.Holds type
  | .record tag attributes _ => s.HoldsTag tag ∧ ∀ a ∈ attributes, s.Holds a.2
  | .signature params result => (∀ h ∈ params, s.Holds h) ∧ s.Holds result

/-- A record class that has its name, and whose fields have types that were made. -/
def RecordClass.Known (names : ObjectId → String) (s : TypeStore) (c : RecordClass) : Prop :=
  c.name = names c.id ∧ ∀ field ∈ c.fields, field.2 ∈ s.cache.entries

mutual

/-- Every record class in a constant whose type depends on it has a property. -/
def Constant.Classes (P : RecordClass → Prop) : Constant → Prop
  | .tuple items | .list items => Constant.AllClasses P items
  | .record c values => P c ∧ Constant.AllClasses P values
  | .recordType c => P c
  | _ => True

/-- The same for the constants of a list. -/
def Constant.AllClasses (P : RecordClass → Prop) : List Constant → Prop
  | [] => True
  | c :: cs => c.Classes P ∧ Constant.AllClasses P cs

end

namespace Storing

open TypeStore

variable {names : ObjectId → String} {s t : TypeStore} {α β γ δ : Type}
  {R : TypeStore → α → β → Prop} {S : TypeStore → γ → δ → Prop}

/-- Both fail in the same way, or both give something. -/
def Same (R : TypeStore → α → β → Prop) (t : TypeStore) :
    Except TypeError α → Except TypeError β → Prop
  | .ok a, .ok b => R t a b
  | .error e, .error e' => e = e'
  | _, _ => False

theorem mirrors_return (sound : s.Sound names) {a : α} {b : β} (related : R s a b) :
    Mirrors names s (pure a : ExceptT TypeError Storing α).run
      (pure b : ExceptT TypeError Interning β).run (Same R) :=
  mirrors_pure sound related

theorem mirrors_throw (sound : s.Sound names) {e e' : TypeError} (same : e = e') :
    Mirrors names s (throw e : ExceptT TypeError Storing α).run
      (throw e' : ExceptT TypeError Interning β).run (Same R) :=
  mirrors_pure sound same

theorem Mirrors.lift {m : Storing α} {m' : Interning β} (h : Mirrors names s m m' R) :
    Mirrors names s (ExceptT.lift m : ExceptT TypeError Storing α).run
      (ExceptT.lift m' : ExceptT TypeError Interning β).run (Same R) := by
  rw [ExceptT.run_lift, ExceptT.run_lift]
  exact h.bind fun t a b sound _ related => mirrors_return sound related

theorem Mirrors.tryBind {m : ExceptT TypeError Storing α} {m' : ExceptT TypeError Interning β}
    {f : α → ExceptT TypeError Storing γ} {f' : β → ExceptT TypeError Interning δ}
    (h : Mirrors names s m.run m'.run (Same R))
    (next : ∀ t a b, t.Sound names → s.Later t → R t a b →
      Mirrors names t (f a).run (f' b).run (Same S)) :
    Mirrors names s (m >>= f).run (m' >>= f').run (Same S) := by
  rw [ExceptT.run_bind, ExceptT.run_bind]
  refine h.bind fun t r r' sound up related => ?_
  cases r <;> cases r'
  case error.error e e' => exact mirrors_pure sound related
  case ok.ok a b => exact next t a b sound up related
  all_goals exact related.elim

theorem Mirrors.tryCatch {m : ExceptT TypeError Storing α} {m' : ExceptT TypeError Interning β}
    {f : TypeError → ExceptT TypeError Storing α} {f' : TypeError → ExceptT TypeError Interning β}
    (h : Mirrors names s m.run m'.run (Same R))
    (next : ∀ t e, t.Sound names → Mirrors names t (f e).run (f' e).run (Same R)) :
    Mirrors names s (tryCatch m f).run (tryCatch m' f').run (Same R) := by
  rw [ExceptT.run_tryCatch, ExceptT.run_tryCatch]
  refine h.bind fun t r r' sound _ related => ?_
  cases r <;> cases r'
  case error.error e e' =>
    obtain rfl : e = e' := related
    exact next t e sound
  case ok.ok a b => exact mirrors_pure (R := Same R) sound related
  all_goals exact related.elim

theorem mirrors_throwBind (sound : s.Sound names) {e e' : TypeError} (same : e = e')
    {f : α → ExceptT TypeError Storing γ} {f' : β → ExceptT TypeError Interning δ} :
    Mirrors names s (throw e >>= f).run (throw e' >>= f').run (Same S) :=
  mirrors_pure sound same

/-- What only looks at the store has no counterpart. -/
theorem mirrors_tryGet {f : TypeStore → ExceptT TypeError Storing γ}
    {m' : ExceptT TypeError Interning δ} (h : Mirrors names s (f s).run m'.run (Same S)) :
    Mirrors names s ((get : ExceptT TypeError Storing TypeStore) >>= f).run m'.run (Same S) :=
  h

theorem mirrors_tryFields {c : RecordClass}
    {f : List (String × TypeId) → ExceptT TypeError Storing γ} {m' : ExceptT TypeError Interning δ}
    (h : Mirrors names s (f (c.fields.map fun (name, t) => (name, s.locate t))).run m'.run (Same S)) :
    Mirrors names s ((liftM (fieldsOf c) : ExceptT TypeError Storing _) >>= f).run m'.run (Same S) :=
  h

/-! ## Instances -/

theorem mirrors_tuple (sound : s.Sound names) {hs : List TypeId} {types : List Ty}
    (stands : s.StandsAll hs types) :
    Mirrors names s (intern (.tuple hs)) (Interning.tuple types) Stands :=
  mirrors_intern sound (d := .tuple hs) ⟨stands.1, by simp [Descriptor.tag?]⟩ (stands.2 ▸ rfl)

theorem mirrors_list (sound : s.Sound names) {h : TypeId} {type : Ty} (stands : s.Stands h type) :
    Mirrors names s (intern (.list h)) (Interning.list type) Stands :=
  mirrors_intern sound ⟨by simpa [Descriptor.children] using stands.1, by simp [Descriptor.tag?]⟩
    (stands.2 ▸ rfl)

theorem mirrors_array (sound : s.Sound names) {h : TypeId} {type : Ty} (stands : s.Stands h type) :
    Mirrors names s (intern (.array h)) (Interning.array type) Stands :=
  mirrors_intern sound ⟨by simpa [Descriptor.children] using stands.1, by simp [Descriptor.tag?]⟩
    (stands.2 ▸ rfl)

theorem mirrors_function (sound : s.Sound names) {hs : List TypeId} {h : TypeId} {types : List Ty}
    {type : Ty} (stands : s.StandsAll hs types) (stands' : s.Stands h type) :
    Mirrors names s (intern (.function hs h)) (Interning.function types type) Stands :=
  mirrors_intern sound (d := .function hs h)
    ⟨List.forall_mem_cons.mpr ⟨stands'.1, stands.1⟩, by simp [Descriptor.tag?]⟩
    (stands.2 ▸ stands'.2 ▸ rfl)

theorem mirrors_external (sound : s.Sound names) (host : String) :
    Mirrors names s (intern (.external host)) (Interning.external host) Stands :=
  mirrors_intern sound ⟨by simp [Descriptor.children], by simp [Descriptor.tag?]⟩ rfl

theorem mirrors_record (sound : s.Sound names) {t : TagId} {tag : ClassTag}
    (stands : s.StandsTag t tag) {hs : List (String × TypeId)} {attributes : List (String × Ty)}
    (stands' : s.StandsNamed hs attributes) (methods : List (String × GraphId)) :
    Mirrors names s (intern (.record t hs methods)) (Interning.record tag attributes methods)
      Stands := by
  refine mirrors_intern sound ⟨?_, ?_⟩ (stands.2 ▸ stands'.2 ▸ rfl)
  · intro c hc
    obtain ⟨a, ha, rfl⟩ := List.mem_map.mp hc
    exact stands'.1 a ha
  · rintro _ ⟨⟩
    exact stands.1

/-- The descriptor that is interned, unless there is none. -/
def internOr (d : Except TypeError Descriptor) : ExceptT TypeError Storing TypeId :=
  match d with
  | .ok d => liftM (intern d)
  | .error e => throw e

theorem mirrors_checked (sound : s.Sound names) (legal : List Nat) (family : Family) (width : Nat)
    {d : Descriptor} {make : CacheId → Ty} (fits : s.Fits d) (makes : make s.home = s.describes d) :
    Mirrors names s (internOr (Parameters.checked legal family width d)).run
      (Interning.checkedWidth legal family width make).run (Same Stands) := by
  rw [Parameters.checked, Interning.checkedWidth]
  by_cases isLegal : width ∈ legal
  · rw [if_pos isLegal, if_pos isLegal]
    exact (mirrors_intern sound fits makes).lift
  · rw [if_neg isLegal, if_neg isLegal]
    exact mirrors_throw sound rfl

theorem mirrors_instantiate (sound : s.Sound names) {g : TypeId} (held : s.Holds g)
    (params : Parameters) (fits : params.Fits s) :
    Mirrors names s (instantiate g params).run
      (Interning.instantiate (s.read g) (params.read s)).run (Same Stands) := by
  have looked : (instantiate g params).run.run s
      = (if !s.isGeneric g then
          (throw (.construction ((s.read g).text ++ " is already specialized"))
            : ExceptT TypeError Storing TypeId)
        else internOr (params.descriptor s (s.family g))).run.run s := by
    rw [instantiate]
    show (if !s.isGeneric g then (throw _ : ExceptT TypeError Storing TypeId) else
      match params.descriptor s (s.family g) with
      | .ok d => liftM (intern d)
      | .error e => throw e).run.run s = _
    rfl
  have childless : ∀ d : Descriptor, d.children = [] → d.tag? = none → s.Fits d :=
    fun d children tag => ⟨by simp [children], by simp [tag]⟩
  rw [Mirrors, looked, ← Mirrors, Interning.instantiate.eq_def, sound.isGeneric_eq held,
    sound.family_eq held]
  by_cases isGeneric : (!(s.read g).isGeneric) = true
  · rw [if_pos isGeneric, if_pos isGeneric]
    exact mirrors_throw sound rfl
  rw [if_neg isGeneric, if_neg isGeneric]
  cases params with
  | bits width =>
    cases (s.read g).family
    case int => exact mirrors_checked sound _ _ _ (childless _ rfl rfl) rfl
    case uint => exact mirrors_checked sound _ _ _ (childless _ rfl rfl) rfl
    case float => exact mirrors_checked sound _ _ _ (childless _ rfl rfl) rfl
    all_goals exact mirrors_throw sound rfl
  | elements types =>
    cases (s.read g).family
    case tuple => exact (mirrors_tuple sound ⟨fits, rfl⟩).lift
    all_goals exact mirrors_throw sound rfl
  | element type =>
    cases (s.read g).family
    case list => exact (mirrors_list sound ⟨fits, rfl⟩).lift
    case array => exact (mirrors_array sound ⟨fits, rfl⟩).lift
    all_goals exact mirrors_throw sound rfl
  | record tag attributes methods =>
    cases (s.read g).family
    case record => exact (mirrors_record sound ⟨fits.1, rfl⟩ ⟨fits.2, rfl⟩ methods).lift
    all_goals exact mirrors_throw sound rfl
  | signature params result =>
    cases (s.read g).family
    case function => exact (mirrors_function sound ⟨fits.1, rfl⟩ ⟨fits.2, rfl⟩).lift
    all_goals exact mirrors_throw sound rfl
  | host name =>
    cases (s.read g).family
    case external => exact (mirrors_external sound name).lift
    all_goals exact mirrors_throw sound rfl

/-! ## Types of constants -/

theorem mirrors_number (sound : s.Sound names) (family : Family) (width : Nat) :
    Mirrors names s (number family width).run
      (do Interning.instantiate (← liftM (Interning.generic family)) (.bits width)
        : ExceptT TypeError Interning Ty).run (Same Stands) :=
  (mirrors_generic sound family).lift.tryBind fun t g type sound _ stands => by
    obtain ⟨held, rfl⟩ := stands
    exact mirrors_instantiate sound held (.bits width) trivial

theorem mirrors_numberType (sound : s.Sound names) (family : Family) (width : Nat) :
    Mirrors names s (numberType family width).run (Interning.numberType family width).run
      (Same Stands) := by
  cases family
  case uint => exact mirrors_number sound .uint width
  case int => exact mirrors_number sound .int width
  all_goals exact mirrors_number sound .float width

theorem mirrors_ofDtype (sound : s.Sound names) (name : String) :
    Mirrors names s (ofDtype name).run (Interning.ofDtype name).run (Same Stands) := by
  rw [ofDtype, Interning.ofDtype]
  by_cases isBool : name = "bool"
  · rw [if_pos isBool, if_pos isBool]
    exact (mirrors_generic sound .bool).lift
  rw [if_neg isBool, if_neg isBool]
  cases dtypeParts? name with
  | none => exact mirrors_throw sound rfl
  | some parts =>
    obtain ⟨family, rest⟩ := parts
    dsimp only
    cases width? rest with
    | none => exact mirrors_throw sound rfl
    | some width =>
      exact (mirrors_numberType sound family width).tryCatch fun t e sound => mirrors_throw sound rfl

theorem standsNamed_zip {hs : List TypeId} {types : List Ty} (stands : s.StandsAll hs types)
    (fields : List String) : s.StandsNamed (fields.zip hs) (fields.zip types) := by
  refine ⟨fun a ha => stands.1 _ (List.of_mem_zip ha).2, ?_⟩
  rw [← stands.2, List.zip_map_right]
  rfl

/-- The declared fields if the values fit them, and the fields of the values otherwise. -/
theorem standsNamed_attributes (sound : s.Sound names) {actual fields : List (String × TypeId)}
    {actual' fields' : List (String × Ty)} (stands : s.StandsNamed fields fields')
    (stands' : s.StandsNamed actual actual') :
    s.StandsNamed (if fitsFields s actual fields = true then fields else actual)
      (if Interning.fitsFields actual' fields' = true then fields' else actual') := by
  rw [sound.fitsFields_eq stands'.1 stands.1, stands.2, stands'.2]
  split
  · exact stands
  · exact stands'

/-- The declared fields of a class are found by their types. -/
theorem standsNamed_fields {c : RecordClass} (known : c.Known names s) :
    s.StandsNamed (c.fields.map fun (name, t) => (name, s.locate t)) c.fields := by
  constructor
  · intro a ha
    obtain ⟨field, hfield, rfl⟩ := List.mem_map.mp ha
    exact (locate_read (known.2 field hfield)).1
  · rw [readAttributes, List.map_map]
    refine (List.map_congr_left fun field hfield => ?_).trans (List.map_id _)
    exact congrArg (Prod.mk field.1) (locate_read (known.2 field hfield)).2

theorem mirrors_fieldsOf (sound : s.Sound names) {c : RecordClass} (known : c.Known names s) :
    Mirrors names s (fieldsOf c) (pure c.fields) StandsNamed :=
  mirrors_pure sound (standsNamed_fields known)

theorem mirrors_declaredType (sound : s.Sound names) {c : RecordClass} (known : c.Known names s) :
    Mirrors names s (declaredType c) (Interning.declaredType c) Stands := by
  have named := known.1
  refine (mirrors_fieldsOf sound known).bind (g := fun fields => do
    Interning.record (← Interning.declaredTag c.name c.id) fields c.methods)
    fun t hs fields sound _ stands => ?_
  refine (mirrors_classTag sound named).bind fun u tag tag' sound' up stands' => ?_
  exact mirrors_record sound' stands' (up.standsNamed sound sound' stands) c.methods

section

variable {before : TypeStore}

theorem known_mono {c : RecordClass} (known : c.Known names before) (sound : before.Sound names)
    (up : before.Later s) (sound' : s.Sound names) : c.Known names s :=
  ⟨known.1, fun field hfield => up.entries sound sound' (known.2 field hfield)⟩

/-- The type of a record, if its values mirror their types. -/
theorem mirrors_ofRecord (sound : s.Sound names) {c : RecordClass} (known : c.Known names s)
    {values : List Constant}
    (items : Mirrors names s (typesOfConstants values).run (Interning.typesOfConstants values).run
      (Same StandsAll)) :
    Mirrors names s (typeOfConstant (.record c values)).run
      (Interning.typeOfConstant (.record c values)).run (Same Stands) := by
  rw [typeOfConstant, Interning.typeOfConstant]
  by_cases mismatch : values.length ≠ c.fields.length
  · rw [if_pos mismatch, if_pos mismatch]
    exact mirrors_throwBind sound rfl
  rw [if_neg mismatch, if_neg mismatch]
  refine items.tryBind fun t hs types sound' up stands => ?_
  have known := known_mono known sound up sound'
  have attributes := standsNamed_attributes sound' (standsNamed_fields known)
    (standsNamed_zip stands (c.fields.map (·.1)))
  refine mirrors_tryFields (mirrors_tryGet ?_)
  refine (mirrors_classTag sound' known.1).lift.tryBind fun u tag tag' sound'' up' stands' => ?_
  exact (mirrors_record sound'' stands' (up'.standsNamed sound' sound'' attributes) c.methods).lift

/-- A further element of a list: its type is compared by identity. -/
theorem mirrors_requireElement (sound : s.Sound names) {element h : TypeId} {type other : Ty}
    (stands : s.Stands element type) (stands' : s.Stands h other) {cs : List Constant}
    (rest : Mirrors names s (requireElements element cs).run
      (Interning.requireElements type cs).run (Same fun _ _ _ => True)) :
    Mirrors names s
      (if h ≠ element then do
          let s ← get
          throw (.structuralMismatch
            ("list elements must share one type, found " ++ (s.read element).text ++ " and "
              ++ (s.read h).text))
          requireElements element cs
        else requireElements element cs : ExceptT TypeError Storing Unit).run
      (if other ≠ type then do
          throw (.structuralMismatch
            ("list elements must share one type, found " ++ type.text ++ " and " ++ other.text))
          Interning.requireElements type cs
        else Interning.requireElements type cs : ExceptT TypeError Interning Unit).run
      (Same fun _ _ _ => True) := by
  have same : h ≠ element ↔ other ≠ type := by
    rw [← stands.2, ← stands'.2, ne_eq, ne_eq, sound.eq_iff stands'.1 stands.1]
  by_cases differs : h ≠ element
  · rw [if_pos differs, if_pos (same.mp differs)]
    refine mirrors_tryGet (mirrors_throwBind sound ?_)
    rw [stands.2, stands'.2]
  · rw [if_neg differs, if_neg (same.not.mp differs)]
    exact rest

mutual

/-- The type of a constant whose classes were known before. -/
theorem mirrors_typeOfConstant (was : before.Sound names) :
    ∀ (c : Constant), c.Classes (RecordClass.Known names before) → ∀ {s : TypeStore},
      s.Sound names → before.Later s →
      Mirrors names s (typeOfConstant c).run (Interning.typeOfConstant c).run (Same Stands)
  | .bool _, _, _, sound, _ => by
    rw [typeOfConstant, Interning.typeOfConstant]
    exact (mirrors_generic sound .bool).lift
  | .int _, _, _, sound, _ => by
    rw [typeOfConstant, Interning.typeOfConstant]
    exact mirrors_number sound .int 64
  | .float _, _, _, sound, _ => by
    rw [typeOfConstant, Interning.typeOfConstant]
    exact mirrors_number sound .float 64
  | .str _, _, _, sound, _ => by
    rw [typeOfConstant, Interning.typeOfConstant]
    exact (mirrors_external sound "str").lift
  | .tuple items, classes, _, sound, up => by
    rw [typeOfConstant, Interning.typeOfConstant]
    exact (mirrors_typesOfConstants was items classes sound up).tryBind
      fun t hs types sound _ stands => (mirrors_tuple sound stands).lift
  | .list [], _, _, sound, _ => by
    rw [typeOfConstant, Interning.typeOfConstant]
    exact (mirrors_generic sound .object).lift.tryBind
      fun t h type sound _ stands => (mirrors_list sound stands).lift
  | .list (first :: rest), classes, _, sound, up => by
    rw [typeOfConstant, Interning.typeOfConstant]
    refine (mirrors_typeOfConstant was first classes.1 sound up).tryBind
      fun t h type sound up' stands => ?_
    refine (mirrors_requireElements was rest classes.2 sound (up.trans up') stands).tryBind
      fun u _ _ sound' up'' _ => ?_
    exact (mirrors_list sound' (up''.stands sound sound' stands)).lift
  | .array value, _, _, sound, _ => by
    rw [typeOfConstant, Interning.typeOfConstant]
    exact (mirrors_ofDtype sound value.dtype).tryBind
      fun t h type sound _ stands => (mirrors_array sound stands).lift
  | .record c values, classes, s, sound, up => by
    exact mirrors_ofRecord sound (known_mono classes.1 was up sound)
      (mirrors_typesOfConstants was values classes.2 sound up)
  | .recordType c, classes, s, sound, up => by
    rw [typeOfConstant, Interning.typeOfConstant]
    exact (mirrors_declaredType sound (known_mono classes was up sound)).lift
  | .type _, _, _, sound, _ => by
    rw [typeOfConstant, Interning.typeOfConstant]
    exact (mirrors_generic sound .type).lift
  | .primitive _, _, _, sound, _ => by
    rw [typeOfConstant, Interning.typeOfConstant]
    exact (mirrors_generic sound .function).lift
  | .graph _, _, _, sound, _ => by
    rw [typeOfConstant, Interning.typeOfConstant]
    exact (mirrors_generic sound .function).lift
  | .metaGraph _, _, _, sound, _ => by
    rw [typeOfConstant, Interning.typeOfConstant]
    exact (mirrors_generic sound .function).lift
  | .symbols .., _, _, sound, _ => by
    rw [typeOfConstant, Interning.typeOfConstant]
    exact (mirrors_external sound "namespace").lift
  | .host _ typeName _, _, _, sound, _ => by
    rw [typeOfConstant, Interning.typeOfConstant]
    exact (mirrors_external sound typeName).lift

theorem mirrors_typesOfConstants (was : before.Sound names) :
    ∀ (cs : List Constant), Constant.AllClasses (RecordClass.Known names before) cs →
      ∀ {s : TypeStore}, s.Sound names → before.Later s →
      Mirrors names s (typesOfConstants cs).run (Interning.typesOfConstants cs).run (Same StandsAll)
  | [], _, _, sound, _ => by
    rw [typesOfConstants, Interning.typesOfConstants]
    exact mirrors_return sound ⟨by simp, rfl⟩
  | c :: cs, classes, _, sound, up => by
    rw [typesOfConstants, Interning.typesOfConstants]
    refine (mirrors_typeOfConstant was c classes.1 sound up).tryBind
      fun t h type sound up' stands => ?_
    refine (mirrors_typesOfConstants was cs classes.2 sound (up.trans up')).tryBind
      fun u hs types sound' up'' stands' => ?_
    have stands := up''.stands sound sound' stands
    refine mirrors_return sound' ⟨List.forall_mem_cons.mpr ⟨stands.1, stands'.1⟩, ?_⟩
    rw [List.map_cons, stands.2, stands'.2]

theorem mirrors_requireElements (was : before.Sound names) :
    ∀ (cs : List Constant), Constant.AllClasses (RecordClass.Known names before) cs →
      ∀ {s : TypeStore} {element : TypeId} {type : Ty}, s.Sound names → before.Later s →
      s.Stands element type →
      Mirrors names s (requireElements element cs).run (Interning.requireElements type cs).run
        (Same fun _ _ _ => True)
  | [], _, _, _, _, sound, _, _ => by
    rw [requireElements, Interning.requireElements]
    exact mirrors_return sound trivial
  | c :: cs, classes, _, element, type, sound, up, stands => by
    rw [requireElements, Interning.requireElements]
    refine (mirrors_typeOfConstant was c classes.1 sound up).tryBind
      fun t h other sound' up' stands' => ?_
    have stands := up'.stands sound sound' stands
    exact mirrors_requireElement sound' stands stands'
      (mirrors_requireElements was cs classes.2 sound' (up.trans up') stands)

end

end

end Storing

end ArrayInference
