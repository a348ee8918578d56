import ArrayInference.Proofs.Tracks.Shapes
import ArrayInference.Proofs.Tracks.Types

/-!
# Members of records

A name can be that of a field of a record and that of a method. The type track and the shape track
read the field then, and so does the host; the value track does so as long as the record is unknown,
and reads the method once it is known. In all other cases the tracks read the same member.
-/

namespace ArrayInference

namespace Ledger

variable {w : Ledger} {calls : Calls} {x y : Ref} {track : Track} {p : Property} {name : String}
  {s u : Ty} {c : ClassDesc} {m : GraphId}

/-- What a known constant holds under a name. -/
def Held (w : Ledger) (calls : Calls) (x : Ref) (name : String) (track : Track) (p : Property) :
    Prop :=
  ∃ d found, w.Knows calls x d ∧ d.attribute? name = some found ∧ w.Holds .empty found track p

/-- The property of a field of a record: its declared type; its shape; its value, if the record is
known. -/
inductive Field (w : Ledger) (calls : Calls) (x : Ref) (name : String) (declared : Ty) :
    Track → Property → Prop where
  | type : Field w calls x name declared .type (.type declared)
  | shape {s a : Shape} (record : w.Yields calls (Infer.shapeOf x) s)
      (found : s.attribute? name = some a) : Field w calls x name declared .shape (.shape a)
  | unknown (record : w.Yields calls (Infer.valueOf x) .anything) :
      Field w calls x name declared .value (.value .anything)
  | known {p : Property} (held : w.Held calls x name .value p) :
      Field w calls x name declared .value p

/-- The property of a method of a record: its graph, with the record as the first argument. -/
def Method (w : Ledger) (x : Ref) (m : GraphId) (track : Track) (p : Property) : Prop :=
  ∃ f g, w.engine.callable? f = some (.graph track m .empty)
    ∧ w.engine.callable? g = some (.bound f [x]) ∧ p = .inferrer g

/-- The rule of a track for attributes. -/
def attributeRule : Track → Rule
  | .value => ValueRules.getAttribute
  | .type => TypeRules.getAttribute
  | .shape => ShapeRules.getAttribute

theorem get?_getAttribute (track : Track) :
    (Registries.builtin.get track).get? .getAttribute = some (.exactly 2, attributeRule track) := by
  cases track <;> rfl

/-! ## What the rules share -/

/-- A method comes first where everything is read from a constant. -/
theorem access_iff (once : w.Functional) (typed : w.Yields calls (Infer.typeOf x) s)
    (record : s.class? = some c) (named : w.Knows calls y (.str name)) :
    w.Yields calls (Infer.access .named track x y) p ↔
      (∃ m, c.method? name = some m ∧ w.Method x m track p)
        ∨ (c.method? name = none ∧ w.Held calls x name track p) := by
  have method : Infer.methodOf? s (.str name) = c.method? name := by
    rw [Infer.methodOf?, record]
    rfl
  rw [yields_access]
  constructor
  · rintro ⟨key, hkey, s', hs', h⟩
    cases once.known_unique named hkey
    cases once.typeOf_unique typed hs'
    rw [method] at h
    rcases h with ⟨m, f, g, hm, hf, hg, rfl⟩ | ⟨hm, d, found, knows, has, holds⟩
    · exact .inl ⟨m, hm, f, g, hf, hg, rfl⟩
    · exact .inr ⟨hm, d, found, knows, has, holds⟩
  · intro h
    refine ⟨_, named, s, typed, ?_⟩
    rw [method]
    rcases h with ⟨m, hm, f, g, hf, hg, rfl⟩ | ⟨hm, d, found, knows, has, holds⟩
    · exact .inl ⟨m, f, g, hm, hf, hg, rfl⟩
    · exact .inr ⟨hm, d, found, knows, has, holds⟩

/-- The name is looked for among the fields. -/
theorem recordAttribute_iff (once : w.Functional) (typed : w.Yields calls (Infer.typeOf x) s)
    (record : s.class? = some c) (named : w.Knows calls y (.str name))
    (found : Option (String × Ty)) :
    w.Yields calls (Infer.recordAttribute x y) found
      ↔ found = (c.attribute? name).map fun u => (name, u) := by
  have yields : w.Yields calls (Infer.recordAttribute x y)
      ((c.attribute? name).map fun u => (name, u)) :=
    yields_recordAttribute.mpr ⟨s, typed, .inr ⟨c, name, record, named, rfl⟩⟩
  exact ⟨fun h => once.recordAttribute_unique yields h, fun same => same ▸ yields⟩

section

variable (once : w.Functional) (typed : w.Yields calls (Infer.typeOf x) s)
  (record : s.class? = some c) (named : w.Knows calls y (.str name))

include once typed record named

/-- What is no field is read from a constant on every track. -/
theorem attributeRule_of_none (absent : c.attribute? name = none) :
    w.Yields calls (attributeRule track track [x, y]) p
      ↔ w.Yields calls (Infer.access .named track x y) p := by
  have found := recordAttribute_iff once typed record named none
  rw [absent] at found
  have yields := found.mpr rfl
  cases track <;>
  · simp only [attributeRule, ValueRules.getAttribute, TypeRules.getAttribute,
      ShapeRules.getAttribute, Rule.binary, yields_seq]
    constructor
    · rintro ⟨r, hr, h⟩
      cases once.recordAttribute_unique yields hr
      exact h
    · exact fun h => ⟨none, yields, h⟩

/-- A rule goes on from a field that it has found. -/
theorem yields_of_field {α : Type} (field : c.attribute? name = some u)
    {next : Option (String × Ty) → Infer α} {r : α} :
    w.Yields calls (Infer.recordAttribute x y >>= next) r
      ↔ w.Yields calls (next (some (name, u))) r := by
  have found := recordAttribute_iff once typed record named (some (name, u))
  rw [field] at found
  have yields := found.mpr rfl
  rw [yields_seq]
  constructor
  · rintro ⟨r', hr', h⟩
    cases once.recordAttribute_unique yields hr'
    exact h
  · exact fun h => ⟨_, yields, h⟩

/-- The type of a field is the declared one. -/
theorem yields_field_type (field : c.attribute? name = some u) :
    w.Yields calls (TypeRules.getAttribute track [x, y]) p ↔ p = .type u := by
  show w.Yields calls (Infer.recordAttribute x y >>= _) p ↔ _
  rw [yields_of_field once typed record named field, yields_seq]
  have same : ∀ s', w.Yields calls (Infer.typeOf x) s' →
      (s'.class?.bind fun c => c.attribute? name) = some u := by
    intro s' hs'
    cases once.typeOf_unique typed hs'
    rw [record]
    exact field
  constructor
  · rintro ⟨s', hs', h⟩
    rw [same s' hs'] at h
    exact yields_done.mp h
  · rintro rfl
    exact ⟨s, typed, by rw [same s typed]; exact yields_done.mpr rfl⟩

/-- The shape of a field is a part of the shape of the record. -/
theorem yields_field_shape (field : c.attribute? name = some u) :
    w.Yields calls (ShapeRules.getAttribute track [x, y]) p ↔
      ∃ s a, w.Yields calls (Infer.shapeOf x) s ∧ s.attribute? name = some a ∧ p = .shape a := by
  show w.Yields calls (Infer.recordAttribute x y >>= _) p ↔ _
  rw [yields_of_field once typed record named field, yields_seq]
  constructor
  · rintro ⟨s', hs', h⟩
    split at h
    · rename_i a found
      exact ⟨s', a, hs', found, yields_done.mp h⟩
    · exact h.elim
  · rintro ⟨s', a, shaped, found, rfl⟩
    exact ⟨s', shaped, by rw [found]; exact yields_done.mpr rfl⟩

/-- The value of a field is unknown if that of the record is, or else it is read like a constant. -/
theorem yields_field_value (field : c.attribute? name = some u) :
    w.Yields calls (ValueRules.getAttribute track [x, y]) p ↔
      (w.Yields calls (Infer.valueOf x) .anything ∧ p = .value .anything)
        ∨ ∃ d, w.Knows calls x d ∧ w.Yields calls (Infer.access .named track x y) p := by
  show w.Yields calls (Infer.recordAttribute x y >>= _) p ↔ _
  rw [yields_of_field once typed record named field, yields_seq]
  constructor
  · rintro ⟨v, hv, h⟩
    cases v with
    | anything => exact .inl ⟨hv, yields_done.mp h⟩
    | known d => exact .inr ⟨d, yields_known.mp hv, h⟩
  · rintro (⟨unknown, rfl⟩ | ⟨d, known, h⟩)
    · exact ⟨_, unknown, yields_done.mpr rfl⟩
    · exact ⟨_, yields_known.mpr known, h⟩

/-- A field, unless the value track has a known record. -/
theorem attributeRule_of_field (field : c.attribute? name = some u)
    (plain : track = .value → (∃ d, w.Knows calls x d) → c.method? name = none) :
    w.Yields calls (attributeRule track track [x, y]) p ↔ w.Field calls x name u track p := by
  cases track with
  | type =>
    refine (yields_field_type once typed record named field).trans ⟨?_, ?_⟩
    · rintro rfl
      exact .type
    · rintro ⟨⟩
      rfl
  | shape =>
    refine (yields_field_shape once typed record named field).trans ⟨?_, ?_⟩
    · rintro ⟨s', a, shaped, found, rfl⟩
      exact .shape shaped found
    · rintro ⟨⟩
      rename_i s' a shaped found
      exact ⟨s', a, shaped, found, rfl⟩
  | value =>
    refine (yields_field_value once typed record named field).trans ⟨?_, ?_⟩
    · rintro (⟨unknown, rfl⟩ | ⟨d, known, h⟩)
      · exact .unknown unknown
      · have none := plain rfl ⟨d, known⟩
        rcases (access_iff once typed record named).mp h with ⟨m, hm, -⟩ | ⟨-, held⟩
        · cases none.symm.trans hm
        · exact .known held
    · intro h
      cases h with
      | unknown unknown => exact .inl ⟨unknown, rfl⟩
      | known held =>
        obtain ⟨d, found, known, rest⟩ := held
        exact .inr ⟨d, known, (access_iff once typed record named).mpr
          (.inr ⟨plain rfl ⟨d, known⟩, d, found, known, rest⟩)⟩

/-- A field and a method of one name, on the value track, when the record is known. -/
theorem attributeRule_of_clash (field : c.attribute? name = some u)
    (method : c.method? name = some m) {d : Constant} (known : w.Knows calls x d) :
    w.Yields calls (attributeRule .value .value [x, y]) p ↔ w.Method x m .value p := by
  refine (yields_field_value once typed record named field).trans ⟨?_, fun bound => ?_⟩
  · rintro (⟨unknown, -⟩ | ⟨d, -, h⟩)
    · cases once.valueOf_unique (yields_known.mpr known) unknown
    · rcases (access_iff once typed record named).mp h with ⟨m', hm', bound⟩ | ⟨none, -⟩
      · cases method.symm.trans hm'
        exact bound
      · cases method.symm.trans none
  · exact .inr ⟨d, known,
      (access_iff once typed record named).mpr (.inl ⟨m, method, bound⟩)⟩

/-- A method that has its name for itself. -/
theorem attributeRule_of_method (absent : c.attribute? name = none)
    (method : c.method? name = some m) :
    w.Yields calls (attributeRule track track [x, y]) p ↔ w.Method x m track p := by
  rw [attributeRule_of_none once typed record named absent, access_iff once typed record named]
  constructor
  · rintro (⟨m', hm', bound⟩ | ⟨none, -⟩)
    · cases method.symm.trans hm'
      exact bound
    · cases method.symm.trans none
  · exact fun bound => .inl ⟨m, method, bound⟩

/-- A name of no member. -/
theorem attributeRule_of_neither (absent : c.attribute? name = none)
    (unknown : c.method? name = none) :
    w.Yields calls (attributeRule track track [x, y]) p ↔ w.Held calls x name track p := by
  rw [attributeRule_of_none once typed record named absent, access_iff once typed record named]
  simp [unknown]

end

end Ledger

/-! ## The host -/

namespace Constant

variable {cls : RecordClass} {values : List Constant} {s u : Ty} {c : ClassDesc} {name : String}
  {m : GraphId}

/-- A constant record has the fields and the methods of its class. -/
theorem HasType.class_eq (h : (record cls values).HasType s) (known : s.class? = some c) :
    c.attributes.map (·.1) = cls.fields.map (·.1) ∧ c.methods = cls.methods
      ∧ values.length = cls.fields.length := by
  obtain ⟨home, home', attributes, rfl, length_eq, types, htypes, hattributes⟩ := h.record_eq
  cases known
  refine ⟨?_, rfl, length_eq⟩
  rcases hattributes with rfl | ⟨rfl, -⟩
  · exact List.map_fst_zip (by simp [← htypes.length_eq, length_eq])
  · rfl

/-- What a record holds under a name: its field, or else its method. -/
theorem HasType.attribute?_eq (h : (record cls values).HasType s) (known : s.class? = some c) :
    (∀ u, c.attribute? name = some u → ∃ i v, cls.fieldIndex? name = some i
        ∧ values[i]? = some v ∧ (record cls values).attribute? name = some v)
      ∧ (c.attribute? name = none →
        (record cls values).attribute? name = (c.method? name).map .graph) := by
  obtain ⟨names, methods, length_eq⟩ := h.class_eq known
  refine ⟨fun u declared => ?_, fun absent => ?_⟩
  · have same : c.attributes.map (·.1) <+: cls.fields.map (·.1) := names ▸ List.prefix_refl _
    obtain ⟨i, n, hi, hn⟩ := findIdx?_of_lookup same declared
    have index : cls.fieldIndex? name = some i := hi
    obtain ⟨hlt, -⟩ := List.getElem?_eq_some_iff.mp hn
    have within : i < values.length := by
      rw [length_eq, ← List.length_map (·.1), ← names, List.length_map]
      exact hlt
    refine ⟨i, values[i], index, List.getElem?_eq_getElem within, ?_⟩
    rw [attribute?.eq_def]
    simp only [index]
    exact List.getElem?_eq_getElem within
  · have none : cls.fieldIndex? name = none := by
      refine List.findIdx?_eq_none_iff.mpr fun field hfield => ?_
      have listed : field.1 ∈ c.attributes.map (·.1) := names ▸ List.mem_map_of_mem hfield
      obtain ⟨a, ha, same⟩ := List.mem_map.mp listed
      have other := List.lookup_eq_none_iff.mp absent a ha
      exact decide_eq_false fun heq => by simp [same, heq] at other
    rw [attribute?.eq_def]
    simp only [none]
    rw [ClassDesc.method?, methods]
    rfl

end Constant

/-! ## Which member is read -/

namespace Ledger

variable {w : Ledger} {calls : Calls} {x y : Ref} {name : String} {s : Ty} {c : ClassDesc}

/-- Which member of a record the rules for attributes read, and when they succeed. A field is read
on every track, and so is a method if no field has its name. If both have the name, the tracks
differ in one case: the value track reads the method of a known record, where the other tracks, and
the host on the constant itself, read the field. A name of no member is looked up in the constant,
and a constant of that type holds nothing under it. -/
theorem getAttribute_member (once : w.Functional) (typed : w.Yields calls (Infer.typeOf x) s)
    (record : s.class? = some c) (named : w.Knows calls y (.str name)) :
    (∀ track arity rule p,
      (Registries.builtin.get track).get? .getAttribute = some (arity, rule) →
      (∀ u, c.attribute? name = some u →
          (track = .value → (∃ d, w.Knows calls x d) → c.method? name = none) →
          (w.Yields calls (rule track [x, y]) p ↔ w.Field calls x name u track p))
        ∧ (∀ u m d, c.attribute? name = some u → c.method? name = some m → track = .value →
          w.Knows calls x d → (w.Yields calls (rule track [x, y]) p ↔ w.Method x m track p))
        ∧ (∀ m, c.attribute? name = none → c.method? name = some m →
          (w.Yields calls (rule track [x, y]) p ↔ w.Method x m track p))
        ∧ (c.attribute? name = none → c.method? name = none →
          (w.Yields calls (rule track [x, y]) p ↔ w.Held calls x name track p)))
      ∧ ∀ cls values, (Constant.record cls values).HasType s →
        (∀ u, c.attribute? name = some u → ∃ i v, cls.fieldIndex? name = some i
            ∧ values[i]? = some v ∧ (Constant.record cls values).attribute? name = some v)
          ∧ (c.attribute? name = none →
            (Constant.record cls values).attribute? name = (c.method? name).map .graph) := by
  refine ⟨?_, fun cls values own => own.attribute?_eq record⟩
  intro track arity rule p registered
  rw [get?_getAttribute, Option.some.injEq, Prod.mk.injEq] at registered
  obtain ⟨-, rfl⟩ := registered
  refine ⟨?_, ?_, ?_, ?_⟩
  · exact fun u field plain => attributeRule_of_field once typed record named field plain
  · rintro u m d field method rfl known
    exact attributeRule_of_clash once typed record named field method known
  · exact fun m absent method => attributeRule_of_method once typed record named absent method
  · exact fun absent unknown => attributeRule_of_neither once typed record named absent unknown

/-- A class with a field and a method of the same name. -/
def pointClass : RecordClass where
  id := ⟨0⟩
  name := "Point"
  fields := [("x", .int ⟨0⟩ 64)]
  methods := [("x", ⟨1⟩)]

/-- A point. -/
def point : Constant :=
  .record pointClass [.int 3]

/-- The type of a point. -/
def pointType : Ty :=
  .record ⟨0⟩ { name := "Point", origin := .declared ⟨0⟩ ⟨0⟩ } pointClass.fields pointClass.methods

/-- The point as an argument. -/
def pointArg : Ref :=
  ArgSpec.toRef
    { type := pointType, shape := some (.record [("x", .noShape)]), value := some point }

/-- The name as an argument. -/
def nameArg : Ref :=
  ArgSpec.toRef { type := .external ⟨0⟩ "str", shape := none, value := some (.str "x") }

/-- An engine that has bound the point to the method. -/
def pointLedger : Ledger where
  engine :=
    let (f, e) := (EngineM.graphInferrer .value ⟨1⟩ .empty).run
      (.new .empty (.empty ⟨0⟩) .standard)
    ((EngineM.answer (.bind f [pointArg])).run e).2
  found := fun _ _ => False
  shapes := True

/-- The type and the shape are those of the field, and the host finds the field, but the value is
the method. -/
theorem getAttribute_member_point :
    pointLedger.Yields pointLedger.Gives (TypeRules.getAttribute .type [pointArg, nameArg])
        (.type (.int ⟨0⟩ 64))
      ∧ pointLedger.Yields pointLedger.Gives (ShapeRules.getAttribute .shape [pointArg, nameArg])
        (.shape .noShape)
      ∧ point.attribute? "x" = some (.int 3)
      ∧ (∃ f, pointLedger.Yields pointLedger.Gives
        (ValueRules.getAttribute .value [pointArg, nameArg]) (.inferrer f))
      ∧ ¬ pointLedger.Yields pointLedger.Gives
        (ValueRules.getAttribute .value [pointArg, nameArg]) (.value (.known (.int 3))) := by
  have once : pointLedger.Functional := fun _ _ _ h => h.elim
  have typed : pointLedger.Yields pointLedger.Gives (Infer.typeOf pointArg) pointType :=
    yields_typeOf.mpr ⟨_, yields_done.mpr rfl, yields_ofExcept.mpr rfl⟩
  have named : pointLedger.Knows pointLedger.Gives nameArg (.str "x") := yields_done.mpr rfl
  have known : pointLedger.Knows pointLedger.Gives pointArg point := yields_done.mpr rfl
  have shaped : pointLedger.Yields pointLedger.Gives (Infer.shapeOf pointArg)
      (.record [("x", .noShape)]) :=
    yields_seq.mpr ⟨_, yields_done.mpr rfl, yields_ofExcept.mpr rfl⟩
  have own : point.HasType pointType := ⟨.empty ⟨0⟩, rfl⟩
  obtain ⟨rules, host⟩ := getAttribute_member once typed rfl named
  have value := fun p => (rules .value _ _ p (get?_getAttribute .value)).2.1 _ ⟨1⟩ point rfl rfl rfl
    known
  obtain ⟨i, v, hi, hv, found⟩ := (host _ _ own).1 _ rfl
  refine ⟨?_, ?_, found.trans (by cases hi; exact hv.symm), ?_, ?_⟩
  · exact ((rules .type _ _ _ (get?_getAttribute .type)).1 _ rfl nofun).mpr .type
  · exact ((rules .shape _ _ _ (get?_getAttribute .shape)).1 _ rfl nofun).mpr (.shape shaped rfl)
  · exact ⟨_, (value _).mpr
      ⟨⟨2, .graph .value ⟨1⟩⟩, ⟨3, .bound (.graph .value ⟨1⟩) 1⟩, rfl, rfl, rfl⟩⟩
  · intro h
    obtain ⟨f, g, -, -, same⟩ := (value _).mp h
    cases same

end Ledger

end ArrayInference
