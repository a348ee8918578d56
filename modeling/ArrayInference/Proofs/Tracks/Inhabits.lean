import ArrayInference.Constant.Classify
import ArrayInference.Proofs.Table

/-!
# Which constants a type has

A constant inhabits more types than the one that it is given when it stands in a program: an integer
inhabits the integer types of every width, and what inhabits the parts of a type inhabits the whole.
Main statement: a constant inhabits its own type and every type above it.
-/

namespace ArrayInference

theorem forall₂_getElem? {α β : Type} {R : α → β → Prop} {xs : List α} {ys : List β}
    (h : List.Forall₂ R xs ys) {i : Nat} {x : α} {y : β} (hx : xs[i]? = some x)
    (hy : ys[i]? = some y) : R x y := by
  induction h generalizing i with
  | nil => simp at hx
  | cons first rest ih =>
    cases i with
    | zero =>
      cases hx
      cases hy
      exact first
    | succ i => exact ih hx hy

theorem forall₂_of_getElem? {α β : Type} {R : α → β → Prop} {xs : List α} {ys : List β}
    (length_eq : xs.length = ys.length)
    (each : ∀ {i : Nat} {x : α} {y : β}, xs[i]? = some x → ys[i]? = some y → R x y) :
    List.Forall₂ R xs ys :=
  List.forall₂_iff_get.mpr ⟨length_eq, fun _ hi hj =>
    each (List.getElem?_eq_getElem hi) (List.getElem?_eq_getElem hj)⟩

/-- What holds at every position of two lists with the same names holds one by one. -/
theorem forall₂_of_names {α β : Type} {R : α → β → Prop} {as : List (String × α)}
    {bs : List (String × β)} (names : as.map (·.1) = bs.map (·.1))
    (each : ∀ {i : Nat} {a : String × α} {b : String × β}, as[i]? = some a → bs[i]? = some b →
      R a.2 b.2) : List.Forall₂ (fun a b => a.1 = b.1 ∧ R a.2 b.2) as bs := by
  refine forall₂_of_getElem? (by simpa using congrArg List.length names) fun {i a b} ha hb => ?_
  have name := congrArg (·[i]?) names
  exact ⟨by simpa [ha, hb] using name, each ha hb⟩

namespace Interning

/-- Some cache makes it. -/
def Makes {ε α : Type} (make : ExceptT ε Interning α) (a : α) : Prop :=
  ∃ cache : TypeCache, (make.run.run cache).1 = .ok a

section

variable {ε α β : Type}

theorem makes_pure {a b : α} : Makes (pure a : ExceptT ε Interning α) b ↔ b = a := by
  refine ⟨fun ⟨_, h⟩ => (Except.ok.inj h).symm, ?_⟩
  rintro rfl
  exact ⟨.empty ⟨0⟩, rfl⟩

theorem not_makes_throw {e : ε} {a : α} : ¬ Makes (throw e : ExceptT ε Interning α) a :=
  fun ⟨_, h⟩ => nomatch h

theorem Makes.of_bind {make : ExceptT ε Interning α} {f : α → ExceptT ε Interning β} {b : β}
    (h : Makes (make >>= f) b) : ∃ a, Makes make a ∧ Makes (f a) b := by
  obtain ⟨cache, h⟩ := h
  rw [ExceptT.run_bind, StateT.run_bind] at h
  rcases hmake : make.run.run cache with ⟨r, later⟩
  rw [hmake] at h
  cases r with
  | error e => cases h
  | ok a => exact ⟨a, ⟨cache, by rw [hmake]⟩, later, h⟩

theorem Makes.of_lift {make : Interning α} {a : α}
    (h : Makes (liftM make : ExceptT ε Interning α) a) : ∃ cache, (make.run cache).1 = a := by
  obtain ⟨cache, h⟩ := h
  exact ⟨cache, Except.ok.inj h⟩

end

/-- A type that is made is one of the cache at hand. -/
theorem Makes.of_intern {ε : Type} {make : CacheId → Ty} {t : Ty}
    (h : Makes (liftM (intern make) : ExceptT ε Interning Ty) t) : ∃ home, t = make home := by
  obtain ⟨cache, rfl⟩ := h.of_lift
  exact ⟨cache.home, rfl⟩

end Interning

namespace Constant

open Interning

/-- Some cache gives the constant this type. -/
def HasType (c : Constant) (t : Ty) : Prop :=
  Makes (typeOfConstant c) t

/-- A constant as a member of a type. The width of a number type does not matter, nor does the cache
that has made it. -/
inductive Inhabits : Constant → Ty → Prop where
  | generic {c : Constant} {t : Ty} {home : CacheId} {family : Family} (own : c.HasType t)
      (below : t.family.descendsFrom family = true) : Inhabits c (.generic home family)
  | int (n : Int64) (home : CacheId) (bits : Nat) : Inhabits (.int n) (.int home bits)
  | uint (n : Int64) (home : CacheId) (bits : Nat) : Inhabits (.int n) (.uint home bits)
  | float (x : UInt64) (home : CacheId) (bits : Nat) : Inhabits (.float x) (.float home bits)
  | tuple {items : List Constant} {home : CacheId} {types : List Ty}
      (length_eq : items.length = types.length)
      (each : ∀ {i : Nat} {c : Constant} {t : Ty}, items[i]? = some c → types[i]? = some t →
        Inhabits c t) : Inhabits (.tuple items) (.tuple home types)
  | list {items : List Constant} {home : CacheId} {element : Ty}
      (each : ∀ c ∈ items, Inhabits c element) : Inhabits (.list items) (.list home element)
  | array {v : ArrayValue} {home home' : CacheId} {element : Ty}
      (own : HasType (.array v) (.array home' element)) : Inhabits (.array v) (.array home element)
  | record {cls : RecordClass} {values : List Constant} {home home' : CacheId} {tag : ClassTag}
      {attributes : List (String × Ty)} {methods : List (String × GraphId)}
      (tag_eq : tag = { name := cls.name, origin := .declared home' cls.id })
      (names : attributes.map (·.1) = cls.fields.map (·.1))
      (length_eq : values.length = attributes.length)
      (each : ∀ {i : Nat} {c : Constant} {a : String × Ty}, values[i]? = some c →
        attributes[i]? = some a → Inhabits c a.2) :
      Inhabits (.record cls values) (.record home tag attributes methods)
  | recordType {cls : RecordClass} {t : Ty} (own : HasType (.recordType cls) t) :
      Inhabits (.recordType cls) t
  | function {c : Constant} {t : Ty} (callable : c.isCallable = true)
      (family : t.family = .function) : Inhabits c t
  | external {c : Constant} {home home' : CacheId} {name : String}
      (own : c.HasType (.external home' name)) : Inhabits c (.external home name)

/-- The types of several constants, one by one. -/
theorem hasType_of_typesOfConstants {cs : List Constant} {ts : List Ty}
    (h : Makes (typesOfConstants cs) ts) : List.Forall₂ HasType cs ts := by
  induction cs generalizing ts with
  | nil =>
    rw [typesOfConstants, makes_pure] at h
    rw [h]
    exact .nil
  | cons c cs ih =>
    rw [typesOfConstants] at h
    obtain ⟨t, ht, h⟩ := h.of_bind
    obtain ⟨us, hus, h⟩ := h.of_bind
    rw [makes_pure] at h
    rw [h]
    exact .cons ht (ih hus)

theorem hasType_of_requireElements {cs : List Constant} {element : Ty}
    (h : Makes (requireElements element cs) ()) : ∀ c ∈ cs, c.HasType element := by
  induction cs with
  | nil => simp
  | cons c cs ih =>
    rw [requireElements] at h
    obtain ⟨t, ht, h⟩ := h.of_bind
    split at h
    · obtain ⟨_, hthrow, -⟩ := h.of_bind
      exact absurd hthrow not_makes_throw
    · rename_i heq
      rw [ne_eq, not_not] at heq
      subst heq
      rw [List.forall_mem_cons]
      exact ⟨ht, ih h⟩

theorem HasType.of_subtype {c : Constant} {t u : Ty} (h : c.HasType t) (self : Inhabits c t)
    (below : t.isSubtype u = true) : Inhabits c u := by
  rcases Ty.isSubtype_iff.mp below with rfl | ⟨generic, below⟩
  · exact self
  · cases u with
    | generic home family => exact .generic h below
    | _ => cases generic

/-- A constant with a generic type inhabits that type. -/
theorem inhabits_of_generic {c : Constant} {home : CacheId} {family : Family}
    (h : c.HasType (.generic home family)) : Inhabits c (.generic home family) :=
  .generic h family.descendsFrom_self

theorem makes_instantiate {generic t : Ty} {bits : Nat}
    (h : Makes (instantiate generic (.bits bits)) t) :
    (generic.family = .int ∧ ∃ home, t = .int home bits)
      ∨ (generic.family = .uint ∧ ∃ home, t = .uint home bits)
      ∨ (generic.family = .float ∧ ∃ home, t = .float home bits) := by
  have width : ∀ {legal : List Nat} {family : Family} {make : CacheId → Ty},
      Makes (checkedWidth legal family bits make) t → ∃ home, t = make home := by
    intro legal family make h
    rw [checkedWidth] at h
    split at h
    · exact h.of_intern
    · exact absurd h not_makes_throw
  rw [instantiate.eq_def] at h
  split at h
  · exact absurd h not_makes_throw
  · split at h
    all_goals first
      | exact absurd h not_makes_throw
      | contradiction
      | skip
    · rename_i hfamily heq
      cases heq
      exact .inl ⟨hfamily, width h⟩
    · rename_i hfamily heq
      cases heq
      exact .inr (.inl ⟨hfamily, width h⟩)
    · rename_i hfamily heq
      cases heq
      exact .inr (.inr ⟨hfamily, width h⟩)

theorem HasType.int_eq {n : Int64} {t : Ty} (h : HasType (.int n) t) : ∃ home, t = .int home 64 := by
  rw [HasType, typeOfConstant, Interning.int] at h
  obtain ⟨g, hg, h⟩ := h.of_bind
  obtain ⟨home, rfl⟩ := hg.of_intern
  rcases makes_instantiate h with ⟨-, h⟩ | ⟨hfamily, -⟩ | ⟨hfamily, -⟩
  · exact h
  · cases hfamily
  · cases hfamily

theorem HasType.float_eq {x : UInt64} {t : Ty} (h : HasType (.float x) t) :
    ∃ home, t = .float home 64 := by
  rw [HasType, typeOfConstant, Interning.float] at h
  obtain ⟨g, hg, h⟩ := h.of_bind
  obtain ⟨home, rfl⟩ := hg.of_intern
  rcases makes_instantiate h with ⟨hfamily, -⟩ | ⟨hfamily, -⟩ | ⟨-, h⟩
  · cases hfamily
  · cases hfamily
  · exact h

/-- The parts of a record's type: its class, and for each value the type that the class declares or
the value's own. -/
theorem HasType.record_eq {cls : RecordClass} {values : List Constant} {t : Ty}
    (h : HasType (.record cls values) t) :
    ∃ home home' attributes, t = .record home { name := cls.name, origin := .declared home' cls.id }
        attributes cls.methods
      ∧ values.length = cls.fields.length
      ∧ ∃ types, List.Forall₂ HasType values types
        ∧ (attributes = (cls.fields.map (·.1)).zip types
          ∨ attributes = cls.fields ∧ fitsFields ((cls.fields.map (·.1)).zip types) cls.fields = true) := by
  rw [HasType, typeOfConstant] at h
  split at h
  · exact absurd h not_makes_throw
  · rename_i hlength
    rw [ne_eq, not_not] at hlength
    obtain ⟨types, htypes, h⟩ := h.of_bind
    obtain ⟨tag, htag, h⟩ := h.of_bind
    obtain ⟨home, rfl⟩ := h.of_intern
    obtain ⟨cache, rfl⟩ := htag.of_lift
    refine ⟨home, cache.home, _, rfl, hlength, types, hasType_of_typesOfConstants htypes, ?_⟩
    split
    · rename_i hfits
      exact .inr ⟨rfl, hfits⟩
    · exact .inl rfl

theorem inhabits_declared {cls : RecordClass} {values : List Constant} {t : Ty}
    (each : ∀ c ∈ values, ∀ u, c.HasType u → Inhabits c u) (h : HasType (.record cls values) t) :
    Inhabits (.record cls values) t := by
  obtain ⟨home, home', attributes, rfl, hlength, types, htypes, hattributes⟩ := h.record_eq
  have htypes_length := htypes.length_eq
  have typed : ∀ {i : Nat} {c : Constant} {u : Ty}, values[i]? = some c → types[i]? = some u →
      c.HasType u := forall₂_getElem? htypes
  have member : ∀ {i : Nat} {c : Constant}, values[i]? = some c → c ∈ values :=
    fun hc => List.mem_of_getElem? hc
  rcases hattributes with rfl | ⟨rfl, hfits⟩
  · refine .record rfl ?_ ?_ fun {i c a} hc ha => ?_
    · exact List.map_fst_zip (by simp; omega)
    · simp; omega
    · rw [List.getElem?_zip_eq_some] at ha
      exact each c (member hc) _ (typed hc ha.2)
  · refine .record rfl rfl hlength fun {i c a} hc ha => ?_
    obtain ⟨hi, -⟩ := List.getElem?_eq_some_iff.mp hc
    have htype : types[i]? = some types[i] := List.getElem?_eq_getElem (by omega)
    have own := typed hc htype
    refine own.of_subtype (each c (member hc) _ own) ?_
    have hpair : (((cls.fields.map (·.1)).zip types).zip cls.fields)[i]?
        = some ((a.1, types[i]), a) := by
      rw [List.getElem?_zip_eq_some, List.getElem?_zip_eq_some]
      simp [ha, htype]
    exact List.all_eq_true.mp hfits _ (List.mem_of_getElem? hpair)

mutual

/-- A constant inhabits its own type. -/
theorem inhabits_of_hasType (c : Constant) (t : Ty) (h : c.HasType t) : Inhabits c t :=
  match c with
  | .bool _ => by
      obtain ⟨home, rfl⟩ := Makes.of_intern (show Makes (liftM (Interning.generic .bool)) t from h)
      exact inhabits_of_generic h
  | .int n => by
      obtain ⟨home, rfl⟩ := h.int_eq
      exact .int n home 64
  | .float x => by
      obtain ⟨home, rfl⟩ := h.float_eq
      exact .float x home 64
  | .str _ => by
      obtain ⟨home, rfl⟩ := Makes.of_intern (show Makes (liftM (Interning.external "str")) t from h)
      exact .external h
  | .tuple items => by
      rw [HasType, typeOfConstant] at h
      obtain ⟨types, htypes, h⟩ := h.of_bind
      obtain ⟨home, rfl⟩ := h.of_intern
      have htypes := hasType_of_typesOfConstants htypes
      refine .tuple htypes.length_eq fun {i c t} hc ht => ?_
      exact inhabits_each items c (List.mem_of_getElem? hc) t (forall₂_getElem? htypes hc ht)
  | .list [] => by
      rw [HasType, typeOfConstant] at h
      obtain ⟨element, -, h⟩ := h.of_bind
      obtain ⟨home, rfl⟩ := h.of_intern
      exact .list (by simp)
  | .list (first :: rest) => by
      rw [HasType, typeOfConstant] at h
      obtain ⟨element, hfirst, h⟩ := h.of_bind
      obtain ⟨_, hrest, h⟩ := h.of_bind
      obtain ⟨home, rfl⟩ := h.of_intern
      refine .list ?_
      rw [List.forall_mem_cons]
      have hrest := hasType_of_requireElements hrest
      exact ⟨inhabits_of_hasType first _ hfirst, fun c hc => inhabits_each rest c hc _ (hrest c hc)⟩
  | .array value => by
      have own := h
      rw [HasType, typeOfConstant] at h
      obtain ⟨element, -, h⟩ := h.of_bind
      obtain ⟨home, rfl⟩ := h.of_intern
      exact .array own
  | .record cls values => inhabits_declared (inhabits_each values) h
  | .recordType _ => .recordType h
  | .type _ => by
      obtain ⟨home, rfl⟩ := Makes.of_intern (show Makes (liftM (Interning.generic .type)) t from h)
      exact inhabits_of_generic h
  | .primitive _ => by
      obtain ⟨home, rfl⟩ := Makes.of_intern (show Makes (liftM (Interning.generic .function)) t from h)
      exact .function rfl rfl
  | .graph _ => by
      obtain ⟨home, rfl⟩ := Makes.of_intern (show Makes (liftM (Interning.generic .function)) t from h)
      exact .function rfl rfl
  | .metaGraph _ => by
      obtain ⟨home, rfl⟩ := Makes.of_intern (show Makes (liftM (Interning.generic .function)) t from h)
      exact .function rfl rfl
  | .symbols .. => by
      obtain ⟨home, rfl⟩ :=
        Makes.of_intern (show Makes (liftM (Interning.external "namespace")) t from h)
      exact .external h
  | .host _ typeName _ => by
      obtain ⟨home, rfl⟩ := Makes.of_intern (show Makes (liftM (Interning.external typeName)) t from h)
      exact .external h

theorem inhabits_each (cs : List Constant) : ∀ c ∈ cs, ∀ t, c.HasType t → Inhabits c t :=
  match cs with
  | [] => by simp
  | c :: cs => by
      rw [List.forall_mem_cons]
      exact ⟨inhabits_of_hasType c, inhabits_each cs⟩

end

/-- A constant inhabits every type that is above its own. -/
theorem HasType.inhabits {c : Constant} {t u : Ty} (h : c.HasType t)
    (below : t.isSubtype u = true) : Inhabits c u :=
  h.of_subtype (inhabits_of_hasType c t h) below

end Constant

end ArrayInference
