import ArrayInference.Proofs.Plain.Steady
import ArrayInference.Proofs.Types.Mirroring

/-!
# Types are canonical

Whatever a store is asked for, and in whatever order, what it gives is canonical: it is the same
identity exactly if it is the same type all the way down, now and ever after. Clones of a store share
its cells, so requests made through any of them form one sequence. Main statement:
`TypeStore.Serves.canonical`.
-/

namespace ArrayInference

/-- A class, or a record of it. -/
def Constant.OfClass (c : RecordClass) (value : Constant) : Prop :=
  value = .recordType c ∨ ∃ values, value = .record c values

/-- The type of a record bears the tag of its class, whether or not its values fit the fields. -/
theorem Interning.exists_record {c : RecordClass} {value : Constant} (isOf : value.OfClass c)
    {cache cache' : TypeCache} {type : Ty}
    (made : (typeOfConstant value).run.run cache = (.ok type, cache')) :
    ∃ attributes,
      type = .record cache.home ⟨c.name, .declared cache.home c.id⟩ attributes c.methods := by
  rcases isOf with rfl | ⟨values, rfl⟩
  · cases made
    exact ⟨c.fields, rfl⟩
  rw [typeOfConstant] at made
  by_cases mismatch : values.length ≠ c.fields.length
  · rw [if_pos mismatch] at made
    cases made
  rw [if_neg mismatch, ExceptT.run_bind, StateT.run_bind] at made
  have home := (steady_typesOfConstants values).home cache
  generalize (typesOfConstants values).run.run cache = typed at made home
  obtain ⟨result, cache''⟩ := typed
  cases result with
  | error e => cases made
  | ok types =>
    cases made
    rw [← home]
    exact ⟨_, rfl⟩

/-- What a store is asked for. -/
inductive Request where
  | generic (family : Family)
  | int (width : Nat)
  | uint (width : Nat)
  | float (width : Nat)
  | tuple (elements : List TypeId)
  | list (element : TypeId)
  | array (element : TypeId)
  | function (params : List TypeId) (result : TypeId)
  | external (host : String)
  | record (tag : TagId) (attributes : List (String × TypeId)) (methods : List (String × GraphId))
  | instantiate (generic : TypeId) (params : Parameters)
  | ofDtype (name : String)
  | typeOf (value : Constant)
  | classTag (c : RecordClass)
  | newTag (name : String)

/-- What comes back: a type, or a refusal to make one, or a class tag. -/
inductive Reply (τ σ : Type) where
  | type (result : Except TypeError τ)
  | tag (tag : σ)

namespace Reply

/-- A reply by identity is the same as one in whole types. -/
def Stands (s : TypeStore) : Reply TypeId TagId → Reply Ty ClassTag → Prop
  | type result, type result' => Storing.Same TypeStore.Stands s result result'
  | tag t, tag t' => s.StandsTag t t'
  | _, _ => False

end Reply

namespace Request

open Storing

/-- A request whose types and tags were made by the store. -/
def Takes (names : ObjectId → String) (s : TypeStore) : Request → Prop
  | tuple elements => ∀ h ∈ elements, s.Holds h
  | list element | array element => s.Holds element
  | function params result => (∀ h ∈ params, s.Holds h) ∧ s.Holds result
  | record tag attributes _ => s.HoldsTag tag ∧ ∀ a ∈ attributes, s.Holds a.2
  | instantiate g params => s.Holds g ∧ params.Fits s
  | typeOf value => value.Classes (RecordClass.Known names s)
  | classTag c => c.name = names c.id
  | _ => True

def perform : Request → Storing (Reply TypeId TagId)
  | generic family => return .type (.ok (← Storing.generic family))
  | int width => return .type (← (number .int width).run)
  | uint width => return .type (← (number .uint width).run)
  | float width => return .type (← (number .float width).run)
  | tuple elements => return .type (.ok (← intern (.tuple elements)))
  | list element => return .type (.ok (← intern (.list element)))
  | array element => return .type (.ok (← intern (.array element)))
  | function params result => return .type (.ok (← intern (.function params result)))
  | external host => return .type (.ok (← intern (.external host)))
  | record tag attributes methods =>
      return .type (.ok (← intern (.record tag attributes methods)))
  | instantiate g params => return .type (← (Storing.instantiate g params).run)
  | ofDtype name => return .type (← (Storing.ofDtype name).run)
  | typeOf value => return .type (← (typeOfConstant value).run)
  | classTag c => return .tag (← Storing.classTag c.name c.id)
  | newTag name => return .tag (← Storing.newTag name)

/-- The same request for whole types. -/
def onTypes (s : TypeStore) : Request → Interning (Reply Ty ClassTag)
  | generic family => return .type (.ok (← Interning.generic family))
  | int width => return .type (← (Interning.int width).run)
  | uint width => return .type (← (Interning.uint width).run)
  | float width => return .type (← (Interning.float width).run)
  | tuple elements => return .type (.ok (← Interning.tuple (elements.map s.read)))
  | list element => return .type (.ok (← Interning.list (s.read element)))
  | array element => return .type (.ok (← Interning.array (s.read element)))
  | function params result =>
      return .type (.ok (← Interning.function (params.map s.read) (s.read result)))
  | external host => return .type (.ok (← Interning.external host))
  | record tag attributes methods =>
      return .type (.ok (← Interning.record (s.readTag tag) (s.readAttributes attributes) methods))
  | instantiate g params =>
      return .type (← (Interning.instantiate (s.read g) (params.read s)).run)
  | ofDtype name => return .type (← (Interning.ofDtype name).run)
  | typeOf value => return .type (← (Interning.typeOfConstant value).run)
  | classTag c => return .tag (← Interning.declaredTag c.name c.id)
  | newTag name => return .tag (← Interning.freshTag name)

section

variable {names : ObjectId → String} {s : TypeStore} {request : Request}

theorem mirrors_type {m : Storing TypeId} {m' : Interning Ty}
    (h : Mirrors names s m m' TypeStore.Stands) :
    Mirrors names s (do return .type (.ok (← m))) (do return .type (.ok (← m'))) Reply.Stands :=
  h.bind fun _ _ _ sound _ stands => mirrors_pure sound stands

theorem mirrors_result {m : ExceptT TypeError Storing TypeId} {m' : ExceptT TypeError Interning Ty}
    (h : Mirrors names s m.run m'.run (Same TypeStore.Stands)) :
    Mirrors names s (do return .type (← m.run)) (do return .type (← m'.run)) Reply.Stands :=
  h.bind fun _ _ _ sound _ same => mirrors_pure sound same

theorem mirrors_tag {m : Storing TagId} {m' : Interning ClassTag}
    (h : Mirrors names s m m' TypeStore.StandsTag) :
    Mirrors names s (do return .tag (← m)) (do return .tag (← m')) Reply.Stands :=
  h.bind fun _ _ _ sound _ stands => mirrors_pure sound stands

/-- Every request mirrors the one for whole types. -/
theorem mirrors_perform (sound : s.Sound names) (takes : request.Takes names s) :
    Mirrors names s request.perform (request.onTypes s) Reply.Stands := by
  cases request with
  | generic family => exact mirrors_type (mirrors_generic sound family)
  | int width => exact mirrors_result (mirrors_number sound .int width)
  | uint width => exact mirrors_result (mirrors_number sound .uint width)
  | float width => exact mirrors_result (mirrors_number sound .float width)
  | tuple elements => exact mirrors_type (mirrors_tuple sound ⟨takes, rfl⟩)
  | list element => exact mirrors_type (mirrors_list sound ⟨takes, rfl⟩)
  | array element => exact mirrors_type (mirrors_array sound ⟨takes, rfl⟩)
  | function params result =>
    exact mirrors_type (mirrors_function sound ⟨takes.1, rfl⟩ ⟨takes.2, rfl⟩)
  | external host => exact mirrors_type (mirrors_external sound host)
  | record tag attributes methods =>
    exact mirrors_type (mirrors_record sound ⟨takes.1, rfl⟩ ⟨takes.2, rfl⟩ methods)
  | instantiate g params => exact mirrors_result (mirrors_instantiate sound takes.1 params takes.2)
  | ofDtype name => exact mirrors_result (mirrors_ofDtype sound name)
  | typeOf value =>
    exact mirrors_result (mirrors_typeOfConstant sound value takes sound (.refl s))
  | classTag c => exact mirrors_tag (mirrors_classTag sound takes)
  | newTag name => exact mirrors_tag (mirrors_newTag sound name)

end

end Request

namespace TypeStore

variable {names : ObjectId → String} {s t : TypeStore} {h k : TypeId}

theorem Sound.empty (home : CacheId) : (empty home).Sound names where
  older found := by simp [TypeStore.empty] at found
  interned := by simp [TypeStore.empty, Table.find?]
  generics found := by simp [TypeStore.empty] at found
  tags found := by simp [TypeStore.empty] at found
  declared := by simp [TypeStore.empty, Table.find?]
  named found := by simp [TypeStore.empty] at found
  serials found := by simp [TypeStore.empty] at found

/-- Requests that a store is asked for one after the other, each with its reply. -/
inductive Serves (names : ObjectId → String) :
    TypeStore → List (Request × Reply TypeId TagId) → TypeStore → Prop
  | done {s : TypeStore} : Serves names s [] s
  | ask {s t u : TypeStore} {request : Request} {reply : Reply TypeId TagId}
      {log : List (Request × Reply TypeId TagId)} (takes : request.Takes names s)
      (served : request.perform.run s = (reply, t)) (rest : Serves names t log u) :
      Serves names s ((request, reply) :: log) u

section

variable {log later : List (Request × Reply TypeId TagId)} {request : Request}
  {reply : Reply TypeId TagId} {tag tag' : TagId} {c c' : RecordClass} {value : Constant}

theorem Serves.sound (serves : Serves names s log t) (sound : s.Sound names) :
    t.Sound names ∧ s.Later t := by
  induction serves with
  | done => exact ⟨sound, .refl _⟩
  | ask takes served _ ih =>
    obtain ⟨u, reply, _, run, -, sound', up, -⟩ := Request.mirrors_perform sound takes
    rw [served] at run
    cases run
    exact ⟨(ih sound').1, up.trans (ih sound').2⟩

/-- What a request of a sequence was answered with, in whole types. -/
theorem Serves.replied (serves : Serves names s log t) (sound : s.Sound names)
    (asked : (request, reply) ∈ log) :
    ∃ u v answer, v.Sound names ∧ v.Later t ∧ (request.onTypes u).run u.cache = (answer, v.cache)
      ∧ reply.Stands v answer := by
  induction serves with
  | done => simp at asked
  | @ask s _ _ _ _ _ takes served rest ih =>
    obtain ⟨u, reply, answer, run, run', sound', up, stands⟩ :=
      Request.mirrors_perform sound takes
    rw [served] at run
    cases run
    rcases List.mem_cons.mp asked with same | asked
    · cases same
      exact ⟨s, _, answer, sound', (rest.sound sound').2, run', stands⟩
    · exact ih sound' asked

theorem StandsTag.getElem? {made : ClassTag} (stands : s.StandsTag tag made) :
    s.tags[tag.index]? = some made := by
  obtain ⟨held, rfl⟩ := stands
  rw [readTag, Array.getElem?_eq_getElem held, Option.getD_some]

/-- A type that was given out is there from then on. -/
theorem Serves.holds (serves : Serves names s log t) (sound : s.Sound names)
    (asked : (request, .type (.ok h)) ∈ log) : t.Holds h := by
  obtain ⟨_, v, answer, _, up, _, stands⟩ := serves.replied sound asked
  match answer, stands with
  | .type (.ok _), stands => exact up.holds stands.1

/-- The tag of a host class is the one that the store looks up. -/
theorem Serves.classTag (serves : Serves names s log t) (sound : s.Sound names)
    (asked : (.classTag c, .tag tag) ∈ log) : t.classTags.find? c.id = some tag := by
  obtain ⟨u, v, answer, sound', up, run, stands⟩ := serves.replied sound asked
  have made : answer = .tag ⟨c.name, .declared u.home c.id⟩ := (congrArg Prod.fst run).symm
  subst made
  have known := StandsTag.getElem? stands
  obtain ⟨named, home⟩ := sound'.named known
  rw [named, home, ← up.home] at known
  exact (serves.sound sound).1.declared.mpr (up.tags known)

/-- A tag for no host class is of no host class. -/
theorem Serves.newTag {name : String} (serves : Serves names s log t) (sound : s.Sound names)
    (asked : (.newTag name, .tag tag) ∈ log) :
    ∃ home serial, t.tags[tag.index]? = some ⟨name, .fresh home serial⟩ := by
  obtain ⟨u, v, answer, _, up, run, stands⟩ := serves.replied sound asked
  have made : answer = .tag ⟨name, .fresh u.home u.serial⟩ := (congrArg Prod.fst run).symm
  subst made
  exact ⟨_, _, up.tags (StandsTag.getElem? stands)⟩

/-- The cell of a record type. -/
theorem Sound.exists_record (sound : s.Sound names) {home : CacheId} {made : ClassTag}
    {attributes : List (String × Ty)} {methods : List (String × GraphId)}
    (stands : s.Stands h (.record home made attributes methods)) :
    ∃ tag fields generic, s.types[h.index]? = some ⟨.record tag fields methods, generic⟩
      ∧ s.StandsTag tag made := by
  obtain ⟨⟨d, generic⟩, found⟩ := stands.1.exists_cell
  have read := (sound.read_eq found).symm.trans stands.2
  cases d <;>
    simp only [TypeStore.describes, Descriptor.toTy, Ty.record.injEq, reduceCtorEq] at read
  case record tag fields methods' =>
    obtain ⟨-, made, -, rfl⟩ := read
    exact ⟨tag, fields, generic, found, (sound.fits found).2 tag rfl, made⟩

/-- The type of a class, and of its records, bears the tag of the class. -/
theorem Serves.typed (serves : Serves names s log t) (sound : s.Sound names) (isOf : value.OfClass c)
    (asked : (.typeOf value, .type (.ok h)) ∈ log) :
    ∃ tag fields generic, t.types[h.index]? = some ⟨.record tag fields c.methods, generic⟩
      ∧ t.classTags.find? c.id = some tag := by
  obtain ⟨u, v, answer, sound', up, run, stands⟩ := serves.replied sound asked
  match answer, stands with
  | .type (.ok type), stands =>
    have made : (Interning.typeOfConstant value).run.run u.cache = (.ok type, v.cache) := by
      rw [Request.onTypes, StateT.run_bind] at run
      generalize (Interning.typeOfConstant value).run.run u.cache = typed at run ⊢
      obtain ⟨result, cache⟩ := typed
      cases run
      rfl
    obtain ⟨attributes, rfl⟩ := Interning.exists_record isOf made
    obtain ⟨tag, fields, generic, cell, stands⟩ := sound'.exists_record stands
    have known := stands.getElem?
    obtain ⟨named, home⟩ := sound'.named known
    rw [named, home, ← up.home] at known
    exact ⟨tag, fields, generic, up.types cell,
      (serves.sound sound).1.declared.mpr (up.tags known)⟩

/-- The generic type of a family is told by the cell of each of its types. -/
theorem Sound.genericOf (sound : s.Sound names) (held : s.Holds h) :
    s.types[(s.genericOf h).index]? = some ⟨.generic (s.family h), none⟩ := by
  obtain ⟨cell, found⟩ := held.exists_cell
  rw [TypeStore.genericOf, family, found]
  rcases sound.generics found with ⟨family, rfl⟩ | ⟨g, generic, -, top⟩
  · exact found
  · rw [Option.bind_some, generic]
    exact top

/-- A generic type is the only one of its family. -/
theorem Sound.eq_genericOf (sound : s.Sound names) (held : s.Holds h) (held' : s.Holds k)
    (isGeneric : s.isGeneric k = true) (same : s.family k = s.family h) : k = s.genericOf h := by
  obtain ⟨cell, found⟩ := held'.exists_cell
  have known : s.interned.find? (.generic (s.family h)) = some (s.genericOf h) :=
    sound.interned.mpr ⟨none, sound.genericOf held⟩
  have known' : s.interned.find? (.generic (s.family k)) = some k := by
    rcases sound.generics found with ⟨family, rfl⟩ | ⟨g, generic, -, -⟩
    · refine sound.interned.mpr ⟨none, ?_⟩
      rw [TypeStore.family, found]
      rfl
    · rw [TypeStore.isGeneric, found] at isGeneric
      simp [generic] at isGeneric
  rw [same, known] at known'
  exact (Option.some.inj known').symm

/-- What a store that was asked for `log` gives is canonical. -/
structure Canonical (names : ObjectId → String) (log : List (Request × Reply TypeId TagId))
    (s : TypeStore) : Prop where
  /-- Whatever was given out is there. -/
  held : ∀ {request : Request} {h : TypeId}, (request, .type (.ok h)) ∈ log → s.Holds h
  /-- Types are the same exactly if they agree all the way down. -/
  same : ∀ {h k : TypeId}, s.Holds h → s.Holds k → (h = k ↔ s.read h = s.read k)
  /-- To that end class tags agree exactly if they are the same. -/
  sameTag : ∀ {t t' : TagId}, s.HoldsTag t → s.HoldsTag t' → (t = t' ↔ s.readTag t = s.readTag t')
  /-- A type stays what it is. -/
  stays : ∀ {later : List (Request × Reply TypeId TagId)} {t : TypeStore} {h : TypeId},
    Serves names s later t → s.Holds h →
      t.types[h.index]? = s.types[h.index]? ∧ t.read h = s.read h
  /-- No entry is ever dropped or replaced. -/
  kept : ∀ {later : List (Request × Reply TypeId TagId)} {t : TypeStore} {d : Descriptor}
    {h : TypeId}, Serves names s later t → s.interned.find? d = some h →
      t.interned.find? d = some h
  /-- The generic type of a type is the one that the store gives for the family. -/
  generic : ∀ {h : TypeId}, s.Holds h →
    (Storing.generic (s.family h)).run s = (s.genericOf h, s)
      ∧ s.read (s.genericOf h) = (s.read h).toGeneric
  /-- There is no other generic type of the family. -/
  soleGeneric : ∀ {h k : TypeId}, s.Holds h → s.Holds k → s.isGeneric k = true →
    s.family k = s.family h → k = s.genericOf h
  /-- A class has one tag, and it shares it with no other class. -/
  classTag : ∀ {c c' : RecordClass} {t t' : TagId}, (.classTag c, .tag t) ∈ log →
    (.classTag c', .tag t') ∈ log → (t = t' ↔ c.id = c'.id)
  /-- Nor does it share it with what is no class. -/
  newTag : ∀ {c : RecordClass} {name : String} {t t' : TagId}, (.classTag c, .tag t) ∈ log →
    (.newTag name, .tag t') ∈ log → t ≠ t'
  /-- The type of a class and of its records bears that tag. -/
  typed : ∀ {c : RecordClass} {value : Constant} {h : TypeId} {t : TagId}, value.OfClass c →
    (.typeOf value, .type (.ok h)) ∈ log → (.classTag c, .tag t) ∈ log →
      ∃ fields generic, s.types[h.index]? = some ⟨.record t fields c.methods, generic⟩
  /-- What is asked for next mirrors what is asked for with whole types. -/
  mirrors : ∀ {request : Request}, request.Takes names s →
    Storing.Mirrors names s request.perform (request.onTypes s) Reply.Stands

/-- Whatever a store is asked for, what it gives is canonical. -/
theorem Serves.canonical {home : CacheId} (serves : Serves names (.empty home) log s) :
    Canonical names log s := by
  have empty : (TypeStore.empty home).Sound names := .empty home
  have sound := (serves.sound empty).1
  constructor
  case held => exact serves.holds empty
  case same => exact fun held held' => sound.eq_iff held held'
  case sameTag =>
    exact fun held held' => ⟨fun same => same ▸ rfl, sound.tag_injective held held'⟩
  case stays =>
    intro later t h serves' held
    obtain ⟨sound', up⟩ := serves'.sound sound
    obtain ⟨cell, found⟩ := held.exists_cell
    exact ⟨(up.types found).trans found.symm, up.read sound sound' held⟩
  case kept =>
    intro later t d h serves' found
    obtain ⟨sound', up⟩ := serves'.sound sound
    obtain ⟨generic, cell⟩ := sound.interned.mp found
    exact sound'.interned.mpr ⟨generic, up.types cell⟩
  case generic =>
    intro h held
    have cell := sound.genericOf held
    have known : s.interned.find? (.generic (s.family h)) = some (s.genericOf h) :=
      sound.interned.mpr ⟨none, cell⟩
    refine ⟨Storing.run_generic_of_some known, ?_⟩
    rw [sound.read_generic cell, Ty.toGeneric, sound.family_eq held]
    obtain ⟨cell, found⟩ := held.exists_cell
    rw [sound.read_eq found, describes, Descriptor.home_toTy]
  case soleGeneric => exact fun held held' => sound.eq_genericOf held held'
  case classTag =>
    intro c c' t t' asked asked'
    have known := serves.classTag empty asked
    have known' := serves.classTag empty asked'
    constructor
    · rintro rfl
      have same := (sound.declared.mp known).symm.trans (sound.declared.mp known')
      rw [Option.some.injEq, ClassTag.mk.injEq, TagOrigin.declared.injEq] at same
      exact same.2.2
    · intro same
      rw [same, known'] at known
      exact (Option.some.inj known).symm
  case newTag =>
    rintro c name t t' asked asked' rfl
    have known := sound.declared.mp (serves.classTag empty asked)
    obtain ⟨home, serial, made⟩ := serves.newTag empty asked'
    rw [known] at made
    cases made
  case typed =>
    intro c value h t isOf asked asked'
    obtain ⟨tag, fields, generic, cell, known⟩ := serves.typed empty isOf asked
    rw [serves.classTag empty asked'] at known
    cases known
    exact ⟨fields, generic, cell⟩
  case mirrors => exact fun takes => Request.mirrors_perform sound takes

end

/-- A pair is typed, and its type is made once more from its parts. Two classes share a name. -/
def pairLog : List (Request × Reply TypeId TagId) :=
  [(.typeOf (.tuple [.int 1, .bool true]), .type (.ok ⟨4⟩)),
   (.instantiate ⟨3⟩ (.elements [⟨1⟩, ⟨2⟩]), .type (.ok ⟨4⟩)),
   (.typeOf (.record ⟨⟨0⟩, "Point", [], []⟩ []), .type (.ok ⟨6⟩)),
   (.classTag ⟨⟨0⟩, "Point", [], []⟩, .tag ⟨0⟩),
   (.classTag ⟨⟨1⟩, "Point", [], []⟩, .tag ⟨1⟩)]

theorem Serves.canonical_pairs :
    ∃ s, Serves (fun _ => "Point") (.empty ⟨0⟩) pairLog s ∧ Canonical (fun _ => "Point") pairLog s := by
  have serves : ∃ s, Serves (fun _ => "Point") (.empty ⟨0⟩) pairLog s := by
    refine ⟨_, .ask ⟨trivial, trivial, trivial⟩ rfl (.ask ⟨?_, ?_⟩ rfl (.ask ⟨⟨rfl, ?_⟩, trivial⟩ rfl
      (.ask rfl rfl (.ask rfl rfl .done))))⟩
    · exact (by decide : 3 < 5)
    · exact List.forall_mem_cons.mpr ⟨(by decide : 1 < 5),
        List.forall_mem_cons.mpr ⟨(by decide : 2 < 5), List.forall_mem_nil _⟩⟩
    · exact List.forall_mem_nil _
  obtain ⟨s, serves⟩ := serves
  exact ⟨s, serves, serves.canonical⟩

end TypeStore

end ArrayInference
