import ArrayInference.Proofs.Plain.MetaFree
import ArrayInference.Proofs.Tracks.Inhabits
import ArrayInference.Rules.Type

/-!
# The graphs that are mentioned

A graph is mentioned by its constant, by the classes and record types that it is a method of, and by
a generator that hands it out. Whatever is read from a constant or a type, folded, or made of types,
mentions no other graphs than these do.
-/

namespace ArrayInference

namespace Ty

mutual

/-- The methods in a type, at any depth. -/
def mentions : Ty → List GraphId
  | tuple _ elements => allMentions elements
  | list _ element | array _ element => mentions element
  | record _ _ attributes methods => attributeMentions attributes ++ methods.map (·.2)
  | function _ params result => allMentions params ++ mentions result
  | generic .. | int .. | uint .. | float .. | external .. => []

/-- The methods in several types. -/
def allMentions : List Ty → List GraphId
  | [] => []
  | t :: ts => mentions t ++ allMentions ts

/-- The methods in the types of attributes. -/
def attributeMentions : List (String × Ty) → List GraphId
  | [] => []
  | (_, t) :: rest => mentions t ++ attributeMentions rest

end

/-- All graphs in a type have a property. -/
def Within (V : GraphId → Prop) (t : Ty) : Prop :=
  ∀ g ∈ t.mentions, V g

end Ty

/-- The graphs that are methods of a class or of the types of its fields. -/
def RecordClass.mentions (c : RecordClass) : List GraphId :=
  Ty.attributeMentions c.fields ++ c.methods.map (·.2)

/-- The graph that a generator hands out, if it hands out one that is there already. -/
def MetaGraph.mentions (m : MetaGraph) : List GraphId :=
  match m.recipe with
  | .existing g => [g]
  | _ => []

namespace Constant

mutual

/-- The graphs in a constant, at any depth. -/
def mentions : Constant → List GraphId
  | tuple items | list items => allMentions items
  | record cls values => cls.mentions ++ allMentions values
  | recordType cls => cls.mentions
  | type t => t.mentions
  | graph g => [g]
  | metaGraph m => m.mentions
  | symbols _ _ entries | host _ _ entries => entryMentions entries
  | bool _ | int _ | float _ | str _ | array _ | primitive _ => []

/-- The graphs in several constants. -/
def allMentions : List Constant → List GraphId
  | [] => []
  | c :: cs => mentions c ++ allMentions cs

/-- The graphs in named constants. -/
def entryMentions : List (String × Constant) → List GraphId
  | [] => []
  | (_, c) :: entries => mentions c ++ entryMentions entries

end

/-- All graphs in a constant have a property. -/
def Within (V : GraphId → Prop) (c : Constant) : Prop :=
  ∀ g ∈ c.mentions, V g

end Constant

namespace Property

/-- The graphs in the value or the type of a property. -/
def mentions : Property → List GraphId
  | value (.known c) => c.mentions
  | type t => t.mentions
  | value .anything | shape _ | inferrer _ => []

def Within (V : GraphId → Prop) (p : Property) : Prop :=
  ∀ g ∈ p.mentions, V g

end Property

/-- All graphs in what is given of an argument have a property. -/
structure VirtualProps.Within (V : GraphId → Prop) (p : VirtualProps) : Prop where
  value : ∀ q, p.value = some q → q.Within V
  type : ∀ q, p.type = some q → q.Within V
  shape : ∀ q, p.shape = some q → q.Within V

/-- All graphs in the properties of an argument have a property. -/
structure ArgProps.Within (V : GraphId → Prop) (a : ArgProps) : Prop where
  value : a.value.Within V
  type : a.type.Within V
  shape : a.shape.Within V

/-- The graphs of the frames of a context, and all graphs in their arguments, have a property. -/
def Context.Within (V : GraphId → Prop) : Context → Prop
  | .empty => True
  | .frame parent graph args => parent.Within V ∧ V graph ∧ ∀ a ∈ args, a.Within V

/-- A list without elements has every property. -/
theorem forall_mem_of_eq_nil {α : Type} {P : α → Prop} {xs : List α} (h : xs = []) :
    ∀ x ∈ xs, P x := by
  simp [h]

variable {V : GraphId → Prop}

/-! ## Types -/

namespace Ty

theorem forall_allMentions {ts : List Ty} :
    (∀ g ∈ allMentions ts, V g) ↔ ∀ t ∈ ts, t.Within V := by
  induction ts with
  | nil => exact iff_of_true nofun nofun
  | cons t ts ih =>
    show (∀ g ∈ t.mentions ++ allMentions ts, V g) ↔ _
    rw [List.forall_mem_append, ih, List.forall_mem_cons, Within]

theorem forall_attributeMentions {attributes : List (String × Ty)} :
    (∀ g ∈ attributeMentions attributes, V g) ↔ ∀ a ∈ attributes, a.2.Within V := by
  induction attributes with
  | nil => exact iff_of_true nofun nofun
  | cons a rest ih =>
    show (∀ g ∈ a.2.mentions ++ attributeMentions rest, V g) ↔ _
    rw [List.forall_mem_append, ih, List.forall_mem_cons, Within]

theorem within_tuple {home : CacheId} {elements : List Ty} :
    (tuple home elements).Within V ↔ ∀ t ∈ elements, t.Within V :=
  forall_allMentions

theorem within_record {home : CacheId} {tag : ClassTag} {attributes : List (String × Ty)}
    {methods : List (String × GraphId)} :
    (record home tag attributes methods).Within V
      ↔ (∀ a ∈ attributes, a.2.Within V) ∧ ∀ m ∈ methods, V m.2 := by
  show (∀ g ∈ attributeMentions attributes ++ methods.map (·.2), V g) ↔ _
  rw [List.forall_mem_append, forall_attributeMentions, List.forall_mem_map]

variable {t u : Ty}

theorem Within.elements? (h : t.Within V) {es : List Ty} (found : t.elements? = some es) :
    ∀ e ∈ es, e.Within V := by
  cases t with
  | tuple home elements =>
    cases found
    exact within_tuple.mp h
  | _ => cases found

theorem Within.element? (h : t.Within V) (found : t.element? = some u) : u.Within V := by
  cases t with
  | list home element =>
    cases found
    exact h
  | array home element =>
    cases found
    exact h
  | _ => cases found

theorem Within.class? (h : t.Within V) {c : ClassDesc} (found : t.class? = some c) :
    (∀ a ∈ c.attributes, a.2.Within V) ∧ ∀ m ∈ c.methods, V m.2 := by
  cases t with
  | record home tag attributes methods =>
    cases found
    exact within_record.mp h
  | _ => cases found

end Ty

/-- What is found under a name is one of the things that have names. -/
theorem mem_of_lookup {α : Type} {entries : List (String × α)} {name : String} {a : α}
    (found : entries.lookup name = some a) : (name, a) ∈ entries := by
  induction entries with
  | nil => cases found
  | cons entry rest ih =>
    obtain ⟨n, b⟩ := entry
    rw [List.lookup_cons] at found
    split at found
    · rename_i same
      cases found
      exact beq_iff_eq.mp same ▸ List.mem_cons_self
    · exact List.mem_cons_of_mem _ (ih found)

theorem ClassDesc.within_attribute? {c : ClassDesc} (h : ∀ a ∈ c.attributes, a.2.Within V)
    {name : String} {t : Ty} (found : c.attribute? name = some t) : t.Within V :=
  h _ (mem_of_lookup found)

/-- A method that a key names is one of the type. -/
theorem Infer.within_methodOf? {t : Ty} (h : t.Within V) {key : Constant} {g : GraphId}
    (found : methodOf? t key = some g) : V g := by
  obtain ⟨c, hc, found⟩ := Option.bind_eq_some_iff.mp found
  obtain ⟨name, -, found⟩ := Option.bind_eq_some_iff.mp found
  exact (h.class? hc).2 _ (mem_of_lookup found)

/-! ## Constants -/

namespace Constant

theorem forall_allMentions {cs : List Constant} :
    (∀ g ∈ allMentions cs, V g) ↔ ∀ c ∈ cs, c.Within V := by
  induction cs with
  | nil => exact iff_of_true nofun nofun
  | cons c cs ih =>
    show (∀ g ∈ c.mentions ++ allMentions cs, V g) ↔ _
    rw [List.forall_mem_append, ih, List.forall_mem_cons, Within]

theorem forall_entryMentions {entries : List (String × Constant)} :
    (∀ g ∈ entryMentions entries, V g) ↔ ∀ e ∈ entries, e.2.Within V := by
  induction entries with
  | nil => exact iff_of_true nofun nofun
  | cons e rest ih =>
    show (∀ g ∈ e.2.mentions ++ entryMentions rest, V g) ↔ _
    rw [List.forall_mem_append, ih, List.forall_mem_cons, Within]

theorem within_tuple {items : List Constant} :
    (tuple items).Within V ↔ ∀ c ∈ items, c.Within V :=
  forall_allMentions

theorem within_list {items : List Constant} : (list items).Within V ↔ ∀ c ∈ items, c.Within V :=
  forall_allMentions

theorem within_recordType {cls : RecordClass} :
    (recordType cls).Within V ↔ (∀ a ∈ cls.fields, a.2.Within V) ∧ ∀ m ∈ cls.methods, V m.2 := by
  show (∀ g ∈ Ty.attributeMentions cls.fields ++ cls.methods.map (·.2), V g) ↔ _
  rw [List.forall_mem_append, Ty.forall_attributeMentions, List.forall_mem_map]

theorem within_record {cls : RecordClass} {values : List Constant} :
    (record cls values).Within V ↔ (recordType cls).Within V ∧ ∀ c ∈ values, c.Within V := by
  show (∀ g ∈ cls.mentions ++ allMentions values, V g) ↔ _
  rw [List.forall_mem_append, forall_allMentions]
  rfl

theorem within_graph {g : GraphId} : (graph g).Within V ↔ V g :=
  List.forall_mem_singleton

variable {c d : Constant}

theorem Within.attribute? (h : c.Within V) {name : String} (found : c.attribute? name = some d) :
    d.Within V := by
  cases c with
  | record cls values =>
    rw [within_record] at h
    rw [Constant.attribute?] at found
    split at found
    · exact h.2 d (List.mem_of_getElem? found)
    · obtain ⟨g, hg, rfl⟩ := Option.map_eq_some_iff.mp found
      exact within_graph.mpr ((within_recordType.mp h.1).2 _ (mem_of_lookup hg))
  | host id typeName entries => exact forall_entryMentions.mp h _ (mem_of_lookup found)
  | symbols id name entries => exact forall_entryMentions.mp h _ (mem_of_lookup found)
  | _ => cases found

theorem Within.item? (h : c.Within V) {key : Constant} (found : c.item? key = some d) :
    d.Within V := by
  rw [Constant.item?.eq_def] at found
  split at found
  · exact forall_entryMentions.mp h _ (mem_of_lookup found)
  · obtain ⟨i, -, hi⟩ := Option.bind_eq_some_iff.mp found
    exact within_tuple.mp h d (List.mem_of_getElem? hi)
  · obtain ⟨i, -, hi⟩ := Option.bind_eq_some_iff.mp found
    exact within_list.mp h d (List.mem_of_getElem? hi)
  · cases found

end Constant

theorem Access.within_find? {how : Access} {container key found : Constant}
    (h : container.Within V) (hfound : how.find? container key = some found) : found.Within V := by
  cases how with
  | named =>
    obtain ⟨name, -, hname⟩ := Option.bind_eq_some_iff.mp hfound
    exact h.attribute? hname
  | keyed => exact h.item? hfound

theorem Rule.mem_of_tupleItem {α : Type} {index : Constant} {items : List α} {item : α}
    (found : tupleItem index items = .ok item) : item ∈ items := by
  rw [tupleItem.eq_def] at found
  split at found
  · split at found
    · rename_i hitem
      obtain ⟨n, -, hn⟩ := Option.bind_eq_some_iff.mp hitem
      cases found
      exact List.mem_of_getElem? hn
    · cases found
  · cases found

/-! ## Folding -/

namespace Constant

/-- What folds to a number or a truth value mentions no graph. -/
theorem Scalar.within {c : Constant} (h : c.Scalar) : c.Within V := by
  cases h <;> exact forall_mem_of_eq_nil rfl

end Constant

theorem Dim.within_listToConstant? {ds : List Dim} {c : Constant}
    (h : Dim.listToConstant? ds = some c) : c.Within V := by
  obtain ⟨items, hitems, rfl⟩ := Option.map_eq_some_iff.mp h
  rw [Constant.within_tuple]
  clear h
  induction ds generalizing items with
  | nil =>
    cases hitems
    simp
  | cons d ds ih =>
    rw [List.mapM_cons] at hitems
    obtain ⟨first, hfirst, hitems⟩ := Option.bind_eq_some_iff.mp hitems
    obtain ⟨rest, hrest, hitems⟩ := Option.bind_eq_some_iff.mp hitems
    cases hitems
    obtain ⟨n, -, rfl⟩ := Option.map_eq_some_iff.mp hfirst
    rw [List.forall_mem_cons]
    exact ⟨(Constant.Scalar.int _).within, ih rest hrest⟩

/-! ## The types of constants -/

theorem Interning.Makes.of_tryCatch {ε α : Type} {make : ExceptT ε Interning α}
    {f : ε → ExceptT ε Interning α} {a : α} (h : Makes (tryCatch make f) a) :
    Makes make a ∨ ∃ e, Makes (f e) a := by
  obtain ⟨cache, h⟩ := h
  rw [ExceptT.run_tryCatch, StateT.run_bind] at h
  rcases hmake : make.run.run cache with ⟨r, later⟩
  rw [hmake] at h
  cases r with
  | error e => exact .inr ⟨e, later, h⟩
  | ok b => exact .inl ⟨cache, by rw [hmake]; exact h⟩

namespace Constant

open Interning

/-- A number type mentions no graph. -/
theorem within_of_instantiate {generic t : Ty} {bits : Nat}
    (h : Makes (instantiate generic (.bits bits)) t) : t.Within V := by
  rcases makes_instantiate h with ⟨-, home, rfl⟩ | ⟨-, home, rfl⟩ | ⟨-, home, rfl⟩ <;>
    exact forall_mem_of_eq_nil rfl

theorem within_of_numberType {family : Family} {width : Nat} {t : Ty}
    (h : Makes (numberType family width) t) : t.Within V := by
  rw [numberType.eq_def] at h
  split at h <;>
  · obtain ⟨_, -, h⟩ := h.of_bind
    exact within_of_instantiate h

theorem within_of_ofDtype {name : String} {t : Ty} (h : Makes (ofDtype name) t) : t.Within V := by
  rw [ofDtype] at h
  split at h
  · obtain ⟨home, rfl⟩ := h.of_intern
    exact forall_mem_of_eq_nil rfl
  · split at h
    · exact absurd h not_makes_throw
    · split at h
      · exact absurd h not_makes_throw
      · rcases h.of_tryCatch with h | ⟨e, h⟩
        · exact within_of_numberType h
        · exact absurd h not_makes_throw

mutual

/-- The type of a constant mentions no graph that the constant does not mention. -/
theorem HasType.within (c : Constant) (t : Ty) (h : c.HasType t) (own : c.Within V) : t.Within V :=
  match c with
  | .bool _ | .type _ | .primitive _ | .graph _ | .metaGraph _ | .str _ | .symbols ..
  | .host .. => by
      obtain ⟨home, rfl⟩ := Makes.of_intern h
      exact forall_mem_of_eq_nil rfl
  | .int n => by
      obtain ⟨home, rfl⟩ := h.int_eq
      exact forall_mem_of_eq_nil rfl
  | .float x => by
      obtain ⟨home, rfl⟩ := h.float_eq
      exact forall_mem_of_eq_nil rfl
  | .tuple items => by
      rw [HasType, typeOfConstant] at h
      obtain ⟨types, htypes, h⟩ := h.of_bind
      obtain ⟨home, rfl⟩ := h.of_intern
      rw [Ty.within_tuple]
      exact HasType.withins items types (hasType_of_typesOfConstants htypes) (within_tuple.mp own)
  | .list [] => by
      rw [HasType, typeOfConstant] at h
      obtain ⟨element, hobject, h⟩ := h.of_bind
      obtain ⟨home, rfl⟩ := h.of_intern
      obtain ⟨home', rfl⟩ := hobject.of_intern
      exact forall_mem_of_eq_nil rfl
  | .list (first :: rest) => by
      rw [HasType, typeOfConstant] at h
      obtain ⟨element, hfirst, h⟩ := h.of_bind
      obtain ⟨_, hrest, h⟩ := h.of_bind
      obtain ⟨home, rfl⟩ := h.of_intern
      exact HasType.within first element hfirst (within_list.mp own _ List.mem_cons_self)
  | .array value => by
      rw [HasType, typeOfConstant] at h
      obtain ⟨element, helement, h⟩ := h.of_bind
      obtain ⟨home, rfl⟩ := h.of_intern
      exact (within_of_ofDtype helement : element.Within V)
  | .record cls values => by
      obtain ⟨home, home', attributes, rfl, -, types, htypes, hattributes⟩ := h.record_eq
      obtain ⟨hcls, hvalues⟩ := within_record.mp own
      rw [within_recordType] at hcls
      rw [Ty.within_record]
      refine ⟨?_, hcls.2⟩
      rcases hattributes with rfl | ⟨rfl, -⟩
      · intro a ha
        exact HasType.withins values types htypes hvalues _ (List.of_mem_zip ha).2
      · exact hcls.1
  | .recordType cls => by
      obtain ⟨cache, rfl⟩ := Makes.of_lift h
      exact Ty.within_record.mpr (within_recordType.mp own)

theorem HasType.withins (cs : List Constant) (ts : List Ty) (h : List.Forall₂ HasType cs ts)
    (own : ∀ c ∈ cs, c.Within V) : ∀ t ∈ ts, t.Within V :=
  match cs, ts, h with
  | [], [], _ => by simp
  | c :: cs, t :: ts, .cons first rest => by
      rw [List.forall_mem_cons] at own ⊢
      exact ⟨HasType.within c t first own.1, HasType.withins cs ts rest own.2⟩

end

end Constant

/-! ## Properties -/

theorem within_inferrer (f : Inferrer) : (Property.inferrer f).Within V :=
  forall_mem_of_eq_nil rfl

/-- The element of a container mentions what the container does. -/
theorem Property.Within.toElement {p q : Property} {track : Track} (own : p.Within V)
    (found : p.toElement track = .ok q) : q.Within V := by
  cases track with
  | value =>
    cases found
    exact forall_mem_of_eq_nil rfl
  | type =>
    cases p with
    | type t =>
      simp only [Property.toElement, Property.toType, bind, Except.bind] at found
      cases helement : t.element? with
      | none => simp [helement] at found
      | some e =>
        obtain rfl : Property.type e = q := by simpa [helement] using found
        exact Ty.Within.element? own helement
    | _ => cases found
  | shape =>
    cases p with
    | shape s =>
      simp only [Property.toElement, Property.toShape, bind, Except.bind] at found
      cases helement : s.toElement with
      | error e => simp [helement] at found
      | ok e =>
        obtain rfl : Property.shape e = q := by simpa [helement, pure, Except.pure] using found
        exact forall_mem_of_eq_nil rfl
    | _ => cases found

theorem VirtualProps.Within.get? {props : VirtualProps} (own : props.Within V) {track : Track}
    {p : Property} (found : props.get? track = some p) : p.Within V := by
  cases track with
  | value => exact own.value p found
  | type => exact own.type p found
  | shape => exact own.shape p found

theorem ArgProps.Within.get {a : ArgProps} (own : a.Within V) (track : Track) :
    (a.get track).Within V := by
  cases track with
  | value => exact own.value
  | type => exact own.type
  | shape => exact own.shape

namespace Context

variable {c : Context}

/-- Frames that are left out were the innermost ones. -/
theorem Within.dropTo (own : c.Within V) (g : GraphId) : (c.dropTo g).Within V := by
  induction c with
  | empty => trivial
  | frame parent graph args ih =>
    rw [Context.dropTo]
    split
    · exact own
    · exact ih own.1

theorem Within.filter (own : c.Within V) (start : Option GraphId) : (c.filter start).Within V := by
  cases start with
  | none => trivial
  | some g => exact own.dropTo g

theorem Within.frameArgument? (own : c.Within V) {index : Nat} {track : Track} {p : Property}
    (found : c.frameArgument? index track = some p) : p.Within V := by
  cases c with
  | empty => cases found
  | frame parent graph args =>
    obtain ⟨a, ha, rfl⟩ := Option.map_eq_some_iff.mp found
    exact (own.2.2 a (List.mem_of_getElem? ha)).get track

end Context

end ArrayInference
