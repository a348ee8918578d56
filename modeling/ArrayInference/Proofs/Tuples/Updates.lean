import ArrayInference.Proofs.Folding.Integers
import ArrayInference.Proofs.Infer.Answered
import ArrayInference.Proofs.Types.Canonical

/-!
# Look-ups and updates of tuples

A tuple is looked up and updated by a known index, which counts from the end if it is negative. On the type
track and on the shape track look-ups and updates obey the laws of arrays, and both tracks and the constants
agree on the position that an index names. Main statement: `tuple_laws`.
-/

namespace ArrayInference

/-! ## Positions -/

/-- An index names a position among `count` items, from the front or from the end. -/
def Points (index : Int) (count position : Nat) : Prop :=
  position < count ∧ (index = position ∨ index + count = position)

/-- An index lies between the ends of `count` items, counted from either of them. -/
def Indexes (index : Int) (count : Nat) : Prop :=
  -(count : Int) ≤ index ∧ index < count

section

variable {index : Int} {count position : Nat}

theorem position?_eq_some : position? index count = some position ↔ Points index count position := by
  rw [position?, Points]
  by_cases negative : index < 0
  · rw [if_pos negative]
    split <;> simp <;> omega
  · rw [if_neg negative]
    split <;> simp <;> omega

/-- The indices from `-count` up to `count` name a position each, and no others do. -/
theorem exists_points_iff : (∃ position, Points index count position) ↔ Indexes index count := by
  constructor
  · rintro ⟨position, bound, front | back⟩ <;> exact ⟨by omega, by omega⟩
  · rintro ⟨lower, upper⟩
    by_cases negative : index < 0
    · exact ⟨(index + count).toNat, by omega, by omega⟩
    · exact ⟨index.toNat, by omega, by omega⟩

theorem position?_of_out (out : ¬ Indexes index count) :
    position? index count = none := by
  rw [← exists_points_iff, not_exists] at out
  rw [Option.eq_none_iff_forall_ne_some]
  intro position found
  exact out position (position?_eq_some.mp found)

end

/-- The position that an index names, computed in words of 64 bits. -/
def wordPosition? (index : Int64) (count : Nat) : Option Nat :=
  let resolved := if index < 0 then index + Int64.ofNat count else index
  if 0 ≤ resolved ∧ resolved < Int64.ofNat count then some resolved.toInt.toNat else none

theorem toInt_count {count : Nat} (bound : InRange count) : (Int64.ofNat count).toInt = count := by
  apply Int64.toInt_ofNat_of_lt
  have upper := bound.2
  omega

/-- The sum stays in range: a negative index is added to a count. -/
theorem toInt_add_count {index : Int64} {count : Nat} (bound : InRange count) (negative : index < 0) :
    (index + Int64.ofNat count).toInt = index.toInt + count := by
  have below : index.toInt < 0 := Int64.lt_iff_toInt_lt.mp negative
  obtain ⟨lower, -⟩ := inRange_toInt index
  have upper := bound.2
  rw [Int64.toInt_add, toInt_count bound]
  exact bmod_of_inRange ⟨by omega, by omega⟩

theorem wordPosition?_eq (index : Int64) {count : Nat} (bound : InRange count) :
    wordPosition? index count = position? index.toInt count := by
  have sign : index < 0 ↔ index.toInt < 0 := Int64.lt_iff_toInt_lt
  have resolved : (if index < 0 then index + Int64.ofNat count else index).toInt
      = if index.toInt < 0 then index.toInt + count else index.toInt := by
    by_cases negative : index < 0
    · rw [if_pos negative, toInt_add_count bound negative, if_pos (sign.mp negative)]
    · rw [if_neg negative, if_neg (mt sign.mpr negative)]
  rw [wordPosition?, position?]
  simp only [Int64.le_iff_toInt_le, Int64.lt_iff_toInt_lt (y := Int64.ofNat count),
    toInt_count bound, resolved]
  rfl

namespace Rule

variable {α : Type} {k : Int64} {count position : Nat} {items : List α}

theorem tuplePosition_eq_ok :
    tuplePosition (.int k) count = .ok position ↔ Points k.toInt count position := by
  rw [← position?_eq_some, tuplePosition]
  cases position? k.toInt count <;> simp

theorem tuplePosition_of_out (out : ¬ Indexes k.toInt count) :
    tuplePosition (.int k) count = .error (outOfRange k count) := by
  rw [tuplePosition, position?_of_out out]

theorem tupleItem_of_points {item : α} (points : Points k.toInt items.length position)
    (found : items[position]? = some item) : tupleItem (.int k) items = .ok item := by
  rw [tupleItem, position?_eq_some.mpr points, Option.bind_some, found]

theorem tupleItem_of_out (out : ¬ Indexes k.toInt items.length) :
    tupleItem (.int k) items = .error (outOfRange k items.length) := by
  rw [tupleItem, position?_of_out out, Option.bind_none]

/-- After an item is replaced, look-ups at other positions find what they found before. -/
theorem tupleItem_set_of_ne {new : α} {l : Int64} (other : ¬ Points l.toInt items.length position) :
    tupleItem (.int l) (items.set position new) = tupleItem (.int l) items := by
  rw [tupleItem, tupleItem, List.length_set]
  have same : (position? l.toInt items.length).bind (fun n => (items.set position new)[n]?)
      = (position? l.toInt items.length).bind fun n => items[n]? := by
    cases found : position? l.toInt items.length with
    | none => rfl
    | some n =>
      have apart : position ≠ n := by
        rintro rfl
        exact other (position?_eq_some.mp found)
      rw [Option.bind_some, Option.bind_some, List.getElem?_set_ne apart]
  rw [same]

end Rule

/-! ## What a track makes of tuples -/

/-- The properties that a track has of references, and its rules for tuples. -/
structure TupleView (α : Type) where
  Has : Answers → Ref → α → Prop
  property : α → Property
  tuple : List α → α
  getItem : Rule
  setItem : Rule

namespace TupleView

/-- The types of one cache. -/
def types (home : CacheId) : TupleView Ty where
  Has := Answers.Types
  property := .type
  tuple := .tuple home
  getItem := TypeRules.tupleGetItem
  setItem := TypeRules.tupleSetItem

def shapes : TupleView Shape where
  Has := Answers.Shapes
  property := .shape
  tuple := .tuple
  getItem := ShapeRules.tupleGetItem
  setItem := ShapeRules.tupleSetItem

/-- The rules go by the position that the index names. -/
structure Ruled {α : Type} (v : TupleView α) (w : Answers) : Prop where
  property_injective : ∀ {a b : α}, v.property a = v.property b → a = b
  get : ∀ {track : Track} {t i : Ref} {items : List α} {c : Constant}, v.Has w t (v.tuple items) →
    w.Knows i c →
      (v.getItem track [t, i]).result? w = some ((Rule.tupleItem c items).map v.property)
  set : ∀ {track : Track} {t i x : Ref} {items : List α} {c : Constant} {new : α},
    v.Has w t (v.tuple items) → w.Knows i c → v.Has w x new →
      (v.setItem track [t, i, x]).result? w
        = some ((Rule.tuplePosition c items.length).map fun n => v.property (v.tuple (items.set n new)))

end TupleView

namespace Answers

variable {w : Answers}

/-- Types are made in the cache of `home`. -/
def MakesIn (w : Answers) (home : CacheId) : Prop :=
  ∀ make : CacheId → Ty, w.query (.intern (Interning.intern make)) = make home

/-- An engine makes types in its own cache. -/
theorem makesIn (e : Engine) : e.answers.MakesIn e.types.home :=
  fun _ => rfl

theorem Knows.constantOf {i : Ref} {c : Constant} (known : w.Knows i c) (what : String) :
    (Infer.constantOf i what).result? w = some (.ok c) := by
  rw [Infer.constantOf, Infer.result?_of_ok known]
  rfl

section

variable {α : Type} {i : Ref} {c : Constant} {what : String} {readItems : Infer (List α)}
  {items : List α}

/-- Both tracks look an item up in the same way, once they have the items. -/
theorem Knows.result?_getItem (known : w.Knows i c) (read : readItems.result? w = some (.ok items))
    (property : α → Property) :
    (do
      let index ← Infer.constantOf i what
      let items ← readItems
      let item ← Infer.ofExcept (Rule.tupleItem index items)
      Infer.done (property item)).result? w = some ((Rule.tupleItem c items).map property) := by
  rw [Infer.result?_of_ok (known.constantOf _), Infer.result?_of_ok read]
  exact Infer.result?_ofExcept_seq _ _

/-- Both tracks replace an item in the same way, once they have the items and the new one. -/
theorem Knows.result?_setItem (known : w.Knows i c) (read : readItems.result? w = some (.ok items))
    {readNew : Infer α} {new : α} (item : readNew.result? w = some (.ok new))
    (make : List α → Infer Property) {property : List α → Property}
    (makes : ∀ items, (make items).result? w = some (.ok (property items))) :
    (do
      let index ← Infer.constantOf i what
      let items ← readItems
      let n ← Infer.ofExcept (Rule.tuplePosition index items.length)
      let new ← readNew
      make (items.set n new)).result? w
        = some ((Rule.tuplePosition c items.length).map fun n => property (items.set n new)) := by
  rw [Infer.result?_of_ok (known.constantOf _), Infer.result?_of_ok read]
  cases Rule.tuplePosition c items.length with
  | error e => rfl
  | ok n => exact (Infer.result?_of_ok item _).trans (makes _)

end

theorem MakesIn.ruled {home : CacheId} (makes : w.MakesIn home) : (TupleView.types home).Ruled w := by
  have read {t : Ref} {items : List Ty} (tuple : w.Types t (.tuple home items)) :
      (Infer.tupleElements t).result? w = some (.ok items) := by
    rw [Infer.tupleElements, Infer.result?_of_ok tuple]
    rfl
  constructor
  case property_injective => exact Property.type.inj
  case get =>
    intro track t i items c tuple known
    exact known.result?_getItem (read tuple) Property.type
  case set =>
    intro track t i x items c new tuple known item
    have made (items : List Ty) : (Infer.newType (Interning.tuple items)).result? w
        = some (.ok (.type (.tuple home items))) := by
      show some (Except.ok (Property.type (w.query (.intern (Interning.tuple items))))) = _
      rw [Interning.tuple, makes]
    exact known.result?_setItem (read tuple) item (fun items => Infer.newType (.tuple items)) made

theorem shapes_ruled (w : Answers) : TupleView.shapes.Ruled w := by
  have read {t : Ref} {items : List Shape} (tuple : w.Shapes t (.tuple items)) :
      (Infer.tupleShapes t).result? w = some (.ok items) := by
    rw [Infer.tupleShapes, Infer.result?_of_ok tuple]
    rfl
  constructor
  case property_injective => exact Property.shape.inj
  case get =>
    intro track t i items c tuple known
    exact known.result?_getItem (read tuple) Property.shape
  case set =>
    intro track t i x items c new tuple known item
    exact known.result?_setItem (read tuple) item (fun items => Infer.shape (.tuple items))
      fun _ => rfl

end Answers

/-! ## The laws of arrays -/

namespace TupleView

-- `t` is a tuple, `i` an index into it, `x` the new item, and `u` stands for the updated tuple.
variable {α : Type} {v : TupleView α} {w : Answers} {track : Track} {t i x u : Ref}
  {items : List α} {k : Int64} {new old : α} {position : Nat}

namespace Ruled

theorem get_of_points (ruled : v.Ruled w) (tuple : v.Has w t (v.tuple items))
    (index : w.Knows i (.int k)) (points : Points k.toInt items.length position)
    (found : items[position]? = some old) :
    (v.getItem track [t, i]).result? w = some (.ok (v.property old)) := by
  rw [ruled.get tuple index, Rule.tupleItem_of_points points found]
  rfl

theorem get_of_out (ruled : v.Ruled w) (tuple : v.Has w t (v.tuple items))
    (index : w.Knows i (.int k)) (out : ¬ Indexes k.toInt items.length) :
    (v.getItem track [t, i]).result? w = some (.error (Rule.outOfRange k items.length)) := by
  rw [ruled.get tuple index, Rule.tupleItem_of_out out]
  rfl

theorem set_of_points (ruled : v.Ruled w) (tuple : v.Has w t (v.tuple items))
    (index : w.Knows i (.int k)) (item : v.Has w x new)
    (points : Points k.toInt items.length position) :
    (v.setItem track [t, i, x]).result? w
      = some (.ok (v.property (v.tuple (items.set position new)))) := by
  rw [ruled.set tuple index item, Rule.tuplePosition_eq_ok.mpr points]
  rfl

theorem set_of_out (ruled : v.Ruled w) (tuple : v.Has w t (v.tuple items))
    (index : w.Knows i (.int k)) (item : v.Has w x new) (out : ¬ Indexes k.toInt items.length) :
    (v.setItem track [t, i, x]).result? w = some (.error (Rule.outOfRange k items.length)) := by
  rw [ruled.set tuple index item, Rule.tuplePosition_of_out out]
  rfl

end Ruled

/-- A tuple is updated, and a reference stands for what the update gives. -/
structure Updated (v : TupleView α) (w : Answers) (t i x u : Ref) (items : List α) (k : Int64)
    (new : α) : Prop where
  tuple : v.Has w t (v.tuple items)
  index : w.Knows i (.int k)
  item : v.Has w x new
  given : ∃ track updated, (v.setItem track [t, i, x]).result? w = some (.ok (v.property updated))
    ∧ v.Has w u updated

/-- The item at the position is replaced, and nothing else. -/
theorem Updated.has (updated : v.Updated w t i x u items k new) (ruled : v.Ruled w)
    (points : Points k.toInt items.length position) :
    v.Has w u (v.tuple (items.set position new)) := by
  obtain ⟨track, whole, result, has⟩ := updated.given
  rw [ruled.set_of_points updated.tuple updated.index updated.item points, Option.some.injEq,
    Except.ok.injEq] at result
  rw [ruled.property_injective result]
  exact has

/-- Look-ups and updates obey the laws of arrays. -/
structure ArrayLaws (v : TupleView α) (w : Answers) : Prop where
  /-- A look-up succeeds exactly for the indices in range. -/
  get_iff : ∀ {track : Track} {t i : Ref} {items : List α} {k : Int64},
    v.Has w t (v.tuple items) → w.Knows i (.int k) →
      ((∃ p, (v.getItem track [t, i]).result? w = some (.ok p)) ↔ Indexes k.toInt items.length)
  /-- So does an update. -/
  set_iff : ∀ {track : Track} {t i x : Ref} {items : List α} {k : Int64} {new : α},
    v.Has w t (v.tuple items) → w.Knows i (.int k) → v.Has w x new →
      ((∃ p, (v.setItem track [t, i, x]).result? w = some (.ok p)) ↔ Indexes k.toInt items.length)
  /-- Otherwise both name the index and the number of items. -/
  out : ∀ {track : Track} {t i x : Ref} {items : List α} {k : Int64} {new : α},
    v.Has w t (v.tuple items) → w.Knows i (.int k) → v.Has w x new → ¬ Indexes k.toInt items.length →
      (v.getItem track [t, i]).result? w = some (.error (Rule.outOfRange k items.length))
        ∧ (v.setItem track [t, i, x]).result? w = some (.error (Rule.outOfRange k items.length))
  /-- At the position that was updated a look-up finds the new item, -/
  same : ∀ {track : Track} {t i x u j : Ref} {items : List α} {k l : Int64} {new : α} {p : Nat},
    v.Updated w t i x u items k new → w.Knows j (.int l) → Points k.toInt items.length p →
      Points l.toInt items.length p →
        (v.getItem track [u, j]).result? w = some (.ok (v.property new))
  /-- and with any other index it does what it did before. -/
  other : ∀ {track : Track} {t i x u j : Ref} {items : List α} {k l : Int64} {new : α} {p : Nat},
    v.Updated w t i x u items k new → w.Knows j (.int l) → Points k.toInt items.length p →
      ¬ Points l.toInt items.length p →
        (v.getItem track [u, j]).result? w = (v.getItem track [t, j]).result? w
  /-- Putting an item where it is changes nothing. -/
  idle : ∀ {track track' : Track} {t i y : Ref} {items : List α} {k : Int64} {old : α},
    v.Has w t (v.tuple items) → w.Knows i (.int k) →
      (v.getItem track [t, i]).result? w = some (.ok (v.property old)) → v.Has w y old →
        (v.setItem track' [t, i, y]).result? w = some (.ok (v.property (v.tuple items)))
  /-- Putting the old item back undoes an update. -/
  restore : ∀ {track track' : Track} {t i x u j y : Ref} {items : List α} {k l : Int64}
    {new old : α} {p : Nat}, v.Updated w t i x u items k new → w.Knows j (.int l) →
      Points k.toInt items.length p → Points l.toInt items.length p →
        (v.getItem track [t, i]).result? w = some (.ok (v.property old)) → v.Has w y old →
          (v.setItem track' [u, j, y]).result? w = some (.ok (v.property (v.tuple items)))

/-- What is found is an item of the tuple, at the position that the index names. -/
theorem Ruled.found (ruled : v.Ruled w) (tuple : v.Has w t (v.tuple items))
    (index : w.Knows i (.int k)) (points : Points k.toInt items.length position)
    (result : (v.getItem track [t, i]).result? w = some (.ok (v.property old))) :
    items[position]? = some old := by
  have item := List.getElem?_eq_getElem points.1
  rw [ruled.get_of_points tuple index points item, Option.some.injEq, Except.ok.injEq] at result
  rw [item, ruled.property_injective result]

theorem set_getElem?_self (found : items[position]? = some old) : items.set position old = items := by
  obtain ⟨bound, rfl⟩ := List.getElem?_eq_some_iff.mp found
  exact List.set_getElem_self bound

/-- What succeeds at every position and fails for the other indices succeeds for the indices in range. -/
theorem succeeds_iff {index : Int} {count : Nat} {r : Option (Except InferError Property)}
    {e : InferError} (inside : ∀ {p : Nat}, Points index count p → ∃ found, r = some (.ok found))
    (outside : ¬ Indexes index count → r = some (.error e)) :
    (∃ found, r = some (.ok found)) ↔ Indexes index count := by
  constructor
  · rintro ⟨found, result⟩
    by_contra out
    rw [outside out] at result
    cases result
  · intro indexes
    obtain ⟨position, points⟩ := exists_points_iff.mpr indexes
    exact inside points

theorem Ruled.get_iff (ruled : v.Ruled w) (tuple : v.Has w t (v.tuple items))
    (index : w.Knows i (.int k)) :
    (∃ p, (v.getItem track [t, i]).result? w = some (.ok p)) ↔ Indexes k.toInt items.length := by
  apply succeeds_iff _ (ruled.get_of_out tuple index)
  intro position points
  exact ⟨_, ruled.get_of_points tuple index points (List.getElem?_eq_getElem points.1)⟩

theorem Ruled.set_iff (ruled : v.Ruled w) (tuple : v.Has w t (v.tuple items))
    (index : w.Knows i (.int k)) (item : v.Has w x new) :
    (∃ p, (v.setItem track [t, i, x]).result? w = some (.ok p)) ↔ Indexes k.toInt items.length := by
  apply succeeds_iff _ (ruled.set_of_out tuple index item)
  intro position points
  exact ⟨_, ruled.set_of_points tuple index item points⟩

theorem Ruled.arrayLaws (ruled : v.Ruled w) : v.ArrayLaws w := by
  constructor
  case get_iff => exact ruled.get_iff
  case set_iff => exact ruled.set_iff
  case out =>
    intro track t i x items k new tuple index item out
    exact ⟨ruled.get_of_out tuple index out, ruled.set_of_out tuple index item out⟩
  case same =>
    intro track t i x u j items k l new p updated index points points'
    have inside : Points l.toInt (items.set p new).length p := by rwa [List.length_set]
    exact ruled.get_of_points (updated.has ruled points) index inside
      (List.getElem?_set_self points.1)
  case other =>
    intro track t i x u j items k l new p updated index points apart
    rw [ruled.get (updated.has ruled points) index, ruled.get updated.tuple index,
      Rule.tupleItem_set_of_ne apart]
  case idle =>
    intro track track' t i y items k old tuple index result item
    obtain ⟨p, points⟩ := exists_points_iff.mpr ((ruled.get_iff tuple index).mp ⟨_, result⟩)
    rw [ruled.set_of_points tuple index item points,
      set_getElem?_self (ruled.found tuple index points result)]
  case restore =>
    intro track track' t i x u j y items k l new old p updated index points points' result item
    have found := ruled.found updated.tuple updated.index points result
    rw [ruled.set_of_points (updated.has ruled points) index item (by rwa [List.length_set]),
      List.set_set, set_getElem?_self found]

end TupleView

/-- In a store of types the tuple type comes back itself when the old element is put back. -/
theorem TypeStore.Sound.restored {names : ObjectId → String} {s t : TypeStore} {h u x old : TypeId}
    {es : List TypeId} {generic : Option TypeId} {p : Nat} (sound : s.Sound names)
    (cell : s.types[h.index]? = some ⟨.tuple es, generic⟩) (held : s.Holds x)
    (found : es[p]? = some old)
    (updated : (Storing.intern (.tuple (es.set p x))).run s = (u, t)) :
    (Storing.intern (.tuple ((es.set p x).set p old))).run t = (h, t) := by
  have elements : ∀ e ∈ es.set p x, s.Holds e := by
    intro e he
    rcases List.mem_or_eq_of_mem_set he with old | rfl
    · exact (sound.fits cell).1 e old
    · exact held
  obtain ⟨t', _, _, run, -, sound', up, -⟩ := Storing.mirrors_tuple sound ⟨elements, rfl⟩
  rw [updated] at run
  cases run
  rw [List.set_set, TupleView.set_getElem?_self found]
  exact Storing.run_intern_of_some (sound'.interned.mpr ⟨generic, up.types cell⟩)

/-- What holds of tuples on the tracks, in constants, and in a store of types. -/
structure TupleLaws (w : Answers) (home : CacheId) : Prop where
  types : (TupleView.types home).ArrayLaws w
  shapes : TupleView.shapes.ArrayLaws w
  /-- An index names a position from the front or from the end. -/
  position : ∀ {k : Int64} {n p : Nat},
    Rule.tuplePosition (.int k) n = .ok p ↔ Points k.toInt n p
  /-- It names the same item of a constant tuple. -/
  item : ∀ (items : List Constant) (k : Int64),
    (Constant.tuple items).item? (.int k)
      = (Rule.tuplePosition (.int k) items.length).toOption.bind fun n => items[n]?
  /-- In words of 64 bits the position is the same, and the sum it takes does not overflow. -/
  words : ∀ {k : Int64} {n : Nat}, InRange n →
    wordPosition? k n = position? k.toInt n
      ∧ (k < 0 → (k + Int64.ofNat n).toInt = k.toInt + n)
  /-- The type of a tuple that is restored is the one that was there, and no other like it. -/
  restored : ∀ {names : ObjectId → String} {log : List (Request × Reply TypeId TagId)}
    {s t : TypeStore} {h u x old : TypeId} {es : List TypeId} {generic : Option TypeId} {p : Nat},
    TypeStore.Serves names (.empty home) log s →
      s.types[h.index]? = some ⟨.tuple es, generic⟩ → s.Holds x → es[p]? = some old →
        (Storing.intern (.tuple (es.set p x))).run s = (u, t) →
          (Storing.intern (.tuple ((es.set p x).set p old))).run t = (h, t)

/-- Look-ups and updates of tuples obey the laws of arrays on both tracks. -/
theorem Answers.MakesIn.tupleLaws {w : Answers} {home : CacheId} (makes : w.MakesIn home) :
    TupleLaws w home := by
  constructor
  case types => exact makes.ruled.arrayLaws
  case shapes => exact w.shapes_ruled.arrayLaws
  case position => exact Rule.tuplePosition_eq_ok
  case item =>
    intro items k
    rw [Constant.item?, Rule.tuplePosition]
    cases position? k.toInt items.length <;> rfl
  case words =>
    intro k n bound
    exact ⟨wordPosition?_eq k bound, toInt_add_count bound⟩
  case restored =>
    intro names log s t h u x old es generic p serves cell held found updated
    exact (serves.sound (.empty home)).1.restored cell held found updated

/-- A number and an array. -/
def numberAndArray : Ref :=
  .virtual
    { value := none
      type := some (.type (.tuple ⟨0⟩ [.int ⟨0⟩ 64, .array ⟨0⟩ (.float ⟨0⟩ 64)]))
      shape := some (.shape (.tuple [.noShape, .dims [.known 2, .known 3]])) }

/-- The index of the last item. -/
def lastIndex : Ref := .constant (.int (-1)) (.int ⟨0⟩ 64)

/-- The array is replaced by one of two columns. -/
theorem Answers.MakesIn.tupleLaws_last :
    ∃ w : Answers, w.MakesIn ⟨0⟩ ∧ TupleLaws w ⟨0⟩
      ∧ (ShapeRules.tupleSetItem .shape
          [numberAndArray, lastIndex, arrayOf [.known 5, .known 2]]).result? w
        = some (.ok (.shape (.tuple [.noShape, .dims [.known 5, .known 2]])))
      ∧ (TypeRules.tupleGetItem .type [numberAndArray, lastIndex]).result? w
        = some (.ok (.type (.array ⟨0⟩ (.float ⟨0⟩ 64)))) := by
  let e := Engine.new .empty (.empty ⟨0⟩) .standard
  have makes : e.answers.MakesIn ⟨0⟩ := makesIn e
  exact ⟨e.answers, makes, makes.tupleLaws, rfl, rfl⟩

end ArrayInference
