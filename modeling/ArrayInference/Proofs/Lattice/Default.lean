import ArrayInference.Proofs.Tracks.Shaped

/-!
# The shape of a type about which nothing else is known

A type has a shape of its own as long as no array is found in it. A part is reached by a path of
positions, and where one path comes before another in the order of lists, a walk that goes into each
part before it goes on to the next one comes to it first. Main statement: what the shape looks like
when there is one, and that the first array of such a walk is to blame when there is none.
-/

namespace ArrayInference

/-- What a path of positions leads to. -/
def partAt? {α : Type} (parts : α → List α) : List Nat → α → Option α
  | [], a => some a
  | i :: path, a => (parts a)[i]?.bind (partAt? parts path)

theorem partAt?_cons {α : Type} {parts : α → List α} {i : Nat} {path : List Nat} {a b : α} :
    partAt? parts (i :: path) a = some b
      ↔ ∃ part, (parts a)[i]? = some part ∧ partAt? parts path part = some b :=
  Option.bind_eq_some_iff

theorem forall₂_map_snd_of_names {α β : Type} {R : α → β → Prop} {as : List (String × α)}
    {bs : List (String × β)} (names : as.map (·.1) = bs.map (·.1))
    (each : ∀ {i : Nat} {a : String × α} {b : String × β}, as[i]? = some a → bs[i]? = some b →
      R a.2 b.2) : List.Forall₂ R (as.map (·.2)) (bs.map (·.2)) := by
  rw [List.forall₂_map_left_iff, List.forall₂_map_right_iff]
  exact (forall₂_of_names names each).imp fun _ _ h => h.2

/-- A failure is that of the first element that fails. -/
theorem exists_of_mapM_error {ε α β : Type} {f : α → Except ε β} {xs : List α} {e : ε}
    (h : xs.mapM f = .error e) :
    ∃ (i : Nat) (x : α), xs[i]? = some x ∧ f x = .error e
      ∧ ∀ j < i, ∀ y, xs[j]? = some y → ∃ b, f y = .ok b := by
  induction xs with
  | nil => cases h
  | cons x xs ih =>
    rw [List.mapM_cons] at h
    cases hx : f x with
    | error e' =>
      rw [hx] at h
      cases h
      exact ⟨0, x, rfl, hx, fun j hj => absurd hj (Nat.not_lt_zero j)⟩
    | ok b =>
      rw [hx] at h
      cases hxs : xs.mapM f with
      | ok bs =>
        rw [hxs] at h
        cases h
      | error e' =>
        rw [hxs] at h
        cases h
        obtain ⟨i, y, hy, fails, earlier⟩ := ih hxs
        refine ⟨i + 1, y, hy, fails, fun j hj z hz => ?_⟩
        cases j with
        | zero =>
          cases hz
          exact ⟨b, hx⟩
        | succ j => exact earlier j (Nat.lt_of_succ_lt_succ hj) z hz

theorem exists_mapM_ok_iff {ε α β : Type} {f : α → Except ε β} {xs : List α} :
    (∃ ys, xs.mapM f = .ok ys) ↔ ∀ x ∈ xs, ∃ y, f x = .ok y := by
  constructor
  · rintro ⟨ys, h⟩ x hx
    obtain ⟨i, hi⟩ := List.getElem?_of_mem hx
    have each := mapM_eq_ok_iff.mp h
    have hj : i < ys.length := each.length_eq ▸ (List.getElem?_eq_some_iff.mp hi).1
    exact ⟨ys[i], forall₂_getElem? each hi (List.getElem?_eq_getElem hj)⟩
  · intro each
    cases h : xs.mapM f with
    | ok ys => exact ⟨ys, rfl⟩
    | error e =>
      obtain ⟨i, x, hx, fails, -⟩ := exists_of_mapM_error h
      obtain ⟨y, hy⟩ := each x (List.mem_of_getElem? hx)
      rw [fails] at hy
      cases hy

namespace Ty

/-- The parts of a type that stand for parts of its values, from left to right. The element of an
array is none of them, nor is what a function takes and gives. -/
def parts : Ty → List Ty
  | tuple _ es => es
  | list _ e => [e]
  | record _ _ as _ => as.map (·.2)
  | _ => []

/-- Whether this is an instantiated array. -/
def isArray : Ty → Bool
  | array .. => true
  | _ => false

/-- A generic type of any family, or a type without parts. -/
def isPlain : Ty → Bool
  | tuple .. | list .. | array .. | record .. => false
  | _ => true

/-- Induction from the parts of a type to the type. -/
theorem parts_induction {P : Ty → Prop} (whole : ∀ t : Ty, (∀ u ∈ t.parts, P u) → P t) (t : Ty) :
    P t := by
  refine whole t fun u hu => ?_
  have : sizeOf u < sizeOf t := by
    cases t with
    | tuple _ es =>
      have : sizeOf u < sizeOf es := List.sizeOf_lt_of_mem hu
      simp only [tuple.sizeOf_spec]
      omega
    | list _ e =>
      cases List.mem_singleton.mp hu
      simp only [list.sizeOf_spec]
      omega
    | record _ _ as _ =>
      obtain ⟨⟨name, v⟩, ha, rfl⟩ := List.mem_map.mp hu
      have := List.sizeOf_lt_of_mem ha
      simp only [record.sizeOf_spec, Prod.mk.sizeOf_spec] at this ⊢
      omega
    | _ => cases hu
  exact parts_induction whole u
termination_by sizeOf t

/-- The array that a walk through the type comes to first, and the path to it. -/
structure FirstArray (t : Ty) (path : List Nat) (a : Ty) : Prop where
  found : partAt? parts path t = some a
  isArray : a.isArray = true
  first : ∀ {other b}, partAt? parts other t = some b → b.isArray = true →
    ¬ List.Lex (· < ·) other path

namespace FirstArray

variable {t u a b : Ty} {path other : List Nat}

theorem unique (h : FirstArray t path a) (h' : FirstArray t other b) : a = b := by
  have same : path = other :=
    List.le_antisymm (h.first h'.found h'.isArray) (h'.first h.found h.isArray)
  have hb := h'.found
  rw [← same, h.found, Option.some.injEq] at hb
  exact hb

/-- An array comes before all that is in it. -/
theorem whole (h : t.isArray = true) : FirstArray t [] t where
  found := rfl
  isArray := h
  first := fun _ _ before => nomatch before

/-- The first array of a part is the first one of the whole, if no part before it has any. -/
theorem part {i : Nat} (plain : t.isArray = false) (hu : t.parts[i]? = some u)
    (h : FirstArray u path a)
    (earlier : ∀ j < i, ∀ v, t.parts[j]? = some v →
      ∀ path b, partAt? parts path v = some b → b.isArray = false) :
    FirstArray t (i :: path) a where
  found := partAt?_cons.mpr ⟨u, hu, h.found⟩
  isArray := h.isArray
  first := by
    intro other b hb array before
    cases before with
    | nil =>
      cases hb
      rw [plain] at array
      cases array
    | rel before =>
      obtain ⟨v, hv, hb⟩ := partAt?_cons.mp hb
      rw [earlier _ before v hv _ b hb] at array
      cases array
    | cons before =>
      obtain ⟨v, hv, hb⟩ := partAt?_cons.mp hb
      rw [hu, Option.some.injEq] at hv
      exact h.first (hv ▸ hb) array before

end FirstArray

end Ty

namespace Shape

/-- The parts of a shape, from left to right. -/
def parts : Shape → List Shape
  | tuple ss => ss
  | list s => [s]
  | record as => as.map (·.2)
  | _ => []

/-- The shape has the structure of the type, level by level, and says no more than that. -/
inductive Mirrors : Ty → Shape → Prop where
  | tuple {home : CacheId} {ts : List Ty} {ss : List Shape} (length_eq : ts.length = ss.length)
      (each : ∀ {i : Nat} {t : Ty} {s : Shape}, ts[i]? = some t → ss[i]? = some s → Mirrors t s) :
      Mirrors (.tuple home ts) (.tuple ss)
  | list {home : CacheId} {t : Ty} {s : Shape} (element : Mirrors t s) :
      Mirrors (.list home t) (.list s)
  | record {home : CacheId} {tag : ClassTag} {as : List (String × Ty)}
      {methods : List (String × GraphId)} {bs : List (String × Shape)}
      (names : as.map (·.1) = bs.map (·.1))
      (each : ∀ {i : Nat} {a : String × Ty} {b : String × Shape}, as[i]? = some a →
        bs[i]? = some b → Mirrors a.2 b.2) :
      Mirrors (.record home tag as methods) (.record bs)
  | plain {t : Ty} (plain : t.isPlain = true) : Mirrors t .noShape

/-! ## The shape of a type by the shapes of its parts -/

/-- A shape that has the structure of the type and the given parts. -/
def assemble : Ty → List Shape → Shape
  | .tuple .., ss => tuple ss
  | .list .., ss => list (ss.headD noShape)
  | .record _ _ as _, ss => record ((as.map (·.1)).zip ss)
  | _, _ => noShape

theorem ofTypes_eq_mapM (ts : List Ty) : ofTypes ts = ts.mapM ofType := by
  induction ts with
  | nil => rfl
  | cons t ts ih => rw [ofTypes, List.mapM_cons, ih]

theorem ofAttributes_eq_mapM (as : List (String × Ty)) :
    ofAttributes as = ((as.map (·.2)).mapM ofType).map ((as.map (·.1)).zip ·) := by
  induction as with
  | nil => rfl
  | cons a as ih =>
    obtain ⟨name, t⟩ := a
    rw [ofAttributes, ih, List.map_cons, List.map_cons, List.mapM_cons]
    cases ofType t with
    | error e => rfl
    | ok s => cases (as.map (·.2)).mapM ofType <;> rfl

theorem ofType_of_isArray {t : Ty} (h : t.isArray = true) :
    ofType t = .error (.unsupported ("there is no default shape for " ++ t.text)) := by
  cases t with
  | array => rw [ofType]
  | _ => cases h

theorem ofType_eq_assemble {t : Ty} (h : t.isArray = false) :
    ofType t = (t.parts.mapM ofType).map (assemble t) := by
  cases t with
  | array => cases h
  | tuple home ts =>
    rw [ofType, ofTypes_eq_mapM, Ty.parts]
    cases ts.mapM ofType <;> rfl
  | list home t =>
    rw [ofType, Ty.parts, List.mapM_cons]
    cases ofType t <;> rfl
  | record home tag as methods =>
    rw [ofType, ofAttributes_eq_mapM, Ty.parts]
    cases (as.map (·.2)).mapM ofType <;> rfl
  | _ => rfl

theorem exists_ofType_iff {t : Ty} :
    (∃ s, ofType t = .ok s) ↔ t.isArray = false ∧ ∀ u ∈ t.parts, ∃ s, ofType u = .ok s := by
  cases h : t.isArray with
  | true => simp [ofType_of_isArray h]
  | false =>
    rw [ofType_eq_assemble h, ← exists_mapM_ok_iff]
    cases t.parts.mapM ofType <;> simp [Except.map]

/-! ## What the shape looks like -/

theorem mirrors_assemble {t : Ty} {ss : List Shape} (h : t.isArray = false)
    (each : List.Forall₂ Mirrors t.parts ss) : Mirrors t (assemble t ss) := by
  cases t with
  | array => cases h
  | tuple home ts => exact .tuple each.length_eq fun ht hs => forall₂_getElem? each ht hs
  | list home t =>
    obtain ⟨s, rest, element, -, rfl⟩ := List.forall₂_cons_left_iff.mp each
    exact .list element
  | record home tag as methods =>
    have length_eq : as.length = ss.length := by simpa [Ty.parts] using each.length_eq
    refine .record ?_ fun {i a b} ha hb => ?_
    · rw [List.map_fst_zip]
      simp [length_eq]
    · have hs := (List.getElem?_zip_eq_some.mp hb).2
      exact forall₂_getElem? each (by simp [Ty.parts, ha]) hs
  | _ => exact .plain rfl

theorem mirrors_of_ofType {t : Ty} {s : Shape} (h : ofType t = .ok s) : Mirrors t s := by
  induction t using Ty.parts_induction generalizing s with
  | whole t ih =>
    cases array : t.isArray with
    | true =>
      rw [ofType_of_isArray array] at h
      cases h
    | false =>
      rw [ofType_eq_assemble array] at h
      cases hss : t.parts.mapM ofType with
      | error e =>
        rw [hss] at h
        cases h
      | ok ss =>
        rw [hss] at h
        cases h
        have each := (List.forall₂_and_left _ _).mpr ⟨ih, mapM_eq_ok_iff.mp hss⟩
        exact mirrors_assemble array (each.imp fun _ _ ⟨mirrors, hs⟩ => mirrors hs)

theorem ofType_of_mirrors {t : Ty} {s : Shape} (h : Mirrors t s) : ofType t = .ok s := by
  induction h with
  | @tuple home ts ss length_eq each ih =>
    rw [ofType, ofTypes_eq_mapM, mapM_eq_ok_iff.mpr (forall₂_of_getElem? length_eq ih)]
    rfl
  | list _ ih =>
    rw [ofType, ih]
    rfl
  | @record home tag as methods bs names each ih =>
    rw [ofType, ofAttributes_eq_mapM, mapM_eq_ok_iff.mpr (forall₂_map_snd_of_names names ih), names]
    show Except.ok (record ((bs.map (·.1)).zip (bs.map (·.2)))) = _
    rw [List.zip_map', List.map_id']
  | @plain t plain =>
    cases t with
    | tuple | list | array | record => cases plain
    | _ => rfl

theorem ofType_eq_ok_iff {t : Ty} {s : Shape} : ofType t = .ok s ↔ Mirrors t s :=
  ⟨mirrors_of_ofType, ofType_of_mirrors⟩

theorem Mirrors.parts {t : Ty} {s : Shape} (h : Mirrors t s) :
    List.Forall₂ Mirrors t.parts s.parts := by
  cases h with
  | tuple length_eq each => exact forall₂_of_getElem? length_eq each
  | list element => exact .cons element .nil
  | record names each => exact forall₂_map_snd_of_names names each
  | plain plain =>
    cases t with
    | tuple | list | array | record => cases plain
    | _ => exact .nil

/-- Whatever is found in the shape mirrors some type. -/
theorem Mirrors.exists_of_found {t : Ty} {s part : Shape} {path : List Nat} (h : Mirrors t s)
    (found : partAt? Shape.parts path s = some part) : ∃ u, Mirrors u part := by
  induction path generalizing t s with
  | nil =>
    cases found
    exact ⟨t, h⟩
  | cons i path ih =>
    obtain ⟨s', hs', found⟩ := partAt?_cons.mp found
    have hi : i < t.parts.length :=
      h.parts.length_eq ▸ (List.getElem?_eq_some_iff.mp hs').1
    exact ih (forall₂_getElem? h.parts (List.getElem?_eq_getElem hi) hs') found

theorem Mirrors.ne_dims {t : Ty} {s : Shape} (h : Mirrors t s) (ds : List Dim) : s ≠ dims ds := by
  rintro rfl
  cases h

/-! ## Where there is no shape -/

theorem exists_ofType_iff_arrayless {t : Ty} :
    (∃ s, ofType t = .ok s)
      ↔ ∀ path a, partAt? Ty.parts path t = some a → a.isArray = false := by
  induction t using Ty.parts_induction with
  | whole t ih =>
    rw [exists_ofType_iff]
    constructor
    · rintro ⟨plain, each⟩ path a found
      cases path with
      | nil =>
        cases found
        exact plain
      | cons i path =>
        obtain ⟨u, hu, found⟩ := partAt?_cons.mp found
        have member := List.mem_of_getElem? hu
        exact (ih u member).mp (each u member) path a found
    · intro arrayless
      refine ⟨arrayless [] t rfl, fun u member => (ih u member).mpr fun path a found => ?_⟩
      obtain ⟨i, hu⟩ := List.getElem?_of_mem member
      exact arrayless (i :: path) a (partAt?_cons.mpr ⟨u, hu, found⟩)

theorem exists_firstArray {t : Ty} {e : InferError} (h : ofType t = .error e) :
    ∃ path a, t.FirstArray path a
      ∧ e = .unsupported ("there is no default shape for " ++ a.text) := by
  induction t using Ty.parts_induction with
  | whole t ih =>
    cases array : t.isArray with
    | true =>
      rw [ofType_of_isArray array] at h
      cases h
      exact ⟨[], t, .whole array, rfl⟩
    | false =>
      have fails : t.parts.mapM ofType = .error e := by
        rw [ofType_eq_assemble array] at h
        cases hparts : t.parts.mapM ofType <;> rw [hparts] at h <;> cases h
        rfl
      obtain ⟨i, u, hu, blamed, earlier⟩ := exists_of_mapM_error fails
      obtain ⟨path, a, first, rfl⟩ := ih u (List.mem_of_getElem? hu) blamed
      refine ⟨i :: path, a, .part array hu first fun j hj v hv => ?_, rfl⟩
      exact exists_ofType_iff_arrayless.mp (earlier j hj v hv)

/-- A type has a shape of its own as long as no array is found in it. The shape mirrors the type and
has no dimensions anywhere. Where there is none, the first array is to blame. -/
theorem ofType_fails_at_arrays (t : Ty) :
    ((∃ s, ofType t = .ok s)
        ↔ ∀ path a, partAt? Ty.parts path t = some a → a.isArray = false)
      ∧ (∀ s, ofType t = .ok s ↔ Mirrors t s)
      ∧ (∀ s, ofType t = .ok s → ∀ path ds, partAt? Shape.parts path s ≠ some (dims ds))
      ∧ ∀ e, ofType t = .error e ↔ ∃ path a, t.FirstArray path a
          ∧ e = .unsupported ("there is no default shape for " ++ a.text) := by
  refine ⟨exists_ofType_iff_arrayless, fun _ => ofType_eq_ok_iff, ?_,
    fun e => ⟨exists_firstArray, ?_⟩⟩
  · intro s h path ds found
    obtain ⟨u, mirrors⟩ := (mirrors_of_ofType h).exists_of_found found
    exact mirrors.ne_dims ds rfl
  · rintro ⟨path, a, first, rfl⟩
    cases h : ofType t with
    | ok s =>
      have plain := exists_ofType_iff_arrayless.mp ⟨s, h⟩ path a first.found
      rw [first.isArray] at plain
      cases plain
    | error e =>
      obtain ⟨_, b, first', rfl⟩ := exists_firstArray h
      rw [first.unique first']

/-- The array in the list comes before the one that stands by itself. -/
example (home : CacheId) (a b : Ty) :
    ofType (.tuple home [.generic home .array, .list home (.array home a), .array home b])
      = .error (.unsupported ("there is no default shape for " ++ (Ty.array home a).text)) := rfl

end Shape

end ArrayInference
