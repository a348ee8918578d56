import ArrayInference.Proofs.Table
import ArrayInference.Proofs.Types.Store
import Mathlib.Data.List.Induction

/-!
# What the cells of a store stand for

A cell refers to older cells only, every descriptor has at most one cell, the generic type of an
instance is there before it, and no two tags were made for the same thing. From these it follows that
two identities are the same exactly if what they stand for agrees all the way down, and that a cell
stands for the same type ever after.
-/

namespace ArrayInference

/-- Maps of two lists agree only if the lists do, where the function tells their members apart. -/
theorem eq_of_map_eq {α β : Type} {f : α → β} {xs ys : List α} (same : xs.map f = ys.map f)
    (apart : ∀ x ∈ xs, ∀ y ∈ ys, f x = f y → x = y) : xs = ys := by
  induction xs generalizing ys with
  | nil => simpa using same.symm
  | cons x xs ih =>
    cases ys with
    | nil => simp at same
    | cons y ys =>
      rw [List.map_cons, List.map_cons, List.cons.injEq] at same
      rw [apart x (by simp) y (by simp) same.1,
        ih same.2 fun a ha b hb => apart a (List.mem_cons_of_mem _ ha) b (List.mem_cons_of_mem _ hb)]

namespace Descriptor

variable {home : CacheId} {f g : TypeId → Ty} {tag tag' : TagId → ClassTag} {d d' : Descriptor}

theorem home_toTy : (d.toTy home f tag).home = home := by
  cases d <;> rfl

theorem family_toTy : (d.toTy home f tag).family = d.family := by
  cases d <;> rfl

theorem isGeneric_toTy : (d.toTy home f tag).isGeneric = true ↔ ∃ family, d = .generic family := by
  cases d <;> simp [toTy, Ty.isGeneric]

theorem toTy_congr (types : ∀ c ∈ d.children, f c = g c)
    (tags : ∀ t, d.tag? = some t → tag t = tag' t) : d.toTy home f tag = d.toTy home g tag' := by
  cases d with
  | tuple es => exact congrArg (Ty.tuple home) (List.map_congr_left types)
  | list e => exact congrArg (Ty.list home) (types e (by simp [children]))
  | array e => exact congrArg (Ty.array home) (types e (by simp [children]))
  | record t attributes methods =>
    rw [toTy, toTy, tags t rfl]
    congr 1
    exact List.map_congr_left fun a ha =>
      congrArg (Prod.mk a.1) (types a.2 (List.mem_map_of_mem ha))
  | function ps r =>
    rw [toTy, toTy, types r (by simp [children]),
      List.map_congr_left fun p hp => types p (by simp [children, hp])]
  | _ => rfl

/-- Descriptors of one type are the same where parameters are told apart by what they stand for. -/
theorem eq_of_toTy_eq (same : d.toTy home f tag = d'.toTy home f tag)
    (types : ∀ c ∈ d.children, ∀ c' ∈ d'.children, f c = f c' → c = c')
    (tags : ∀ t t', d.tag? = some t → d'.tag? = some t' → tag t = tag t' → t = t') : d = d' := by
  cases d <;> cases d' <;>
    simp only [toTy, Ty.generic.injEq, Ty.int.injEq, Ty.uint.injEq, Ty.float.injEq, Ty.tuple.injEq,
      Ty.list.injEq, Ty.array.injEq, Ty.record.injEq, Ty.function.injEq, Ty.external.injEq,
      true_and, reduceCtorEq] at same
  case tuple.tuple es es' => exact congrArg tuple (eq_of_map_eq same types)
  case list.list e e' => rw [types e (by simp [children]) e' (by simp [children]) same]
  case array.array e e' => rw [types e (by simp [children]) e' (by simp [children]) same]
  case record.record t attributes methods t' attributes' methods' =>
    obtain ⟨ht, ha, rfl⟩ := same
    rw [tags t t' rfl rfl ht]
    congr 1
    refine eq_of_map_eq ha fun a ha b hb hab => ?_
    rw [Prod.mk.injEq] at hab
    exact Prod.ext hab.1
      (types a.2 (List.mem_map_of_mem ha) b.2 (List.mem_map_of_mem hb) hab.2)
  case function.function ps r ps' r' =>
    rw [types r (by simp [children]) r' (by simp [children]) same.2, eq_of_map_eq same.1 fun a ha b hb =>
      types a (by simp [children, ha]) b (by simp [children, hb])]
  all_goals rw [same]

end Descriptor

namespace TypeStore

variable {s t : TypeStore} {h k : TypeId} {d : Descriptor} {cell : TypeCell}

/-! ## Reading -/

/-- What an identity points to was made. -/
def Holds (s : TypeStore) (h : TypeId) : Prop :=
  h.index < s.types.size

/-- A tag was made. -/
def HoldsTag (s : TypeStore) (t : TagId) : Prop :=
  t.index < s.tags.size

/-- A descriptor whose parameters were made. -/
def Fits (s : TypeStore) (d : Descriptor) : Prop :=
  (∀ c ∈ d.children, s.Holds c) ∧ ∀ t, d.tag? = some t → s.HoldsTag t

/-- What a descriptor describes, all the way down. -/
def describes (s : TypeStore) (d : Descriptor) : Ty :=
  d.toTy s.home s.read s.readTag

/-- A store that only came about through its operations. -/
structure Sound (names : ObjectId → String) (s : TypeStore) : Prop where
  /-- A cell refers to older cells only. -/
  older : ∀ {i : Nat} {cell : TypeCell}, s.types[i]? = some cell →
    (∀ c ∈ cell.descriptor.children, c.index < i)
      ∧ ∀ t, cell.descriptor.tag? = some t → s.HoldsTag t
  /-- A descriptor has at most one cell. -/
  interned : ∀ {d : Descriptor} {h : TypeId},
    s.interned.find? d = some h ↔ ∃ generic, s.types[h.index]? = some ⟨d, generic⟩
  generics : ∀ {i : Nat} {cell : TypeCell}, s.types[i]? = some cell →
    (∃ family, cell = ⟨.generic family, none⟩)
      ∨ ∃ g, cell.generic = some g ∧ (∀ family, cell.descriptor ≠ .generic family)
        ∧ s.types[g.index]? = some ⟨.generic cell.descriptor.family, none⟩
  tags : ∀ {i j : Nat} {tag : ClassTag}, s.tags[i]? = some tag → s.tags[j]? = some tag → i = j
  declared : ∀ {host : ObjectId} {t : TagId},
    s.classTags.find? host = some t ↔ s.tags[t.index]? = some ⟨names host, .declared s.home host⟩
  named : ∀ {i : Nat} {name : String} {home : CacheId} {host : ObjectId},
    s.tags[i]? = some ⟨name, .declared home host⟩ → name = names host ∧ home = s.home
  serials : ∀ {i : Nat} {name : String} {home : CacheId} {serial : Nat},
    s.tags[i]? = some ⟨name, .fresh home serial⟩ → serial < s.serial

theorem size_readings (s : TypeStore) : s.readings.size = s.types.size := by
  rw [readings]
  obtain ⟨cells⟩ := s.types
  induction cells using List.reverseRecOn with
  | nil => rfl
  | append_singleton cells cell ih => simpa using ih

/-- One more cell leaves what the older ones stand for as it is. -/
theorem readings_push (s : TypeStore) (cell : TypeCell) :
    readings { s with types := s.types.push cell }
      = s.readings.push (readCell s.home s.tags s.readings cell) := by
  simp [readings]

/-- A cell stands for what its descriptor describes. -/
theorem read_eq (older : ∀ {i : Nat} {cell : TypeCell}, s.types[i]? = some cell →
      ∀ c ∈ cell.descriptor.children, c.index < i)
    (found : s.types[h.index]? = some cell) : s.read h = s.describes cell.descriptor := by
  obtain ⟨home, ⟨cells⟩, interned, tags, classTags, serial⟩ := s
  induction cells using List.reverseRecOn generalizing h cell with
  | nil => simp at found
  | append_singleton cells last ih =>
    let s : TypeStore := ⟨home, ⟨cells⟩, interned, tags, classTags, serial⟩
    have whole : (⟨home, ⟨cells ++ [last]⟩, interned, tags, classTags, serial⟩ : TypeStore)
        = { s with types := s.types.push last } := by simp [s]
    rw [whole] at older found ⊢
    have push : ∀ c : TypeId, c.index < s.types.size →
        read { s with types := s.types.push last } c = s.read c := by
      intro c hc
      rw [read, readings_push, Array.getElem?_push_lt (by rwa [size_readings]), read,
        Array.getElem?_eq_getElem (by rwa [size_readings])]
    have describes : ∀ d : Descriptor, (∀ c ∈ d.children, c.index < s.types.size) →
        describes { s with types := s.types.push last } d = s.describes d :=
      fun d hd => Descriptor.toTy_congr (fun c hc => push c (hd c hc)) fun _ _ => rfl
    have before : ∀ {i : Nat} {cell : TypeCell}, s.types[i]? = some cell →
        ∀ c ∈ cell.descriptor.children, c.index < i := by
      intro i cell found
      refine older ((Array.getElem?_push_lt ?_).trans ?_)
      · exact (Array.getElem?_eq_some_iff.mp found).1
      · exact congrArg some (Array.getElem?_eq_some_iff.mp found).2
    rw [Array.getElem?_push] at found
    split at found
    · rename_i newest
      cases found
      have fits : ∀ c ∈ last.descriptor.children, c.index < s.types.size :=
        older (i := s.types.size) Array.getElem?_push_size
      rw [describes _ fits, read, readings_push, newest, ← size_readings, Array.getElem?_push_size]
      rfl
    · have lt := (Array.getElem?_eq_some_iff.mp found).1
      rw [push h lt, describes _ fun c hc => Nat.lt_trans (before found c hc) lt]
      exact ih before found

variable {names : ObjectId → String}

theorem Holds.exists_cell (held : s.Holds h) : ∃ cell, s.types[h.index]? = some cell :=
  ⟨_, Array.getElem?_eq_getElem held⟩

theorem holds_of_cell (found : s.types[h.index]? = some cell) : s.Holds h :=
  (Array.getElem?_eq_some_iff.mp found).1

namespace Sound

theorem read_eq (sound : s.Sound names) (found : s.types[h.index]? = some cell) :
    s.read h = s.describes cell.descriptor :=
  TypeStore.read_eq (fun found => (sound.older found).1) found

theorem fits (sound : s.Sound names) (found : s.types[h.index]? = some cell) :
    s.Fits cell.descriptor :=
  ⟨fun c hc => Nat.lt_trans ((sound.older found).1 c hc) (holds_of_cell found),
    (sound.older found).2⟩

/-- Tags are told apart by what they were made for. -/
theorem tag_injective (sound : s.Sound names) {t t' : TagId} (held : s.HoldsTag t)
    (held' : s.HoldsTag t') (same : s.readTag t = s.readTag t') : t = t' := by
  rw [readTag, readTag, Array.getElem?_eq_getElem held, Array.getElem?_eq_getElem held',
    Option.getD_some, Option.getD_some] at same
  have found : s.tags[t'.index]? = some s.tags[t.index] := by
    rw [Array.getElem?_eq_getElem held', same]
  have index := sound.tags (Array.getElem?_eq_getElem held) found
  cases t
  cases t'
  exact congrArg TagId.mk index

/-- Types are the same if they agree all the way down. -/
theorem read_injective (sound : s.Sound names) (held : s.Holds h) (held' : s.Holds k)
    (same : s.read h = s.read k) : h = k := by
  induction hn : h.index using Nat.strongRecOn generalizing h k with
  | ind n ih =>
    obtain ⟨cell, found⟩ := held.exists_cell
    obtain ⟨cell', found'⟩ := held'.exists_cell
    have fits := sound.fits found
    have fits' := sound.fits found'
    rw [sound.read_eq found, sound.read_eq found'] at same
    have descriptor : cell.descriptor = cell'.descriptor := by
      refine Descriptor.eq_of_toTy_eq same (fun c hc c' hc' hcc => ?_) fun t t' ht ht' htt => ?_
      · exact ih c.index (hn ▸ (sound.older found).1 c hc) (fits.1 c hc) (fits'.1 c' hc') hcc rfl
      · exact sound.tag_injective (fits.2 t ht) (fits'.2 t' ht') htt
    have known : s.interned.find? cell.descriptor = some h := sound.interned.mpr ⟨_, found⟩
    have known' : s.interned.find? cell.descriptor = some k :=
      sound.interned.mpr ⟨cell'.generic, descriptor ▸ found'⟩
    exact Option.some.inj (known.symm.trans known')

/-- A descriptor has a cell exactly if what it describes is the reading of one. -/
theorem find?_of_read_eq (sound : s.Sound names) (fits : s.Fits d) (held : s.Holds h)
    (same : s.read h = s.describes d) : s.interned.find? d = some h := by
  obtain ⟨cell, found⟩ := held.exists_cell
  have fits' := sound.fits found
  rw [sound.read_eq found] at same
  have descriptor : cell.descriptor = d := by
    refine Descriptor.eq_of_toTy_eq same (fun c hc c' hc' hcc => ?_) fun t t' ht ht' htt => ?_
    · exact sound.read_injective (fits'.1 c hc) (fits.1 c' hc') hcc
    · exact sound.tag_injective (fits'.2 t ht) (fits.2 t' ht') htt
  exact sound.interned.mpr ⟨cell.generic, descriptor ▸ found⟩

theorem read_of_find? (sound : s.Sound names) (found : s.interned.find? d = some h) :
    s.Holds h ∧ s.read h = s.describes d := by
  obtain ⟨generic, found⟩ := sound.interned.mp found
  exact ⟨holds_of_cell found, sound.read_eq found⟩

theorem read_generic (sound : s.Sound names) {family : Family} {generic : Option TypeId}
    (found : s.types[h.index]? = some ⟨.generic family, generic⟩) :
    s.read h = .generic s.home family :=
  sound.read_eq found

end Sound

/-! ## The cache of a store -/

theorem mem_entries {ty : Ty} : ty ∈ s.cache.entries ↔ ∃ h, s.Holds h ∧ s.read h = ty := by
  rw [cache, List.mem_reverse, Array.mem_toList_iff, Array.mem_iff_getElem]
  constructor
  · rintro ⟨i, hi, rfl⟩
    refine ⟨⟨i⟩, by rwa [size_readings] at hi, ?_⟩
    rw [read, Array.getElem?_eq_getElem hi, Option.getD_some]
  · rintro ⟨h, held, rfl⟩
    have hi : h.index < s.readings.size := by rwa [size_readings]
    exact ⟨h.index, hi, by rw [read, Array.getElem?_eq_getElem hi, Option.getD_some]⟩

/-- The identity of a type is found by the type. -/
theorem locate_read {ty : Ty} (known : ty ∈ s.cache.entries) :
    s.Holds (s.locate ty) ∧ s.read (s.locate ty) = ty := by
  rw [cache, List.mem_reverse] at known
  have lt := List.idxOf_lt_length_of_mem known
  have lt' : s.readings.toList.idxOf ty < s.readings.size := by simpa using lt
  refine ⟨by simpa [Holds, locate, size_readings] using lt', ?_⟩
  rw [read, locate, Array.getElem?_eq_getElem lt', Option.getD_some, ← Array.getElem_toList lt',
    List.getElem_idxOf]

/-! ## Stores that grow -/

/-- A store with all the cells of another one, at their places. -/
structure Later (s t : TypeStore) : Prop where
  home : t.home = s.home
  types : ∀ {i : Nat} {cell : TypeCell}, s.types[i]? = some cell → t.types[i]? = some cell
  tags : ∀ {i : Nat} {tag : ClassTag}, s.tags[i]? = some tag → t.tags[i]? = some tag

theorem Later.refl (s : TypeStore) : s.Later s :=
  ⟨rfl, id, id⟩

theorem Later.trans {u : TypeStore} (up : s.Later t) (up' : t.Later u) : s.Later u :=
  ⟨up'.home.trans up.home, fun found => up'.types (up.types found),
    fun found => up'.tags (up.tags found)⟩

theorem Later.holds (up : s.Later t) (held : s.Holds h) : t.Holds h := by
  obtain ⟨cell, found⟩ := held.exists_cell
  exact holds_of_cell (up.types found)

theorem Later.holdsTag {tag : TagId} (up : s.Later t) (held : s.HoldsTag tag) : t.HoldsTag tag :=
  (Array.getElem?_eq_some_iff.mp (up.tags (Array.getElem?_eq_getElem held))).1

theorem Later.fits (up : s.Later t) (fits : s.Fits d) : t.Fits d :=
  ⟨fun c hc => up.holds (fits.1 c hc), fun tag htag => up.holdsTag (fits.2 tag htag)⟩

theorem Later.readTag {tag : TagId} (up : s.Later t) (held : s.HoldsTag tag) :
    t.readTag tag = s.readTag tag := by
  have found := Array.getElem?_eq_getElem held
  rw [TypeStore.readTag, TypeStore.readTag, found, up.tags found, Option.getD_some, Option.getD_some]

/-- What a cell stands for never changes. -/
theorem Later.read (up : s.Later t) (sound : s.Sound names) (sound' : t.Sound names)
    (held : s.Holds h) : t.read h = s.read h := by
  induction hn : h.index using Nat.strongRecOn generalizing h with
  | ind n ih =>
    obtain ⟨cell, found⟩ := held.exists_cell
    rw [sound.read_eq found, sound'.read_eq (up.types found), describes, describes, up.home]
    exact Descriptor.toTy_congr
      (fun c hc => ih c.index (hn ▸ (sound.older found).1 c hc) ((sound.fits found).1 c hc) rfl)
      fun tag htag => up.readTag ((sound.fits found).2 tag htag)

theorem Later.describes (up : s.Later t) (sound : s.Sound names) (sound' : t.Sound names)
    (fits : s.Fits d) : t.describes d = s.describes d := by
  rw [TypeStore.describes, TypeStore.describes, up.home]
  exact Descriptor.toTy_congr (fun c hc => up.read sound sound' (fits.1 c hc))
    fun tag htag => up.readTag (fits.2 tag htag)

/-- Without a new cell the types stay the same. -/
theorem Later.cache (up : s.Later t) (sound : s.Sound names) (sound' : t.Sound names)
    (same : t.types.size = s.types.size) : t.cache = { s.cache with serial := t.serial } := by
  have readings : t.readings = s.readings := by
    refine Array.ext (by rw [size_readings, size_readings, same]) fun i hi hi' => ?_
    have held : s.Holds ⟨i⟩ := by rwa [size_readings] at hi'
    have read := up.read sound sound' held
    rwa [TypeStore.read, TypeStore.read, Array.getElem?_eq_getElem hi,
      Array.getElem?_eq_getElem hi'] at read
  rw [TypeStore.cache, readings, up.home]
  rfl

end TypeStore

end ArrayInference
