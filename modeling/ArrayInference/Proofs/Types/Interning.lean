import ArrayInference.Proofs.Engine.Growth
import ArrayInference.Proofs.Types.Reading

/-!
# Interning by identity is interning

A computation on a store mirrors one on whole types if it leaves the store with the types that the other
one leaves in the cache, and gives what stands for the same. Main statement: looking up a descriptor,
and making its cell and that of its generic type if there is none, mirrors entering a whole type.
-/

namespace ArrayInference

namespace TypeCache

theorem mem_add_self (c : TypeCache) (t : Ty) : t ∈ (c.add t).entries := by
  rw [add]
  split
  · assumption
  · exact List.mem_cons_self

theorem add_of_mem {c : TypeCache} {t : Ty} (known : t ∈ c.entries) : c.add t = c :=
  if_pos known

theorem add_of_not_mem {c : TypeCache} {t : Ty} (fresh : t ∉ c.entries) :
    c.add t = { c with entries := t :: c.entries } :=
  if_neg fresh

end TypeCache

namespace TypeStore

variable {names : ObjectId → String} {s t : TypeStore} {h : TypeId} {d : Descriptor}

/-- The store with one cell more. -/
def push (s : TypeStore) (d : Descriptor) (generic : Option TypeId) : TypeStore :=
  { s with types := s.types.push ⟨d, generic⟩, interned := s.interned.insert d ⟨s.types.size⟩ }

theorem later_push (s : TypeStore) (d : Descriptor) (generic : Option TypeId) :
    s.Later (s.push d generic) :=
  ⟨rfl, Program.getElem?_push_of_some, id⟩

theorem cache_push (s : TypeStore) (d : Descriptor) (generic : Option TypeId) :
    (s.push d generic).cache = { s.cache with entries := s.describes d :: s.cache.entries } := by
  have readings : (s.push d generic).readings = s.readings.push (s.describes d) :=
    readings_push s ⟨d, generic⟩
  rw [cache, readings]
  simp [cache, push]

/-- A cell that is made for a descriptor without one. -/
theorem Sound.push (sound : s.Sound names) (fits : s.Fits d) (absent : s.interned.find? d = none)
    {generic : Option TypeId}
    (generics : (∃ family, d = .generic family ∧ generic = none)
      ∨ ∃ g, generic = some g ∧ (∀ family, d ≠ .generic family)
        ∧ s.types[g.index]? = some ⟨.generic d.family, none⟩) :
    (s.push d generic).Sound names where
  older := by
    intro i cell found
    replace found : (s.types.push ⟨d, generic⟩)[i]? = some cell := found
    rw [Array.getElem?_push] at found
    split at found
    · rename_i same
      cases found
      exact ⟨fun c hc => same ▸ fits.1 c hc, fits.2⟩
    · exact sound.older found
  interned := by
    intro d' h
    show (s.interned.insert d ⟨s.types.size⟩).find? d' = some h
      ↔ ∃ g, (s.types.push ⟨d, generic⟩)[h.index]? = some ⟨d', g⟩
    rw [Table.find?_insert, Array.getElem?_push]
    by_cases same : d = d'
    · subst same
      simp only [if_pos, Option.some.injEq]
      constructor
      · rintro rfl
        exact ⟨generic, by simp⟩
      · rintro ⟨g, found⟩
        split at found
        · rename_i index
          exact congrArg TypeId.mk index.symm
        · rw [sound.interned.mpr ⟨g, found⟩] at absent
          cases absent
    · rw [if_neg same, sound.interned]
      constructor
      · rintro ⟨g, found⟩
        exact ⟨g, by rw [if_neg (Nat.ne_of_lt (holds_of_cell found)), found]⟩
      · rintro ⟨g, found⟩
        split at found
        · cases found
          exact absurd rfl same
        · exact ⟨g, found⟩
  generics := by
    intro i cell found
    replace found : (s.types.push ⟨d, generic⟩)[i]? = some cell := found
    have up : ∀ {g : TypeId} {c : TypeCell}, s.types[g.index]? = some c →
        (s.push d generic).types[g.index]? = some c := (later_push s d generic).types
    rw [Array.getElem?_push] at found
    split at found
    · cases found
      rcases generics with ⟨family, rfl, rfl⟩ | ⟨g, hg, other, known⟩
      · exact .inl ⟨family, rfl⟩
      · exact .inr ⟨g, hg, other, up known⟩
    · rcases sound.generics found with same | ⟨g, hg, other, known⟩
      · exact .inl same
      · exact .inr ⟨g, hg, other, up known⟩
  tags := sound.tags
  declared := sound.declared
  named := sound.named
  serials := sound.serials

/-- The descriptor of a type that the cache knows has a cell. -/
theorem Sound.mem_entries_iff (sound : s.Sound names) (fits : s.Fits d) :
    s.describes d ∈ s.cache.entries ↔ ∃ h, s.interned.find? d = some h := by
  rw [mem_entries]
  constructor
  · rintro ⟨h, held, same⟩
    exact ⟨h, sound.find?_of_read_eq fits held same⟩
  · rintro ⟨h, found⟩
    exact ⟨h, sound.read_of_find? found⟩

/-- An identity that points to a type. -/
def Stands (s : TypeStore) (h : TypeId) (type : Ty) : Prop :=
  s.Holds h ∧ s.read h = type

/-- A tag that was made for something. -/
def StandsTag (s : TypeStore) (t : TagId) (tag : ClassTag) : Prop :=
  s.HoldsTag t ∧ s.readTag t = tag

theorem Later.stands {type : Ty} (up : s.Later t) (sound : s.Sound names) (sound' : t.Sound names)
    (h' : s.Stands h type) : t.Stands h type :=
  ⟨up.holds h'.1, (up.read sound sound' h'.1).trans h'.2⟩

/-- The store with the tag of a host class. -/
def declareTag (s : TypeStore) (name : String) (host : ObjectId) : TypeStore :=
  { s with
    tags := s.tags.push { name, origin := .declared s.home host }
    classTags := s.classTags.insert host ⟨s.tags.size⟩ }

/-- The store with a tag of its own. -/
def freshTag (s : TypeStore) (name : String) : TypeStore :=
  { s with
    tags := s.tags.push { name, origin := .fresh s.home s.serial }
    serial := s.serial + 1 }

/-- One more tag that was made for nothing that another one was made for. -/
theorem Sound.tags_push (sound : s.Sound names) {new : ClassTag}
    (fresh : ∀ i : Nat, s.tags[i]? ≠ some new) {i j : Nat} {tag : ClassTag}
    (found : (s.tags.push new)[i]? = some tag) (found' : (s.tags.push new)[j]? = some tag) : i = j := by
  rw [Array.getElem?_push] at found found'
  split at found <;> split at found'
  · omega
  · cases found
    exact absurd found' (fresh j)
  · cases found'
    exact absurd found (fresh i)
  · exact sound.tags found found'

theorem Sound.older_push (sound : s.Sound names) (new : ClassTag) {i : Nat} {cell : TypeCell}
    (found : s.types[i]? = some cell) :
    (∀ c ∈ cell.descriptor.children, c.index < i)
      ∧ ∀ t, cell.descriptor.tag? = some t → t.index < (s.tags.push new).size := by
  obtain ⟨children, tags⟩ := sound.older found
  exact ⟨children, fun t ht => by simpa using Nat.lt_succ_of_lt (tags t ht)⟩

theorem later_declareTag (s : TypeStore) (name : String) (host : ObjectId) :
    s.Later (s.declareTag name host) :=
  ⟨rfl, id, Program.getElem?_push_of_some⟩

theorem later_freshTag (s : TypeStore) (name : String) : s.Later (s.freshTag name) :=
  ⟨rfl, id, Program.getElem?_push_of_some⟩

theorem Sound.declareTag (sound : s.Sound names) {host : ObjectId}
    (absent : s.classTags.find? host = none) : (s.declareTag (names host) host).Sound names := by
  have fresh : ∀ i : Nat, s.tags[i]? ≠ some ⟨names host, .declared s.home host⟩ := by
    intro i known
    rw [sound.declared.mpr (show s.tags[(⟨i⟩ : TagId).index]? = _ from known)] at absent
    cases absent
  refine ⟨sound.older_push _, sound.interned, sound.generics, sound.tags_push fresh, ?_, ?_, ?_⟩
  · intro other t
    show (s.classTags.insert host ⟨s.tags.size⟩).find? other = some t
      ↔ (s.tags.push ⟨names host, .declared s.home host⟩)[t.index]?
        = some ⟨names other, .declared s.home other⟩
    rw [Table.find?_insert, Array.getElem?_push]
    by_cases same : host = other
    · subst same
      rw [if_pos rfl]
      split
      · rename_i index
        exact ⟨fun _ => rfl, fun _ => congrArg some (congrArg TagId.mk index.symm)⟩
      · rename_i index
        refine ⟨fun h => absurd ?_ index, fun h => absurd h (fresh _)⟩
        cases h
        rfl
    · rw [if_neg same, sound.declared]
      split
      · rename_i index
        refine ⟨fun h => ?_, fun h => ?_⟩
        · rw [index, Array.getElem?_eq_none (Nat.le_refl _)] at h
          cases h
        · rw [Option.some.injEq, ClassTag.mk.injEq, TagOrigin.declared.injEq] at h
          exact absurd h.2.2 same
      · exact .rfl
  · intro i name home host' found
    replace found : (s.tags.push ⟨names host, .declared s.home host⟩)[i]? = some _ := found
    rw [Array.getElem?_push] at found
    split at found
    · cases found
      exact ⟨rfl, rfl⟩
    · exact sound.named found
  · intro i name home serial found
    replace found : (s.tags.push ⟨names host, .declared s.home host⟩)[i]? = some _ := found
    rw [Array.getElem?_push] at found
    split at found
    · cases found
    · exact sound.serials found

theorem Sound.freshTag (sound : s.Sound names) (name : String) : (s.freshTag name).Sound names := by
  have fresh : ∀ i : Nat, s.tags[i]? ≠ some ⟨name, .fresh s.home s.serial⟩ :=
    fun i known => Nat.lt_irrefl _ (sound.serials known)
  refine ⟨sound.older_push _, sound.interned, sound.generics, sound.tags_push fresh, ?_, ?_, ?_⟩
  · intro host t
    show s.classTags.find? host = some t
      ↔ (s.tags.push ⟨name, .fresh s.home s.serial⟩)[t.index]? = some _
    rw [sound.declared, Array.getElem?_push]
    split
    · rename_i index
      rw [index, Array.getElem?_eq_none (Nat.le_refl _)]
      simp [TypeStore.freshTag]
    · exact .rfl
  · intro i name' home host found
    replace found : (s.tags.push ⟨name, .fresh s.home s.serial⟩)[i]? = some _ := found
    rw [Array.getElem?_push] at found
    split at found
    · cases found
    · exact sound.named found
  · intro i name' home serial found
    replace found : (s.tags.push ⟨name, .fresh s.home s.serial⟩)[i]? = some _ := found
    rw [Array.getElem?_push] at found
    split at found
    · cases found
      exact Nat.lt_succ_self _
    · exact Nat.lt_succ_of_lt (sound.serials found)

end TypeStore

/-! ## Mirroring -/

/-- A computation on a store that does what another one does on whole types. -/
def Storing.Mirrors (names : ObjectId → String) (s : TypeStore) {α β : Type} (m : Storing α)
    (m' : Interning β) (R : TypeStore → α → β → Prop) : Prop :=
  ∃ t a b, m.run s = (a, t) ∧ m'.run s.cache = (b, t.cache) ∧ t.Sound names ∧ s.Later t ∧ R t a b

namespace Storing

variable {names : ObjectId → String} {s : TypeStore} {α β γ δ : Type}
  {R : TypeStore → α → β → Prop} {S : TypeStore → γ → δ → Prop}

theorem mirrors_pure (sound : s.Sound names) {a : α} {b : β} (related : R s a b) :
    Mirrors names s (pure a) (pure b) R :=
  ⟨s, a, b, rfl, rfl, sound, .refl s, related⟩

theorem Mirrors.bind {m : Storing α} {m' : Interning β} {f : α → Storing γ} {g : β → Interning δ}
    (h : Mirrors names s m m' R)
    (next : ∀ t a b, t.Sound names → s.Later t → R t a b → Mirrors names t (f a) (g b) S) :
    Mirrors names s (m >>= f) (m' >>= g) S := by
  obtain ⟨t, a, b, hm, hm', sound, up, related⟩ := h
  obtain ⟨u, c, d, hf, hf', sound', up', related'⟩ := next t a b sound up related
  refine ⟨u, c, d, ?_, ?_, sound', up.trans up', related'⟩
  · rw [StateT.run_bind, hm]
    exact hf
  · rw [StateT.run_bind, hm']
    exact hf'

theorem run_intern (make : CacheId → Ty) (c : TypeCache) :
    (Interning.intern make).run c
      = (make c.home, (c.add (make c.home).toGeneric).add (make c.home)) := rfl

section

variable {d : Descriptor} {family : Family} {h : TypeId} {name : String} {host : ObjectId} {t : TagId}

theorem run_generic_of_some (found : s.interned.find? (.generic family) = some h) :
    (generic family).run s = (h, s) := by
  simp [generic, found]
  rfl

theorem run_generic_of_none (absent : s.interned.find? (.generic family) = none) :
    (generic family).run s = (⟨s.types.size⟩, s.push (.generic family) none) := by
  simp [generic, absent, publish, TypeStore.push]
  rfl

theorem run_intern_of_some (found : s.interned.find? d = some h) : (intern d).run s = (h, s) := by
  simp [intern, found]
  rfl

theorem run_intern_of_none (absent : s.interned.find? d = none)
    (other : ∀ family, d ≠ .generic family) {t : TypeStore} {g : TypeId}
    (top : (generic d.family).run s = (g, t)) :
    (intern d).run s = (⟨t.types.size⟩, t.push d (some g)) := by
  cases d with
  | generic family => exact absurd rfl (other family)
  | _ =>
    simp [intern, absent, top, publish, TypeStore.push]
    rfl

theorem run_classTag_of_some (found : s.classTags.find? host = some t) :
    (classTag name host).run s = (t, s) := by
  simp [classTag, found]
  rfl

theorem run_classTag_of_none (absent : s.classTags.find? host = none) :
    (classTag name host).run s = (⟨s.tags.size⟩, s.declareTag name host) := by
  simp [classTag, absent, TypeStore.declareTag]
  rfl

end

/-- The generic type of a family is looked up, or it is made. -/
theorem exists_generic (sound : s.Sound names) (family : Family) :
    ∃ t h, (generic family).run s = (h, t) ∧ t.cache = s.cache.add (.generic s.home family)
      ∧ t.Sound names ∧ s.Later t ∧ t.types[h.index]? = some ⟨.generic family, none⟩
      ∧ ∀ d : Descriptor, d ≠ .generic family → t.interned.find? d = s.interned.find? d := by
  have fits : s.Fits (.generic family) := ⟨by simp [Descriptor.children], by simp [Descriptor.tag?]⟩
  cases found : s.interned.find? (.generic family) with
  | some h =>
    have known := (sound.mem_entries_iff fits).mpr ⟨h, found⟩
    obtain ⟨g, cell⟩ := sound.interned.mp found
    refine ⟨s, h, run_generic_of_some found, (TypeCache.add_of_mem known).symm, sound, .refl s, ?_,
      fun _ _ => rfl⟩
    rcases sound.generics cell with ⟨_, same⟩ | ⟨_, -, other, -⟩
    · cases same
      exact cell
    · exact absurd rfl (other family)
  | none =>
    have fresh : s.describes (.generic family) ∉ s.cache.entries := by
      rw [sound.mem_entries_iff fits, found]
      simp
    refine ⟨_, _, run_generic_of_none found, ?_, sound.push fits found (.inl ⟨family, rfl, rfl⟩),
      TypeStore.later_push _ _ _, Array.getElem?_push_size, fun d other => ?_⟩
    · rw [TypeStore.cache_push]
      exact (TypeCache.add_of_not_mem fresh).symm
    · exact Table.find?_insert_of_ne _ _ other.symm

theorem mirrors_generic (sound : s.Sound names) (family : Family) :
    Mirrors names s (generic family) (Interning.generic family) TypeStore.Stands := by
  obtain ⟨t, h, run, cache, sound', up, cell, -⟩ := exists_generic sound family
  refine ⟨t, h, .generic s.home family, run, ?_, sound', up, TypeStore.holds_of_cell cell, ?_⟩
  · rw [Interning.generic, run_intern, cache]
    exact congrArg _ (TypeCache.add_of_mem (TypeCache.mem_add_self _ _))
  · rw [sound'.read_generic cell, up.home]

/-- Looking up a descriptor, or making its cell, mirrors entering what it describes. -/
theorem mirrors_intern (sound : s.Sound names) {d : Descriptor} (fits : s.Fits d) {make : CacheId → Ty}
    (makes : make s.home = s.describes d) :
    Mirrors names s (intern d) (Interning.intern make) TypeStore.Stands := by
  have entered : (Interning.intern make).run s.cache
      = (s.describes d, (s.cache.add (.generic s.home d.family)).add (s.describes d)) := by
    rw [run_intern, show s.cache.home = s.home from rfl, makes, Ty.toGeneric, TypeStore.describes,
      Descriptor.home_toTy, Descriptor.family_toTy]
  by_cases isGeneric : ∃ family, d = .generic family
  · obtain ⟨family, rfl⟩ := isGeneric
    obtain ⟨t, a, b, run, run', rest⟩ := mirrors_generic sound family
    refine ⟨t, a, b, run, ?_, rest⟩
    rw [← run', entered, Interning.generic, run_intern]
    rfl
  rw [not_exists] at isGeneric
  rw [Mirrors, entered]
  cases found : s.interned.find? d with
  | some h =>
    obtain ⟨g, cell⟩ := sound.interned.mp found
    have known : .generic s.home d.family ∈ s.cache.entries := by
      rcases sound.generics cell with ⟨family, same⟩ | ⟨k, -, -, top⟩
      · exact absurd (congrArg TypeCell.descriptor same) (isGeneric family)
      · exact TypeStore.mem_entries.mpr ⟨k, TypeStore.holds_of_cell top, sound.read_generic top⟩
    have known' := (sound.mem_entries_iff fits).mpr ⟨h, found⟩
    refine ⟨s, h, _, run_intern_of_some found, ?_, sound, .refl s, sound.read_of_find? found⟩
    rw [TypeCache.add_of_mem known, TypeCache.add_of_mem known']
  | none =>
    obtain ⟨t, g, run, cache, sound', up, top, same⟩ := exists_generic sound d.family
    have absent : t.interned.find? d = none := (same d (isGeneric _)).trans found
    have fits' := up.fits fits
    have describes := up.describes sound sound' fits
    have fresh : s.describes d ∉ t.cache.entries := by
      rw [← describes, sound'.mem_entries_iff fits', absent]
      simp
    have sound'' := sound'.push fits' absent (.inr ⟨g, rfl, isGeneric, top⟩)
    have cell : (t.push d (some g)).types[t.types.size]? = some ⟨d, some g⟩ :=
      Array.getElem?_push_size
    refine ⟨t.push d (some g), ⟨t.types.size⟩, s.describes d, run_intern_of_none found isGeneric run,
      ?_, sound'', up.trans (TypeStore.later_push t d _), TypeStore.holds_of_cell (h := ⟨_⟩) cell, ?_⟩
    · rw [← cache, TypeStore.cache_push, TypeCache.add_of_not_mem fresh, describes]
    · have read := sound''.read_eq (h := ⟨t.types.size⟩) cell
      rw [read, (TypeStore.later_push t d _).describes sound' sound'' fits', describes]

/-- The tag of a host class is looked up, or it is made. -/
theorem mirrors_classTag (sound : s.Sound names) {name : String} {host : ObjectId}
    (named : name = names host) :
    Mirrors names s (classTag name host) (Interning.declaredTag name host) TypeStore.StandsTag := by
  subst named
  rw [Mirrors]
  cases found : s.classTags.find? host with
  | some t =>
    have known := sound.declared.mp found
    refine ⟨s, t, _, run_classTag_of_some found, rfl, sound, .refl s, (Array.getElem?_eq_some_iff.mp known).1, ?_⟩
    rw [TypeStore.readTag, known]
    rfl
  | none =>
    have sound' := sound.declareTag found
    have up := TypeStore.later_declareTag s (names host) host
    refine ⟨_, ⟨s.tags.size⟩, ⟨names host, .declared s.home host⟩, run_classTag_of_none found, ?_,
      sound', up, ?_, ?_⟩
    · rw [up.cache sound sound' rfl]
      rfl
    · simp [TypeStore.HoldsTag, TypeStore.declareTag]
    · simp [TypeStore.readTag, TypeStore.declareTag]

theorem mirrors_newTag (sound : s.Sound names) (name : String) :
    Mirrors names s (newTag name) (Interning.freshTag name) TypeStore.StandsTag := by
  have sound' := sound.freshTag name
  have up := TypeStore.later_freshTag s name
  refine ⟨_, ⟨s.tags.size⟩, ⟨name, .fresh s.home s.serial⟩, rfl, ?_, sound', up, ?_, ?_⟩
  · show _ = (_, (s.freshTag name).cache)
    rw [up.cache sound sound' rfl]
    rfl
  · show s.tags.size < (s.freshTag name).tags.size
    simp [TypeStore.freshTag]
  · show (s.freshTag name).readTag ⟨s.tags.size⟩ = _
    simp [TypeStore.readTag, TypeStore.freshTag]

end Storing

end ArrayInference
