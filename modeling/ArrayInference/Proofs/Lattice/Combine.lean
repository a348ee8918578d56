import ArrayInference.Proofs.Infer.Answered
import ArrayInference.Proofs.Lattice.Meet

/-!
# Arrays that are combined elementwise

The extents of several arrays that are combined elementwise are found axis by axis, with the extent
that is known so far. The same extents come from merging the shapes of the arrays one by one: either
way they are the greatest ones below those of all arrays, and there are none if the arrays have nothing
below all of them. So neither the order nor the number of the arrays matters. Main statement:
`arrayMap_merges`.
-/

namespace ArrayInference

theorem Dim.eq_of_forall_atMost_iff {d e : Dim} (h : ∀ f : Dim, f.AtMost d ↔ f.AtMost e) : d = e :=
  AtMost.antisymm ((h d).mp (.refl d)) ((h e).mpr (.refl e))

namespace Shape

/-- The shape is the greatest one below all shapes of the list. -/
def IsMeet (m : Shape) (ts : List Shape) : Prop :=
  ∀ s : Shape, s.AtMost m ↔ ∀ t ∈ ts, s.AtMost t

theorem IsMeet.unique {m n : Shape} {ts : List Shape} (h : m.IsMeet ts) (h' : n.IsMeet ts) : m = n :=
  eq_of_forall_atMost_iff fun s => (h s).trans (h' s).symm

theorem isMeet_congr {m : Shape} {ts us : List Shape} (same : ∀ t, t ∈ us ↔ t ∈ ts) :
    m.IsMeet us ↔ m.IsMeet ts := by
  simp only [IsMeet, same]

theorem IsMeet.atMost {m t : Shape} {ts : List Shape} (h : m.IsMeet ts) (ht : t ∈ ts) : m.AtMost t :=
  (h m).mp (.refl m) t ht

theorem dims_atMost_dims_iff {ds es : List Dim} :
    (dims ds).AtMost (dims es) ↔ ds.length = es.length ∧
      ∀ (axis : Nat) (d e : Dim), ds[axis]? = some d → es[axis]? = some e → d.AtMost e := by
  constructor
  · intro h
    cases h with
    | dims each => exact ⟨each.length_eq, fun _ _ _ hd he => forall₂_getElem? each hd he⟩
  · rintro ⟨length_eq, each⟩
    refine .dims (List.forall₂_iff_get.mpr ⟨length_eq, fun i hi hj => ?_⟩)
    exact each i _ _ (List.getElem?_eq_getElem hi) (List.getElem?_eq_getElem hj)

/-- Merging shapes one by one finds a shape exactly where that is the greatest one below all. -/
theorem foldlM_merge_eq_ok_iff {first m : Shape} {rest : List Shape} :
    rest.foldlM merge first = .ok m ↔ m.IsMeet (first :: rest) := by
  induction rest generalizing first with
  | nil =>
    rw [List.foldlM_nil, IsMeet]
    constructor
    · intro h
      cases h
      simp
    · intro h
      have same : ∀ s : Shape, s.AtMost m ↔ s.AtMost first := by simpa using h
      rw [eq_of_forall_atMost_iff same]
      rfl
  | cons t rest ih =>
    rw [List.foldlM_cons]
    cases hmerge : merge first t with
    | error e =>
      refine iff_of_false (by simp [bind, Except.bind]) fun h => ?_
      have below : m.AtMost first ∧ m.AtMost t :=
        ⟨h.atMost List.mem_cons_self, h.atMost (List.mem_cons_of_mem _ List.mem_cons_self)⟩
      obtain ⟨x, hx⟩ := exists_merge.mpr ⟨m, below⟩
      cases hmerge.symm.trans hx
    | ok x =>
      show rest.foldlM merge x = .ok m ↔ _
      rw [ih]
      refine forall_congr' fun s => ?_
      rw [List.forall_mem_cons, List.forall_mem_cons, List.forall_mem_cons, merge_eq_ok_iff.mp hmerge,
        and_assoc]

end Shape

namespace ShapeRules

open Shape

/-! ## One axis -/

/-- Along one axis the greatest extent below all is found, if there is one. -/
theorem combineAxis_eq_ok_iff {axis : Nat} {seen : Option UInt64} {column : List Dim} {d : Dim} :
    combineAxis axis seen column = .ok d ↔
      ∀ f : Dim, f.AtMost d ↔ f.AtMost (seen.elim .anything .known) ∧ ∀ e ∈ column, f.AtMost e := by
  induction column generalizing seen with
  | nil =>
    rw [combineAxis, Except.ok.injEq]
    constructor
    · rintro rfl
      simp
    · intro h
      exact Dim.eq_of_forall_atMost_iff fun f => by simpa using (h f).symm
  | cons e column ih =>
    cases e with
    | anything =>
      rw [combineAxis, ih]
      simp [Dim.AtMost]
    | known n =>
      cases seen with
      | none =>
        rw [combineAxis, ih]
        simp [Dim.AtMost]
      | some m =>
        rw [combineAxis]
        split
        · rename_i same
          rw [ih]
          simp [same]
        · rename_i differ
          refine iff_of_false (by simp) fun h => differ ?_
          obtain ⟨hm, hn⟩ := (h d).mp (.refl d)
          have hn : d.AtMost (.known n) := hn _ List.mem_cons_self
          simp only [Dim.AtMost, Option.elim, reduceCtorEq, false_or] at hm hn
          exact Dim.known.inj (hm.symm.trans hn)

/-! ## All axes -/

/-- The extents of some arrays on one axis. -/
def column (dss : List (List Dim)) (axis : Nat) : List Dim :=
  dss.filterMap fun ds => ds[axis]?

theorem mem_column {dss : List (List Dim)} {axis : Nat} {d : Dim} :
    d ∈ column dss axis ↔ ∃ ds ∈ dss, ds[axis]? = some d :=
  List.mem_filterMap

/-- Combining finds extents if all arrays have one rank, and the extents of every axis are found. -/
theorem combine_eq_ok_iff {first ms : List Dim} {rest : List (List Dim)} :
    combine (first :: rest) = .ok ms ↔
      (∀ ds ∈ first :: rest, ds.length = ms.length) ∧
        ∀ axis m, ms[axis]? = some m → combineAxis axis none (column (first :: rest) axis) = .ok m := by
  rw [combine]
  split
  · rename_i differ
    obtain ⟨ds, hds, hne⟩ : ∃ ds ∈ rest, ds.length ≠ first.length := by simpa using differ
    refine iff_of_false (by simp) fun h => hne ?_
    rw [h.1 ds (List.mem_cons_of_mem _ hds), h.1 first List.mem_cons_self]
  · rename_i ranks
    have ranks : ∀ ds ∈ rest, ds.length = first.length := by simpa using ranks
    rw [mapM_eq_ok_iff, List.forall₂_iff_get]
    simp only [List.length_range, List.get_eq_getElem, List.getElem_range]
    constructor
    · rintro ⟨length_eq, each⟩
      refine ⟨?_, fun axis m hm => ?_⟩
      · rw [List.forall_mem_cons, ← length_eq]
        exact ⟨rfl, ranks⟩
      · obtain ⟨hlt, rfl⟩ := List.getElem?_eq_some_iff.mp hm
        exact each axis (length_eq ▸ hlt) hlt
    · rintro ⟨length_eq, each⟩
      exact ⟨length_eq first List.mem_cons_self, fun axis _ hlt =>
        each axis _ (List.getElem?_eq_getElem hlt)⟩

/-- Combining arrays finds extents exactly where these are the greatest ones below all arrays. -/
theorem combine_eq_ok_iff_isMeet {first ms : List Dim} {rest : List (List Dim)} :
    combine (first :: rest) = .ok ms ↔ (dims ms).IsMeet ((first :: rest).map dims) := by
  rw [combine_eq_ok_iff, IsMeet]
  simp only [combineAxis_eq_ok_iff, List.forall_mem_map, mem_column]
  constructor
  · rintro ⟨ranks, axes⟩ s
    constructor
    · intro hs ds hds
      refine hs.trans (dims_atMost_dims_iff.mpr ⟨(ranks ds hds).symm, fun axis m d hm hd => ?_⟩)
      exact ((axes axis m hm m).mp (.refl m)).2 d ⟨ds, hds, hd⟩
    · intro hs
      obtain ⟨es, rfl, -⟩ := atMost_dims_iff.mp (hs first List.mem_cons_self)
      have length_eq := (dims_atMost_dims_iff.mp (hs first List.mem_cons_self)).1
      refine dims_atMost_dims_iff.mpr ⟨length_eq.trans (ranks first List.mem_cons_self), ?_⟩
      intro axis e m he hm
      refine (axes axis m hm e).mpr ⟨.inl rfl, ?_⟩
      rintro d ⟨ds, hds, hd⟩
      exact (dims_atMost_dims_iff.mp (hs ds hds)).2 axis e d he hd
  · intro meet
    have below : ∀ ds ∈ first :: rest, (dims ms).AtMost (dims ds) := (meet (dims ms)).mp (.refl _)
    have ranks : ∀ ds ∈ first :: rest, ds.length = ms.length := fun ds hds =>
      (dims_atMost_dims_iff.mp (below ds hds)).1.symm
    refine ⟨ranks, fun axis m hm f => ⟨fun hf => ⟨.inl rfl, ?_⟩, fun ⟨_, hf⟩ => ?_⟩⟩
    · rintro d ⟨ds, hds, hd⟩
      exact hf.trans ((dims_atMost_dims_iff.mp (below ds hds)).2 axis m d hm hd)
    · -- With the extent in the place of the one that was found, the arrays still have it below them.
      obtain ⟨hlt, -⟩ := List.getElem?_eq_some_iff.mp hm
      have hset : (dims (ms.set axis f)).AtMost (dims ms) := by
        refine (meet _).mpr fun ds hds => dims_atMost_dims_iff.mpr ⟨?_, fun i e d he hd => ?_⟩
        · rw [List.length_set, ranks ds hds]
        · rw [List.getElem?_set] at he
          split at he
          · rename_i same
            cases he
            exact hf d ⟨ds, hds, same ▸ hd⟩
          · exact (dims_atMost_dims_iff.mp (below ds hds)).2 i e d he hd
      exact (dims_atMost_dims_iff.mp hset).2 axis f m (List.getElem?_set_self hlt) hm

/-! ## The rule -/

/-- Combining arrays and merging their shapes find the same extents. -/
theorem combine_eq_ok_iff_merge {first ms : List Dim} {rest : List (List Dim)} :
    combine (first :: rest) = .ok ms ↔
      (rest.map dims).foldlM merge (dims first) = .ok (dims ms) :=
  combine_eq_ok_iff_isMeet.trans foldlM_merge_eq_ok_iff.symm

/-- Only an array is below arrays. -/
theorem exists_dims_of_foldlM_merge {first : List Dim} {rest : List (List Dim)} {s : Shape}
    (h : (rest.map dims).foldlM merge (dims first) = .ok s) : ∃ ms, s = dims ms := by
  have below : s.AtMost (dims first) := (foldlM_merge_eq_ok_iff.mp h).atMost List.mem_cons_self
  obtain ⟨ms, rfl, -⟩ := atMost_dims_iff.mp below
  exact ⟨ms, rfl⟩

/-- What arrays are combined to depends on which extents they have only. -/
theorem combine_congr {first : List Dim} {rest dss : List (List Dim)}
    (same : ∀ ds, ds ∈ dss ↔ ds ∈ first :: rest) :
    (combine dss).toOption = (combine (first :: rest)).toOption := by
  cases dss with
  | nil => exact absurd ((same first).mpr List.mem_cons_self) List.not_mem_nil
  | cons first' rest' =>
    refine toOption_eq_of_forall fun ms => ?_
    rw [combine_eq_ok_iff_isMeet, combine_eq_ok_iff_isMeet]
    refine isMeet_congr fun t => ?_
    simp only [List.mem_map, same]

/-- An extent is unknown only if it is unknown in every array. -/
theorem anything_of_combine {first ms : List Dim} {rest : List (List Dim)} {axis : Nat}
    (h : combine (first :: rest) = .ok ms) (unknown : ms[axis]? = some .anything) {ds : List Dim}
    (hds : ds ∈ first :: rest) : ds[axis]? = some .anything := by
  have below : (dims ms).AtMost (dims ds) :=
    (combine_eq_ok_iff_isMeet.mp h).atMost (List.mem_map_of_mem hds)
  obtain ⟨length_eq, each⟩ := dims_atMost_dims_iff.mp below
  obtain ⟨hlt, -⟩ := List.getElem?_eq_some_iff.mp unknown
  have hget := List.getElem?_eq_getElem (length_eq ▸ hlt)
  rcases each axis _ _ unknown hget with heq | heq
  · rw [hget, heq]
  · rw [hget, ← heq]

theorem result?_arrayMap {w : Answers} {xs : List Ref} {dss : List (List Dim)}
    (shapes : List.Forall₂ (fun x ds => w.Shapes x (.dims ds)) xs dss) (track : Track) (f : Ref) :
    (arrayMap track (f :: xs)).result? w
      = some ((combine dss).map fun ms => .shape (.dims ms)) := by
  show (Infer.arraysDims "array_map argument" xs >>= _).result? w = _
  rw [Infer.result?_of_ok (Answers.result?_arraysDims shapes _)]
  exact Infer.result?_ofExcept_seq _ _

/-- The extents of arrays that are combined elementwise are those that come from merging the shapes of
the arrays one by one, and one is found exactly if the other is. It makes no difference which array
comes first, and an extent is unknown only if no array knows it. The rule for elementwise maps finds
them, whatever is asked for its arguments. -/
theorem arrayMap_merges (first : List Dim) (rest : List (List Dim)) :
    (∀ ms, combine (first :: rest) = .ok ms
        ↔ (rest.map dims).foldlM merge (dims first) = .ok (dims ms))
      ∧ (∀ s, (rest.map dims).foldlM merge (dims first) = .ok s → ∃ ms, s = dims ms)
      ∧ (∀ dss : List (List Dim), (∀ ds, ds ∈ dss ↔ ds ∈ first :: rest) →
        (combine dss).toOption = (combine (first :: rest)).toOption)
      ∧ (∀ (ms : List Dim) (axis : Nat), combine (first :: rest) = .ok ms →
        ms[axis]? = some .anything → ∀ ds ∈ first :: rest, ds[axis]? = some .anything)
      ∧ ∀ (w : Answers) (track : Track) (f : Ref) (xs : List Ref),
        List.Forall₂ (fun x ds => w.Shapes x (.dims ds)) xs (first :: rest) →
        (arrayMap track (f :: xs)).result? w
          = some ((combine (first :: rest)).map fun ms => .shape (.dims ms)) := by
  refine ⟨fun ms => combine_eq_ok_iff_merge, fun s => exists_dims_of_foldlM_merge,
    fun dss => combine_congr, fun ms axis h unknown ds hds => anything_of_combine h unknown hds, ?_⟩
  exact fun w track f xs shapes => result?_arrayMap shapes track f

/-- Two arrays that know one extent each, with one between them that knows none. -/
def scattered : List (List Dim) :=
  [[.known 4, .anything], [.anything, .anything], [.anything, .known 7]]

/-- Together they know both. -/
theorem arrayMap_merges_scattered :
    ∃ w : Answers,
      List.Forall₂ (fun x ds => w.Shapes x (.dims ds)) (scattered.map Answers.arrayOf) scattered
        ∧ (arrayMap .shape (Answers.arrayOf [] :: scattered.map Answers.arrayOf)).result? w
          = some (.ok (.shape (.dims [.known 4, .known 7]))) := by
  let w := (Engine.new .empty (.empty ⟨0⟩) .standard).answers
  have shapes : List.Forall₂ (fun x ds => w.Shapes x (.dims ds)) (scattered.map Answers.arrayOf)
      scattered := by
    rw [List.forall₂_map_left_iff, List.forall₂_same]
    exact fun ds _ => w.shapes_arrayOf ds
  obtain ⟨-, -, -, -, rule⟩ := arrayMap_merges [.known 4, .anything]
    [[.anything, .anything], [.anything, .known 7]]
  exact ⟨w, shapes, rule w .shape (Answers.arrayOf []) _ shapes⟩

/-- An array with an unknown extent does not stand between two arrays that do not agree. -/
example : (combine [[.known 4], [.anything], [.known 9]]).toOption = none := rfl

end ShapeRules

end ArrayInference
