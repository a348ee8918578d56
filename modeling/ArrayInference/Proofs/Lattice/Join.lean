import ArrayInference.Proofs.Lattice.Meet

/-!
# The shape that the elements of a list have in common

Shapes have something in common if they are equal or describe arrays of one rank. What they have in
common is then their least upper bound, and so depends on which shapes the list holds only, not on
their order or number. The same goes for the error where they have nothing in common. Main statement:
`common_isJoin`.
-/

namespace ArrayInference

namespace Shape

/-- The second shape is the first one, or the first one with some of its extents unknown. The shapes
inside of another one are never widened. -/
inductive Widens : Shape → Shape → Prop where
  | refl (s : Shape) : Widens s s
  | dims {ds es : List Dim} (each : List.Forall₂ Dim.AtMost ds es) : Widens (.dims ds) (.dims es)

theorem Widens.atMost {s t : Shape} (h : s.Widens t) : s.AtMost t := by
  cases h with
  | refl => exact .refl s
  | dims each => exact .dims each

theorem widens_dims_iff {ds : List Dim} {t : Shape} : (dims ds).Widens t ↔ (dims ds).AtMost t := by
  refine ⟨Widens.atMost, fun h => ?_⟩
  cases h with
  | dims each => exact .dims each

/-- The shapes have something in common: they are one shape, or arrays of one rank. -/
def Matching (ts : List Shape) : Prop :=
  (∃ s, ∀ t ∈ ts, t = s) ∨ ∃ rank, ∀ t ∈ ts, t.rank? = some rank

/-- The shape is the least one that all shapes of the list are at or below, both in the order of all
shapes and where only their own extents may be widened. -/
structure IsJoin (s : Shape) (ts : List Shape) : Prop where
  atMost_iff : ∀ t, s.AtMost t ↔ ∀ x ∈ ts, x.AtMost t
  widens_iff : ∀ t, s.Widens t ↔ ∀ x ∈ ts, x.Widens t

/-- Why shapes that do not match have nothing in common. -/
def mismatch (ts : List Shape) : InferError :=
  if ∀ t ∈ ts, t.dims?.isSome then .structural "arrays of differing rank"
  else .structural "mismatched element shapes in list"

section Members

variable {ts us : List Shape} (same : ∀ t, t ∈ us ↔ t ∈ ts)
include same

theorem matching_congr : Matching us ↔ Matching ts := by
  simp only [Matching, same]

theorem isJoin_congr {s : Shape} : s.IsJoin us ↔ s.IsJoin ts := by
  constructor
  · rintro ⟨atMost_iff, widens_iff⟩
    exact ⟨by simpa only [same] using atMost_iff, by simpa only [same] using widens_iff⟩
  · rintro ⟨atMost_iff, widens_iff⟩
    exact ⟨by simpa only [same] using atMost_iff, by simpa only [same] using widens_iff⟩

theorem mismatch_congr : mismatch us = mismatch ts := by
  simp only [mismatch, same]

end Members

theorem IsJoin.unique {s s' : Shape} {ts : List Shape} (h : s.IsJoin ts) (h' : s'.IsJoin ts) :
    s = s' :=
  AtMost.antisymm ((h.atMost_iff s').mpr ((h'.atMost_iff s').mp (.refl s')))
    ((h'.atMost_iff s).mpr ((h.atMost_iff s).mp (.refl s)))

/-! ## One shape, or arrays of one rank -/

theorem mapM_dims?_eq_some_iff {ts : List Shape} {dss : List (List Dim)} :
    ts.mapM dims? = some dss ↔ ts = dss.map dims := by
  induction ts generalizing dss with
  | nil => cases dss <;> simp
  | cons t ts ih =>
    rw [List.mapM_cons]
    cases t with
    | dims ds => cases h : ts.mapM dims? <;> cases dss <;> simp [dims?, ← ih, h]
    | _ => cases dss <;> simp [dims?]

theorem exists_eq_map_dims {ts : List Shape} (h : ∀ t ∈ ts, t.dims?.isSome) :
    ∃ dss : List (List Dim), ts = dss.map dims := by
  induction ts with
  | nil => exact ⟨[], rfl⟩
  | cons t ts ih =>
    rw [List.forall_mem_cons] at h
    obtain ⟨dss, rfl⟩ := ih h.2
    cases t with
    | dims ds => exact ⟨ds :: dss, rfl⟩
    | _ => cases h.1

/-- Matching shapes are all equal to the first one, or all arrays of its rank. -/
theorem matching_cons_iff {first : Shape} {rest : List Shape} :
    Matching (first :: rest) ↔ (∀ t ∈ rest, t = first) ∨
      ∃ (ds : List Dim) (others : List (List Dim)), first = dims ds ∧ rest = others.map dims ∧
        ∀ es ∈ others, es.length = ds.length := by
  constructor
  · rintro (⟨s, h⟩ | ⟨rank, h⟩)
    · rw [List.forall_mem_cons] at h
      exact .inl fun t ht => (h.2 t ht).trans h.1.symm
    · have arrays : ∀ t ∈ first :: rest, t.dims?.isSome := fun t ht => by
        simpa [rank?] using Option.isSome_of_eq_some (h t ht)
      obtain ⟨dss, hdss⟩ := exists_eq_map_dims arrays
      cases dss with
      | nil => cases hdss
      | cons ds others =>
        obtain ⟨rfl, rfl⟩ := List.cons.inj hdss
        rw [← List.map_cons, List.forall_mem_map, List.forall_mem_cons] at h
        refine .inr ⟨ds, others, rfl, rfl, fun es hes => ?_⟩
        exact Option.some.inj ((h.2 es hes).trans h.1.symm)
  · rintro (h | ⟨ds, others, rfl, rfl, h⟩)
    · exact .inl ⟨first, by simpa using h⟩
    · refine .inr ⟨ds.length, ?_⟩
      rw [← List.map_cons, List.forall_mem_map]
      simpa [rank?, dims?] using h

theorem isJoin_of_forall_eq {first : Shape} {rest : List Shape} (same : ∀ t ∈ rest, t = first) :
    first.IsJoin (first :: rest) := by
  have hall : ∀ x ∈ first :: rest, x = first := by simpa using same
  constructor
  · exact fun t => ⟨fun h x hx => hall x hx ▸ h, fun h => h first List.mem_cons_self⟩
  · exact fun t => ⟨fun h x hx => hall x hx ▸ h, fun h => h first List.mem_cons_self⟩

/-- A shape is an upper bound of arrays of one rank exactly if it is above the array with an unknown
extent wherever they disagree. -/
theorem atMost_widen_iff {first : List Dim} {others : List (List Dim)} {t : Shape}
    (rank : ∀ ds ∈ others, ds.length = first.length) :
    (dims (widen first others)).AtMost t ↔ ∀ ds ∈ first :: others, (dims ds).AtMost t := by
  constructor
  · intro h ds hds
    refine (atMost_widen (List.mem_cons.mp hds) ?_).trans h
    rcases List.mem_cons.mp hds with rfl | hds
    · rfl
    · exact rank ds hds
  · intro h
    cases h first List.mem_cons_self with
    | @dims _ es hfirst =>
      have length_eq := hfirst.length_eq
      refine .dims (List.forall₂_iff_get.mpr ⟨by simpa [widen] using length_eq, fun i hi hj => ?_⟩)
      have hi' : i < first.length := by simpa [widen] using hi
      have le : first[i].AtMost es[i] := (List.forall₂_iff_get.mp hfirst).2 i hi' hj
      simp only [List.get_eq_getElem, widen, List.getElem_mapIdx]
      split
      · exact le
      · -- Some other array has another extent on this axis, and the bound is above both of them.
        rename_i hne
        obtain ⟨ds, hds, hne⟩ : ∃ ds ∈ others, ds[i]? ≠ some first[i] := by simpa using hne
        cases h ds (List.mem_cons_of_mem _ hds) with
        | dims each =>
          have hk : i < ds.length := each.length_eq ▸ hj
          have le' : ds[i].AtMost es[i] := (List.forall₂_iff_get.mp each).2 i hk hj
          rw [List.getElem?_eq_getElem hk] at hne
          rcases le with hany | heq
          · exact .inl hany
          · rcases le' with hany | heq'
            · exact .inl hany
            · exact absurd (congrArg some (heq'.trans heq.symm)) hne

theorem isJoin_widen {first : List Dim} {others : List (List Dim)}
    (rank : ∀ ds ∈ others, ds.length = first.length) :
    (dims (widen first others)).IsJoin ((first :: others).map dims) := by
  constructor
  · intro t
    rw [List.forall_mem_map, atMost_widen_iff rank]
  · intro t
    simp only [List.forall_mem_map, widens_dims_iff, atMost_widen_iff rank]

/-! ## What is computed -/

theorem common_of_forall_eq {first : Shape} {rest : List Shape} (same : ∀ t ∈ rest, t = first) :
    common (first :: rest) = .ok first := by
  rw [common, if_pos (by simpa using same)]

theorem common_dims {first : List Dim} {others : List (List Dim)}
    (differ : ¬ ∀ t ∈ others.map dims, t = dims first) :
    common (dims first :: others.map dims) =
      if ∀ ds ∈ others, ds.length = first.length then .ok (dims (widen first others))
      else .error (.structural "arrays of differing rank") := by
  have hany : others.any (fun ds => ds.length ≠ first.length)
      = !decide (∀ ds ∈ others, ds.length = first.length) := by
    rw [Bool.eq_iff_iff]
    simp
  rw [common, if_neg (by simpa using differ), mapM_dims?_eq_some_iff.mpr rfl]
  simp only [dims?, hany]
  split <;> simp_all

/-- Matching shapes have their least upper bound in common. -/
theorem exists_common_of_matching {first : Shape} {rest : List Shape}
    (h : Matching (first :: rest)) :
    ∃ s, common (first :: rest) = .ok s ∧ s.IsJoin (first :: rest) := by
  by_cases same : ∀ t ∈ rest, t = first
  · exact ⟨first, common_of_forall_eq same, isJoin_of_forall_eq same⟩
  · obtain ⟨ds, others, rfl, rfl, rank⟩ := (matching_cons_iff.mp h).resolve_left same
    exact ⟨_, by rw [common_dims same, if_pos rank], isJoin_widen rank⟩

/-- Shapes that do not match have nothing in common, and the error says why. -/
theorem common_of_not_matching {first : Shape} {rest : List Shape}
    (h : ¬ Matching (first :: rest)) :
    common (first :: rest) = .error (mismatch (first :: rest)) := by
  rw [matching_cons_iff, not_or] at h
  obtain ⟨differ, h⟩ := h
  by_cases arrays : ∀ t ∈ first :: rest, t.dims?.isSome
  · rw [mismatch, if_pos arrays]
    obtain ⟨dss, hdss⟩ := exists_eq_map_dims arrays
    cases dss with
    | nil => cases hdss
    | cons ds others =>
      obtain ⟨rfl, rfl⟩ := List.cons.inj hdss
      rw [common_dims differ, if_neg fun rank => h ⟨ds, others, rfl, rfl, rank⟩]
  · rw [mismatch, if_neg arrays, common, if_neg (by simpa using differ)]
    split
    · rename_i ds others hfirst hrest
      refine absurd ?_ arrays
      rw [mapM_dims?_eq_some_iff] at hrest
      rw [List.forall_mem_cons, hfirst, hrest, List.forall_mem_map]
      exact ⟨rfl, fun _ _ => rfl⟩
    · rfl

theorem matching_of_common {first s : Shape} {rest : List Shape}
    (h : common (first :: rest) = .ok s) : Matching (first :: rest) := by
  by_contra hne
  rw [common_of_not_matching hne] at h
  cases h

theorem isJoin_of_common {first s : Shape} {rest : List Shape}
    (h : common (first :: rest) = .ok s) : s.IsJoin (first :: rest) := by
  obtain ⟨s', hs', join⟩ := exists_common_of_matching (matching_of_common h)
  rw [hs', Except.ok.injEq] at h
  exact h ▸ join

/-- What shapes have in common depends on which shapes there are only, and so does the error. -/
theorem common_congr {ts us : List Shape} (same : ∀ t, t ∈ us ↔ t ∈ ts) :
    common us = common ts := by
  cases us with
  | nil => rw [List.eq_nil_iff_forall_not_mem.mpr fun t ht => List.not_mem_nil ((same t).mpr ht)]
  | cons first rest =>
    cases ts with
    | nil => exact absurd ((same first).mp List.mem_cons_self) List.not_mem_nil
    | cons first' rest' =>
      by_cases h : Matching (first' :: rest')
      · obtain ⟨s, hs, join⟩ := exists_common_of_matching ((matching_congr same).mpr h)
        obtain ⟨s', hs', join'⟩ := exists_common_of_matching h
        rw [hs, hs', ((isJoin_congr same).mp join).unique join']
      · rw [common_of_not_matching h, common_of_not_matching (h ∘ (matching_congr same).mp),
          mismatch_congr same]

/-- Shapes have something in common exactly if they are equal or arrays of one rank, and what they
have in common is the least shape that all of them are at or below, where only their own extents may
be widened. Merging it with one of the shapes gives that shape back. Neither the order of the shapes
nor their number matters, for the result and for the error. -/
theorem common_isJoin (first : Shape) (rest : List Shape) :
    ((∃ s, common (first :: rest) = .ok s) ↔ Matching (first :: rest))
      ∧ (∀ s, common (first :: rest) = .ok s →
        s.IsJoin (first :: rest) ∧ ∀ x ∈ first :: rest, merge s x = .ok x)
      ∧ (∀ e, common (first :: rest) = .error e → e = mismatch (first :: rest))
      ∧ ∀ ts, (∀ t, t ∈ ts ↔ t ∈ first :: rest) → common ts = common (first :: rest) := by
  refine ⟨⟨fun ⟨s, h⟩ => matching_of_common h, fun h => ?_⟩, fun s h => ?_, fun e h => ?_,
    fun ts => common_congr⟩
  · obtain ⟨s, hs, _⟩ := exists_common_of_matching h
    exact ⟨s, hs⟩
  · have join := isJoin_of_common h
    refine ⟨join, fun x hx => merge_comm_of_ok.mp (merge_eq_left_iff.mpr ?_)⟩
    exact (join.atMost_iff s).mp (.refl s) x hx
  · have hne : ¬ Matching (first :: rest) := fun matching => by
      obtain ⟨s, hs, _⟩ := exists_common_of_matching matching
      rw [hs] at h
      cases h
    rw [common_of_not_matching hne, Except.error.injEq] at h
    exact h.symm

/-- Batches of five and of seven rows have an unknown number of rows in common, however often and in
whatever order they come. -/
theorem common_isJoin_batches :
    common [dims [.known 5, .anything], dims [.known 7, .anything]]
        = .ok (dims [.anything, .anything])
      ∧ merge (dims [.anything, .anything]) (dims [.known 7, .anything])
        = .ok (dims [.known 7, .anything])
      ∧ common [dims [.known 7, .anything], dims [.known 5, .anything], dims [.known 7, .anything]]
        = .ok (dims [.anything, .anything]) := by
  have hcommon : common [dims [.known 5, .anything], dims [.known 7, .anything]]
      = .ok (dims [.anything, .anything]) := rfl
  obtain ⟨-, join, -, congr⟩ :=
    common_isJoin (dims [.known 5, .anything]) [dims [.known 7, .anything]]
  refine ⟨hcommon, (join _ hcommon).2 _ (by simp), (congr _ ?_).trans hcommon⟩
  simp [or_comm]

end Shape

end ArrayInference
