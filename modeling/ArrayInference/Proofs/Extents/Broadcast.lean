import ArrayInference.Proofs.Extents.Alignment
import ArrayInference.Proofs.Extents.Crossing
import Mathlib.Data.Set.List

/-!
# Broadcasting

Two arrays are broadcast axis by axis, from the last axis on: an axis of extent one takes the extent of
the other, and other extents must be the same. So broadcasting is commutative and associative, also in
where it fails, and the shape without axes changes nothing. An array can be distributed to what it is
broadcast to, and can be reduced from there. Main statement: `broadcast_fits`.
-/

namespace ArrayInference

open Dim

namespace ValueRules

/-! ## One axis -/

/-- An axis of extent one takes every extent, and other extents must be the same. -/
theorem broadcastDim_eq_some_iff {d e f : Dim} :
    broadcastDim d e = some f ↔
      (d = known 1 ∨ d = f) ∧ (e = known 1 ∨ e = f) ∧ (f = d ∨ f = e) := by
  rw [broadcastDim]
  grind

theorem broadcastDim_comm (d e : Dim) : broadcastDim d e = broadcastDim e d := by
  refine Option.ext fun f => ?_
  rw [broadcastDim_eq_some_iff, broadcastDim_eq_some_iff]
  grind

/-- The same for three extents, of which the first two are broadcast first. -/
theorem broadcastDim_bind_eq_some_iff {c d e f : Dim} :
    ((broadcastDim c d).bind fun x => broadcastDim x e) = some f ↔
      (c = known 1 ∨ c = f) ∧ (d = known 1 ∨ d = f) ∧ (e = known 1 ∨ e = f)
        ∧ (f = c ∨ f = d ∨ f = e) := by
  simp only [Option.bind_eq_some_iff, broadcastDim_eq_some_iff]
  constructor
  · rintro ⟨x, ⟨hc, hd, hx⟩, hx', he, hf⟩
    grind
  · rintro ⟨hc, hd, he, hf⟩
    -- An extent of one gives way to the extent beside it.
    rcases hc with rfl | rfl
    · exact ⟨d, ⟨.inl rfl, .inr rfl, .inr rfl⟩, hd, he, by grind⟩
    · exact ⟨c, ⟨.inr rfl, hd, .inl rfl⟩, .inr rfl, he, .inl rfl⟩

theorem broadcastDim_assoc (c d e : Dim) :
    ((broadcastDim c d).bind fun x => broadcastDim x e)
      = (broadcastDim d e).bind fun x => broadcastDim c x := by
  refine Option.ext fun f => ?_
  simp only [broadcastDim_comm c, broadcastDim_bind_eq_some_iff]
  grind

theorem broadcastable_of_broadcastDim {d e f : Dim} (h : broadcastDim d e = some f) :
    d.broadcastable f = true := by
  have same : f.compatible f = true := by cases f <;> simp [compatible]
  rcases (broadcastDim_eq_some_iff.mp h).1 with rfl | rfl <;> simp [broadcastable, same]

/-! ## All axes -/

theorem exists_broadcastDims_iff {ds es : List Dim} :
    (∃ ms, broadcastDims ds es = some ms)
      ↔ ∀ i, ∃ m, broadcastDim (trailing ds i) (trailing es i) = some m := by
  constructor
  · rintro ⟨ms, h⟩ i
    exact ⟨_, (broadcastDims_eq_some_iff.mp h).2 i⟩
  · intro h
    choose m hm using h
    let rank := max ds.length es.length
    refine ⟨((List.range rank).map m).reverse, broadcastDims_eq_some_iff.mpr ⟨by simp [rank], ?_⟩⟩
    intro i
    rw [hm i, Option.some.injEq]
    rcases Nat.lt_or_ge i rank with hi | hi
    · simp [trailing, hi]
    · -- In front of both arrays there are only ones.
      rw [trailing_of_length_le (by simpa using hi)]
      have ones := hm i
      rw [trailing_of_length_le (Nat.le_trans (Nat.le_max_left _ _) hi),
        trailing_of_length_le (Nat.le_trans (Nat.le_max_right _ _) hi)] at ones
      exact (Option.some.inj ones).symm

theorem broadcastDims_comm (ds es : List Dim) : broadcastDims ds es = broadcastDims es ds := by
  refine Option.ext fun ms => ?_
  rw [broadcastDims_eq_some_iff, broadcastDims_eq_some_iff, Nat.max_comm]
  simp only [broadcastDim_comm]

/-- Three arrays are broadcast axis by axis. -/
theorem broadcastDims_bind_eq_some_iff {cs ds es ms : List Dim} :
    ((broadcastDims cs ds).bind fun xs => broadcastDims xs es) = some ms ↔
      ms.length = max (max cs.length ds.length) es.length ∧
        ∀ i, ((broadcastDim (trailing cs i) (trailing ds i)).bind fun x =>
          broadcastDim x (trailing es i)) = some (trailing ms i) := by
  rw [Option.bind_eq_some_iff]
  constructor
  · rintro ⟨xs, hxs, h⟩
    rw [broadcastDims_eq_some_iff] at hxs h
    refine ⟨hxs.1 ▸ h.1, fun i => ?_⟩
    rw [hxs.2 i]
    exact h.2 i
  · rintro ⟨length_eq, h⟩
    have first : ∀ i, ∃ x, broadcastDim (trailing cs i) (trailing ds i) = some x := fun i => by
      obtain ⟨x, hx, -⟩ := Option.bind_eq_some_iff.mp (h i)
      exact ⟨x, hx⟩
    obtain ⟨xs, hxs⟩ := exists_broadcastDims_iff.mpr first
    obtain ⟨length_eq', each⟩ := broadcastDims_eq_some_iff.mp hxs
    refine ⟨xs, hxs, broadcastDims_eq_some_iff.mpr ⟨length_eq' ▸ length_eq, fun i => ?_⟩⟩
    have hi := h i
    rw [each i] at hi
    exact hi

theorem broadcastDims_assoc (cs ds es : List Dim) :
    ((broadcastDims cs ds).bind fun xs => broadcastDims xs es)
      = (broadcastDims ds es).bind fun xs => broadcastDims cs xs := by
  refine Option.ext fun ms => ?_
  have turned : ((broadcastDims ds es).bind fun xs => broadcastDims cs xs)
      = (broadcastDims ds es).bind fun xs => broadcastDims xs cs := by
    simp only [broadcastDims_comm cs]
  rw [turned, broadcastDims_bind_eq_some_iff, broadcastDims_bind_eq_some_iff]
  simp only [broadcastDim_assoc, broadcastDim_comm _ (trailing cs _), Nat.max_comm _ cs.length,
    Nat.max_assoc]

theorem broadcastDims_nil (ds : List Dim) : broadcastDims [] ds = some ds := by
  rw [broadcastDims_eq_some_iff]
  exact ⟨(Nat.zero_max _).symm, fun i => if_pos rfl⟩

/-- Both arrays fit what they are broadcast to. -/
theorem fits_of_broadcastDims {ds es ms : List Dim} (h : broadcastDims ds es = some ms) :
    Fits ds ms ∧ Fits es ms := by
  have left {ds es : List Dim} (h : broadcastDims ds es = some ms) : Fits ds ms := by
    obtain ⟨length_eq, each⟩ := broadcastDims_eq_some_iff.mp h
    exact ⟨length_eq ▸ Nat.le_max_left _ _, fun i => broadcastable_of_broadcastDim (each i)⟩
  exact ⟨left h, left (broadcastDims_comm ds es ▸ h)⟩

/-- Every extent that arrays are broadcast to is an extent of one of them, or one. -/
theorem mem_of_broadcastDims {ds es ms : List Dim} (h : broadcastDims ds es = some ms) {m : Dim}
    (hm : m ∈ ms) : m ∈ ds ∨ m ∈ es ∨ m = known 1 := by
  obtain ⟨i, rfl⟩ := exists_trailing_of_mem hm
  rcases (broadcastDim_eq_some_iff.mp ((broadcastDims_eq_some_iff.mp h).2 i)).2.2 with h | h
  · rcases trailing_mem_or ds i with mem | one
    · exact .inl (h ▸ mem)
    · exact .inr (.inr (h.trans one))
  · rcases trailing_mem_or es i with mem | one
    · exact .inr (.inl (h ▸ mem))
    · exact .inr (.inr (h.trans one))

end ValueRules

/-! ## Extents as a program writes them -/

/-- An extent as a program writes it: a signed integer that is not negative. -/
structure Extent where
  size : Int64
  nonneg : 0 ≤ size.toInt

namespace Extent

/-- The extent of an axis. -/
def dim (n : Extent) : Dim :=
  known n.size.toUInt64

/-- Extents as the constant that a program passes for them. -/
def tuple (ns : List Extent) : Constant :=
  .tuple (ns.map fun n => .int n.size)

/-- An argument with these extents as its value. -/
def target (ns : List Extent) : Ref :=
  .constant (tuple ns) (.tuple ⟨0⟩ (ns.map fun _ => .int ⟨0⟩ 64))

/-- An argument that is an array of these extents. -/
def array (ns : List Extent) : Ref :=
  Answers.arrayOf (ns.map dim)

variable {ms ns : List Extent}

theorem listOfConstant_tuple (ns : List Extent) : listOfConstant (tuple ns) = .ok (ns.map dim) := by
  refine listOfConstant_eq_ok_iff.mpr ⟨ns.map size, ?_, ?_, ?_⟩
  · rw [List.forall_mem_map]
    exact fun n _ => n.nonneg
  · rw [List.map_map]
    rfl
  · rw [List.map_map]
    rfl

theorem listToConstant?_dims (ns : List Extent) : listToConstant? (ns.map dim) = some (tuple ns) :=
  listToConstant?_of_listOfConstant (listOfConstant_tuple ns)

/-- What extents are broadcast to can be written again. -/
theorem exists_of_broadcastDims {ds : List Dim}
    (h : ValueRules.broadcastDims (ms.map dim) (ns.map dim) = some ds) :
    ∃ es : List Extent, ds = es.map dim := by
  have written : ds ∈ Set.range (List.map dim) := by
    rw [Set.range_list_map]
    intro d hd
    have own {ks : List Extent} (mem : d ∈ ks.map dim) : d ∈ Set.range dim := by
      obtain ⟨n, -, rfl⟩ := List.mem_map.mp mem
      exact ⟨n, rfl⟩
    rcases ValueRules.mem_of_broadcastDims h hd with mem | mem | rfl
    · exact own mem
    · exact own mem
    · exact ⟨⟨1, by decide⟩, rfl⟩
  obtain ⟨es, rfl⟩ := written
  exact ⟨es, rfl⟩

end Extent

/-! ## The rules -/

namespace Answers

variable {w : Answers} {s t : Ref}

/-- A reference is an array of some extents. -/
def IsArray (w : Answers) (x : Ref) (ns : List Extent) : Prop :=
  (∃ t, w.Types x t ∧ t.family = .array) ∧ w.Shapes x (.dims (ns.map Extent.dim))

theorem knows_target (w : Answers) (ns : List Extent) : w.Knows (Extent.target ns) (Extent.tuple ns) :=
  rfl

theorem isArray_array (w : Answers) (ns : List Extent) : w.IsArray (Extent.array ns) ns :=
  ⟨⟨_, rfl, rfl⟩, w.shapes_arrayOf _⟩

/-- A computation succeeds. -/
def Accepts (w : Answers) (b : Infer Property) : Prop :=
  ∃ p, b.result? w = some (.ok p)

/-- The extents that two references have as their values are broadcast to a constant. -/
def Folds (w : Answers) (s t : Ref) (r : Constant) : Prop :=
  (ValueRules.broadcastShape .value [s, t]).result? w = some (.ok (.value (.known r)))

/-- An operation on two known constants. -/
theorem result?_fold₂ {c d : Constant} (known : w.Knows s c) (known' : w.Knows t d)
    (op : Constant → Constant → Infer Property) :
    (Infer.fold₂ s t op).result? w = (op c d).result? w := by
  have values : (Infer.knownValues [s, t]).result? w = some (.ok (some [c, d])) := by
    rw [Infer.knownValues, Infer.result?_of_ok known]
    show (Infer.knownValues [t] >>= _).result? w = _
    rw [Infer.knownValues, Infer.result?_seq, Infer.result?_of_ok known']
    rfl
  rw [Infer.fold₂, Infer.result?_of_ok values]

variable {ms ns : List Extent}

theorem result?_broadcastShape (known : w.Knows s (Extent.tuple ms))
    (known' : w.Knows t (Extent.tuple ns)) :
    (ValueRules.broadcastShape .value [s, t]).result? w =
      match ValueRules.broadcastDims (ms.map Extent.dim) (ns.map Extent.dim) with
      | some ds => (Infer.folded (listToConstant? ds)).result? w
      | none => some (.error (.shape
          ("cannot broadcast " ++ (Extent.tuple ms).text ++ " and " ++ (Extent.tuple ns).text))) := by
  show (Infer.fold₂ s t _).result? w = _
  rw [result?_fold₂ known known', Extent.listOfConstant_tuple, Extent.listOfConstant_tuple]
  show Infer.result? w (match ValueRules.broadcastDims _ _ with | some _ => _ | none => _) = _
  split <;> rfl

theorem folds_iff (known : w.Knows s (Extent.tuple ms)) (known' : w.Knows t (Extent.tuple ns))
    {r : Constant} :
    w.Folds s t r ↔ ∃ es : List Extent, r = Extent.tuple es
      ∧ ValueRules.broadcastDims (ms.map Extent.dim) (ns.map Extent.dim)
        = some (es.map Extent.dim) := by
  rw [Folds, result?_broadcastShape known known']
  cases merged : ValueRules.broadcastDims (ms.map Extent.dim) (ns.map Extent.dim) with
  | none => simp
  | some ds =>
    obtain ⟨es, rfl⟩ := Extent.exists_of_broadcastDims merged
    have found : (Infer.folded (listToConstant? (es.map Extent.dim))).result? w
        = some (.ok (.value (.known (Extent.tuple es)))) := by
      rw [Extent.listToConstant?_dims]
      rfl
    simp only [found, Option.some.injEq, Except.ok.injEq, Property.value.injEq, Value.known.injEq]
    constructor
    · rintro rfl
      exact ⟨es, rfl, rfl⟩
    · rintro ⟨es', rfl, same⟩
      have written := Extent.listToConstant?_dims es
      rw [same, Extent.listToConstant?_dims] at written
      exact (Option.some.inj written).symm

theorem folds_tuple_iff (known : w.Knows s (Extent.tuple ms)) (known' : w.Knows t (Extent.tuple ns))
    {es : List Extent} :
    w.Folds s t (Extent.tuple es)
      ↔ ValueRules.broadcastDims (ms.map Extent.dim) (ns.map Extent.dim) = some (es.map Extent.dim) := by
  rw [folds_iff known known']
  constructor
  · rintro ⟨es', same, merged⟩
    have written := Extent.listToConstant?_dims es'
    rw [← same] at written
    rw [merged, eq_of_listToConstant? written (Extent.listToConstant?_dims es)]
  · exact fun merged => ⟨es, rfl, merged⟩

theorem accepts_ofExcept_iff {r : Except InferError (List Dim)} :
    w.Accepts (Infer.ofExcept r >>= fun ds => Infer.shape (.dims ds)) ↔ ∃ ds, r = .ok ds := by
  cases r with
  | ok ds => exact ⟨fun _ => ⟨ds, rfl⟩, fun _ => ⟨_, rfl⟩⟩
  | error e =>
    constructor
    · rintro ⟨_, h⟩
      cases h
    · rintro ⟨_, h⟩
      cases h

/-- Distribution succeeds if the array fits the target. -/
theorem accepts_distribute_iff {x : Ref} (array : w.IsArray x ms) (known : w.Knows t (Extent.tuple ns)) :
    w.Accepts (ShapeRules.distribute .shape [x, t]) ↔ Fits (ms.map Extent.dim) (ns.map Extent.dim) := by
  obtain ⟨⟨type, typed, family⟩, shape⟩ := array
  have target : (Infer.targetDims t).result? w = some (.ok (ns.map Extent.dim)) := by
    rw [result?_targetDims known, Extent.listOfConstant_tuple]
  have result : (ShapeRules.distribute .shape [x, t]).result? w
      = (Infer.ofExcept (ShapeRules.distributeTo (ms.map Extent.dim) (ns.map Extent.dim)) >>=
          fun ds => Infer.shape (.dims ds)).result? w := by
    show (Infer.targetDims t >>= _).result? w = _
    rw [Infer.result?_of_ok target, Infer.result?_of_ok typed, if_pos family,
      Infer.result?_of_ok (result?_arrayDims shape _)]
  rw [Accepts, result, ← Accepts, accepts_ofExcept_iff]
  simp [ShapeRules.distributeTo_eq_ok_iff]

/-- Reduction succeeds if the target fits the array. -/
theorem accepts_arrayReduce_iff {x : Ref} (array : w.IsArray x ns) (known : w.Knows t (Extent.tuple ms))
    (f : Ref) :
    w.Accepts (ShapeRules.arrayReduce .shape [f, x, t])
      ↔ Fits (ms.map Extent.dim) (ns.map Extent.dim) := by
  have target : (Infer.ofExcept (listOfConstant (Extent.tuple ms))).result? w
      = some (.ok (ms.map Extent.dim)) := by
    rw [Infer.result?_ofExcept, Extent.listOfConstant_tuple]
  have result : (ShapeRules.arrayReduce .shape [f, x, t]).result? w
      = (Infer.ofExcept (ShapeRules.reduceTo (ns.map Extent.dim) (ms.map Extent.dim)) >>=
          fun ds => Infer.shape (.dims ds)).result? w := by
    show (Infer.valueOf t >>= _).result? w = _
    rw [Infer.result?_of_ok known, Infer.result?_of_ok target,
      Infer.result?_of_ok (result?_arrayDims array.2 _)]
  rw [Accepts, result, ← Accepts, accepts_ofExcept_iff]
  simp [ShapeRules.reduceTo_eq_ok_iff]

/-! ## Folding -/

variable {u x y : Ref} {a b c : List Extent}

theorem folds_comm (hs : w.Knows s (Extent.tuple a)) (ht : w.Knows t (Extent.tuple b)) (r : Constant) :
    w.Folds s t r ↔ w.Folds t s r := by
  rw [folds_iff hs ht, folds_iff ht hs, ValueRules.broadcastDims_comm]

/-- What two constants are folded to can be folded with a third one. -/
theorem folds_twice_iff (hs : w.Knows s (Extent.tuple a)) (ht : w.Knows t (Extent.tuple b))
    (hu : w.Knows u (Extent.tuple c)) (r : Constant) :
    (∃ q, w.Folds s t q ∧ ∀ k, w.Knows k q → w.Folds k u r) ↔ ∃ es : List Extent,
      r = Extent.tuple es ∧
        ((ValueRules.broadcastDims (a.map Extent.dim) (b.map Extent.dim)).bind fun xs =>
          ValueRules.broadcastDims xs (c.map Extent.dim)) = some (es.map Extent.dim) := by
  constructor
  · rintro ⟨q, first, second⟩
    obtain ⟨xs, rfl, hxs⟩ := (folds_iff hs ht).mp first
    have known := w.knows_target xs
    obtain ⟨es, rfl, hes⟩ := (folds_iff known hu).mp (second _ known)
    exact ⟨es, rfl, Option.bind_eq_some_iff.mpr ⟨_, hxs, hes⟩⟩
  · rintro ⟨es, rfl, h⟩
    obtain ⟨ds, hds, hes⟩ := Option.bind_eq_some_iff.mp h
    obtain ⟨xs, rfl⟩ := Extent.exists_of_broadcastDims hds
    exact ⟨_, (folds_iff hs ht).mpr ⟨xs, rfl, hds⟩, fun k known =>
      (folds_iff known hu).mpr ⟨es, rfl, hes⟩⟩

theorem folds_assoc (hs : w.Knows s (Extent.tuple a)) (ht : w.Knows t (Extent.tuple b))
    (hu : w.Knows u (Extent.tuple c)) (r : Constant) :
    (∃ q, w.Folds s t q ∧ ∀ k, w.Knows k q → w.Folds k u r)
      ↔ ∃ q, w.Folds t u q ∧ ∀ k, w.Knows k q → w.Folds s k r := by
  have turned : (∃ q, w.Folds t u q ∧ ∀ k, w.Knows k q → w.Folds s k r)
      ↔ ∃ q, w.Folds t u q ∧ ∀ k, w.Knows k q → w.Folds k s r := by
    refine exists_congr fun q => and_congr_right fun first => forall₂_congr fun k known => ?_
    obtain ⟨es, rfl, -⟩ := (folds_iff ht hu).mp first
    exact folds_comm hs known r
  rw [turned, folds_twice_iff hs ht hu, folds_twice_iff ht hu hs, ValueRules.broadcastDims_assoc]
  simp only [ValueRules.broadcastDims_comm (a.map Extent.dim)]

theorem folds_nil (hs : w.Knows s (Extent.tuple [])) (ht : w.Knows t (Extent.tuple b)) :
    w.Folds s t (Extent.tuple b) :=
  (folds_tuple_iff hs ht).mpr (ValueRules.broadcastDims_nil _)

/-- Two constants are folded to extents, or they do not fit together and that is an error. -/
theorem folds_or_error (hs : w.Knows s (Extent.tuple a)) (ht : w.Knows t (Extent.tuple b)) :
    (∃ es, w.Folds s t (Extent.tuple es))
      ∨ (ValueRules.broadcastShape .value [s, t]).result? w = some (.error (.shape
        ("cannot broadcast " ++ (Extent.tuple a).text ++ " and " ++ (Extent.tuple b).text))) := by
  cases merged : ValueRules.broadcastDims (a.map Extent.dim) (b.map Extent.dim) with
  | none =>
    right
    rw [result?_broadcastShape hs ht, merged]
  | some ds =>
    obtain ⟨es, rfl⟩ := Extent.exists_of_broadcastDims merged
    exact .inl ⟨es, (folds_tuple_iff hs ht).mpr merged⟩

/-- What two constants are folded to has the larger rank, both arrays can be distributed to it, and an
array of these extents can be reduced to both. -/
theorem fits_of_folds (hs : w.Knows s (Extent.tuple a)) (ht : w.Knows t (Extent.tuple b))
    (hx : w.IsArray x a) (hy : w.IsArray y b) (f : Ref) {es : List Extent}
    (folds : w.Folds s t (Extent.tuple es)) :
    es.length = max a.length b.length
      ∧ ∀ k z, w.Knows k (Extent.tuple es) → w.IsArray z es →
        w.Accepts (ShapeRules.distribute .shape [x, k])
          ∧ w.Accepts (ShapeRules.distribute .shape [y, k])
          ∧ w.Accepts (ShapeRules.arrayReduce .shape [f, z, s])
          ∧ w.Accepts (ShapeRules.arrayReduce .shape [f, z, t]) := by
  have merged := (folds_tuple_iff hs ht).mp folds
  have rank := (ValueRules.broadcastDims_eq_some_iff.mp merged).1
  obtain ⟨left, right⟩ := ValueRules.fits_of_broadcastDims merged
  refine ⟨by simpa using rank, fun k z known hz => ⟨?_, ?_, ?_, ?_⟩⟩
  · exact (accepts_distribute_iff hx known).mpr left
  · exact (accepts_distribute_iff hy known).mpr right
  · exact (accepts_arrayReduce_iff hz hs f).mpr left
  · exact (accepts_arrayReduce_iff hz ht f).mpr right

end Answers

namespace Extent

open Answers

/-- Broadcasting of known extents is commutative and associative, and the shape without axes changes
nothing. It succeeds or fails with an error. What two shapes are broadcast to has the larger rank, both
arrays can be distributed to it, and an array of that shape can be reduced to both. An array can be
distributed to a target exactly if an array of the target's shape can be reduced to that array's. -/
theorem broadcast_fits {w : Answers} {a b c : List Extent} {s t u x y : Ref}
    (hs : w.Knows s (tuple a)) (ht : w.Knows t (tuple b)) (hu : w.Knows u (tuple c))
    (hx : w.IsArray x a) (hy : w.IsArray y b) (f : Ref) :
    (∀ r, w.Folds s t r ↔ w.Folds t s r)
      ∧ (∀ r, (∃ q, w.Folds s t q ∧ ∀ k, w.Knows k q → w.Folds k u r)
        ↔ ∃ q, w.Folds t u q ∧ ∀ k, w.Knows k q → w.Folds s k r)
      ∧ (∀ k, w.Knows k (tuple []) → w.Folds k s (tuple a) ∧ w.Folds s k (tuple a))
      ∧ ((∃ es, w.Folds s t (tuple es))
        ∨ (ValueRules.broadcastShape .value [s, t]).result? w = some (.error (.shape
          ("cannot broadcast " ++ (tuple a).text ++ " and " ++ (tuple b).text))))
      ∧ (∀ es, w.Folds s t (tuple es) → es.length = max a.length b.length
        ∧ ∀ k z, w.Knows k (tuple es) → w.IsArray z es →
          w.Accepts (ShapeRules.distribute .shape [x, k])
            ∧ w.Accepts (ShapeRules.distribute .shape [y, k])
            ∧ w.Accepts (ShapeRules.arrayReduce .shape [f, z, s])
            ∧ w.Accepts (ShapeRules.arrayReduce .shape [f, z, t]))
      ∧ (w.Accepts (ShapeRules.distribute .shape [x, t])
        ↔ w.Accepts (ShapeRules.arrayReduce .shape [f, y, s])) := by
  refine ⟨folds_comm hs ht, folds_assoc hs ht hu, fun k hk => ⟨folds_nil hk hs, ?_⟩,
    folds_or_error hs ht, fun es => fits_of_folds hs ht hx hy f, ?_⟩
  · exact (folds_comm hs hk _).mpr (folds_nil hk hs)
  · rw [accepts_distribute_iff hx ht, accepts_arrayReduce_iff hy hs f]

/-- Four rows of one number. -/
def column : List Extent := [⟨4, by decide⟩, ⟨1, by decide⟩]

/-- A single row of three numbers, without an axis for the rows. -/
def row : List Extent := [⟨3, by decide⟩]

def table : List Extent := [⟨4, by decide⟩, ⟨3, by decide⟩]

/-- A column and a row are broadcast to a table, and a row cannot be reduced to a column. -/
theorem broadcast_fits_column_row :
    ∃ w : Answers, w.Folds (target row) (target column) (tuple table)
      ∧ w.Accepts (ShapeRules.distribute .shape [array column, target table])
      ∧ w.Accepts (ShapeRules.arrayReduce .shape [target row, array table, target row])
      ∧ ¬ w.Accepts (ShapeRules.arrayReduce .shape [target row, array row, target column]) := by
  let w := (Engine.new .empty (.empty ⟨0⟩) .standard).answers
  have folded : w.Folds (target column) (target row) (tuple table) := rfl
  obtain ⟨comm, -, -, -, fits, turned⟩ := broadcast_fits (w.knows_target column) (w.knows_target row)
    (w.knows_target table) (w.isArray_array column) (w.isArray_array row) (target row)
  obtain ⟨distributed, -, -, reduced⟩ := (fits table folded).2 _ _ (w.knows_target table)
    (w.isArray_array table)
  refine ⟨w, (comm _).mp folded, distributed, reduced, fun accepted => ?_⟩
  -- A column has more axes than a row.
  obtain ⟨p, found⟩ := turned.mpr accepted
  cases found

end Extent

end ArrayInference
