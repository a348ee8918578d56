import ArrayInference.Proofs.Tracks.Shaped
import ArrayInference.Rules.Shape
import ArrayInference.Rules.Value

/-!
# Arrays aligned at their last axes

Broadcasting pads both arrays with axes of extent one, distribution pads the smaller one, and reduction
leaves out the leading axes of the larger one. All three come to the same: axes are counted from the
last one, and in front of all axes of an array there are axes of extent one, as many as needed. So
broadcasting goes axis by axis, and distribution and reduction ask the same of an array and a target,
each of them the other way round.
-/

namespace ArrayInference

namespace Dim

/-- The extent of an axis that is counted from the last one. -/
def trailing (ds : List Dim) (i : Nat) : Dim :=
  ds.reverse[i]?.getD (known 1)

variable {ds es : List Dim}

theorem trailing_of_length_le {i : Nat} (h : ds.length ≤ i) : trailing ds i = known 1 := by
  rw [trailing, List.getElem?_eq_none (by simpa using h), Option.getD_none]

theorem trailing_padded (rank : Nat) (ds : List Dim) (i : Nat) :
    trailing (List.replicate (rank - ds.length) (known 1) ++ ds) i = trailing ds i := by
  rw [trailing, trailing, List.reverse_append, List.reverse_replicate, List.getElem?_append]
  split
  · rfl
  · rename_i beyond
    rw [List.getElem?_eq_none (Nat.le_of_not_lt beyond), List.getElem?_replicate]
    split <;> rfl

theorem length_replicate_append {rank : Nat} (h : ds.length ≤ rank) :
    (List.replicate (rank - ds.length) (known 1) ++ ds).length = rank := by
  rw [List.length_append, List.length_replicate]
  omega

theorem trailing_drop {n i : Nat} (h : i < n) :
    trailing (ds.drop (ds.length - n)) i = trailing ds i := by
  rw [trailing, trailing, List.reverse_drop, List.getElem?_take]
  split
  · rfl
  · rw [List.getElem?_eq_none (by rw [List.length_reverse]; omega)]

theorem trailing_eq_getElem {i : Nat} (h : i < ds.reverse.length) : trailing ds i = ds.reverse[i] := by
  rw [trailing, List.getElem?_eq_getElem h, Option.getD_some]

theorem trailing_mem_or (ds : List Dim) (i : Nat) : trailing ds i ∈ ds ∨ trailing ds i = known 1 := by
  rcases Nat.lt_or_ge i ds.reverse.length with hi | hi
  · rw [trailing_eq_getElem hi]
    exact .inl (List.mem_reverse.mp (List.getElem_mem hi))
  · exact .inr (trailing_of_length_le (by simpa using hi))

theorem exists_trailing_of_mem {d : Dim} (h : d ∈ ds) : ∃ i, trailing ds i = d := by
  obtain ⟨i, hi, rfl⟩ := List.getElem_of_mem (List.mem_reverse.mpr h)
  exact ⟨i, trailing_eq_getElem hi⟩

/-- Lists of one length are related if they are so at every place from the end. -/
theorem forall₂_iff_trailing {R : Dim → Dim → Prop} :
    List.Forall₂ R ds es ↔
      ds.length = es.length ∧ ∀ i < ds.length, R (trailing ds i) (trailing es i) := by
  rw [← List.forall₂_reverse_iff, List.forall₂_iff_get]
  simp only [List.length_reverse, List.get_eq_getElem]
  refine and_congr_right fun length_eq => forall₂_congr fun i hi => ?_
  rw [trailing_eq_getElem (by simpa using hi), trailing_eq_getElem (by simpa using length_eq ▸ hi)]
  exact forall_prop_of_true (length_eq ▸ hi)

/-- The same for pairs of two lists of one length. -/
theorem forall₂_zip_iff_trailing {R : Dim → Dim → Dim → Prop} {fs : List Dim}
    (length_eq : ds.length = es.length) :
    List.Forall₂ (fun p f => R p.1 p.2 f) (ds.zip es) fs ↔ ds.length = fs.length ∧
      ∀ i < ds.length, R (trailing ds i) (trailing es i) (trailing fs i) := by
  rw [← List.forall₂_reverse_iff, List.zip, List.reverse_zipWith length_eq, List.forall₂_iff_get]
  simp only [List.length_zipWith, List.length_reverse, ← length_eq, Nat.min_self,
    List.get_eq_getElem, List.getElem_zipWith]
  refine and_congr_right fun length_eq' => forall₂_congr fun i hi => ?_
  rw [trailing_eq_getElem (by simpa using hi), trailing_eq_getElem (by simpa using length_eq ▸ hi),
    trailing_eq_getElem (by simpa using length_eq' ▸ hi)]
  exact forall_prop_of_true (length_eq' ▸ hi)

/-- The smaller array can be broadcast to the larger one, or the larger one be reduced to the
smaller one: on every axis that both have, the extents agree as far as they are known, or one of them
is one. -/
def Fits (ds es : List Dim) : Prop :=
  ds.length ≤ es.length ∧ ∀ i, (trailing ds i).broadcastable (trailing es i) = true

theorem broadcastable_comm (d e : Dim) : d.broadcastable e = e.broadcastable d := by
  rw [broadcastable, broadcastable, Bool.or_comm (x := decide (d = known 1))]
  congr 1
  cases d <;> cases e <;> simp [compatible, eq_comm]

end Dim

open Dim

namespace ValueRules

/-- Broadcasting goes axis by axis, from the last one on. -/
theorem broadcastDims_eq_some_iff {ds es ms : List Dim} :
    broadcastDims ds es = some ms ↔ ms.length = max ds.length es.length
      ∧ ∀ i, broadcastDim (trailing ds i) (trailing es i) = some (trailing ms i) := by
  have hds := length_replicate_append (Nat.le_max_left ds.length es.length)
  have hes := length_replicate_append (Nat.le_max_right ds.length es.length)
  rw [broadcastDims, padded, padded, mapM_eq_some_iff,
    forall₂_zip_iff_trailing (R := fun d e m => broadcastDim d e = some m) (hds.trans hes.symm), hds]
  simp only [trailing_padded]
  rw [eq_comm (b := ms.length)]
  refine and_congr_right fun length_eq => ⟨fun h i => ?_, fun h i _ => h i⟩
  rcases Nat.lt_or_ge i (max ds.length es.length) with hi | hi
  · exact h i hi
  · rw [trailing_of_length_le (Nat.le_trans (Nat.le_max_left _ _) hi),
      trailing_of_length_le (Nat.le_trans (Nat.le_max_right _ _) hi),
      trailing_of_length_le (length_eq ▸ hi)]
    rfl

end ValueRules

namespace ShapeRules

theorem firstClash?_eq_none_iff {ds es : List Dim} (length_eq : ds.length = es.length) :
    firstClash? ds es = none ↔ List.Forall₂ (fun d e => d.broadcastable e = true) ds es := by
  induction ds generalizing es with
  | nil =>
    cases es with
    | nil => simp [firstClash?]
    | cons e es => cases length_eq
  | cons d ds ih =>
    cases es with
    | nil => cases length_eq
    | cons e es =>
      rw [firstClash?, List.forall₂_cons, ← ih (Nat.succ.inj length_eq)]
      split <;> simp_all

/-- Nothing clashes if it does not on any axis, the ones in front of both arrays included. -/
theorem firstClash?_eq_none_iff_trailing {ds es : List Dim} (length_eq : ds.length = es.length) :
    firstClash? ds es = none ↔ ∀ i, (trailing ds i).broadcastable (trailing es i) = true := by
  rw [firstClash?_eq_none_iff length_eq, forall₂_iff_trailing]
  refine ⟨fun ⟨_, h⟩ i => ?_, fun h => ⟨length_eq, fun i _ => h i⟩⟩
  rcases Nat.lt_or_ge i ds.length with hi | hi
  · exact h i hi
  · rw [trailing_of_length_le hi]
    rfl

/-- Distribution accepts an array that fits the target. -/
theorem distributeTo_eq_ok_iff {source target ds : List Dim} :
    distributeTo source target = .ok ds ↔ ds = target ∧ Fits source target := by
  rw [distributeTo, Fits]
  rcases Nat.lt_or_ge target.length source.length with larger | fits
  · simp [larger, Nat.not_le_of_lt larger]
  · have length_eq := length_replicate_append fits
    simp only [Nat.not_lt_of_le fits, decide_false, Bool.false_or, fits, true_and]
    simp only [← trailing_padded target.length source,
      ← firstClash?_eq_none_iff_trailing length_eq]
    cases firstClash? _ target <;> simp [eq_comm]

/-- Reduction accepts an array that the target fits. -/
theorem reduceTo_eq_ok_iff {source target ds : List Dim} :
    reduceTo source target = .ok ds ↔ ds = target ∧ Fits target source := by
  rw [reduceTo, Fits]
  rcases Nat.lt_or_ge source.length target.length with larger | fits
  · simp [larger, Nat.not_le_of_lt larger]
  · have length_eq : (source.drop (source.length - target.length)).length = target.length := by
      rw [List.length_drop]
      omega
    have same : (∀ i, (trailing target i).broadcastable (trailing source i) = true)
        ↔ firstClash? (source.drop (source.length - target.length)) target = none := by
      rw [firstClash?_eq_none_iff_trailing length_eq]
      refine forall_congr' fun i => ?_
      rw [broadcastable_comm]
      rcases Nat.lt_or_ge i target.length with hi | hi
      · rw [trailing_drop hi]
      · rw [trailing_of_length_le hi]
        simp [broadcastable]
    rw [if_neg (Nat.not_lt_of_le fits), same]
    cases firstClash? (source.drop (source.length - target.length)) target <;> simp [fits, eq_comm]

end ShapeRules

end ArrayInference
