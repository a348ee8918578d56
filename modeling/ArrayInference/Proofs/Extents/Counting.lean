import ArrayInference.Proofs.Infer.Answered
import Mathlib.Algebra.BigOperators.Group.List.Basic

/-!
# Counting the elements of an array

The number of elements is multiplied up with a ceiling, so it is the smaller one of the product of the
extents and the ceiling, in whatever order they come. A reshape compares the numbers of elements. So it
keeps the product of the extents, unless both products have reached the ceiling. Main statement:
`reshape_counts`.
-/

namespace ArrayInference

namespace Shape

/-- The product of some extents. -/
def volume (ns : List UInt64) : Nat :=
  (ns.map UInt64.toNat).prod

/-- A product that is held at the ceiling after every factor is held there in the end. -/
theorem saturatingMul_min (m n : Nat) : saturatingMul (min m maxCount) n = min (m * n) maxCount := by
  rw [saturatingMul]
  rcases Nat.le_total m maxCount with below | above
  · rw [Nat.min_eq_left below]
  · rw [Nat.min_eq_right above]
    rcases Nat.eq_zero_or_pos n with rfl | positive
    · rfl
    · have held : maxCount ≤ maxCount * n := Nat.le_mul_of_pos_right maxCount positive
      have exceeded : maxCount ≤ m * n := Nat.le_trans above (Nat.le_mul_of_pos_right m positive)
      rw [Nat.min_eq_right held, Nat.min_eq_right exceeded]

theorem foldlM_saturatingMul (ns : List UInt64) (m : Nat) :
    (ns.map Dim.known).foldlM
        (fun count (d : Dim) => d.known?.map fun n => saturatingMul count n.toNat) (min m maxCount)
      = some (min (m * volume ns) maxCount) := by
  induction ns generalizing m with
  | nil => simp [volume]
  | cons n ns ih =>
    rw [List.map_cons, List.foldlM_cons, Dim.known?, Option.map_some, saturatingMul_min]
    show List.foldlM _ _ _ = _
    rw [ih, volume, volume, List.map_cons, List.prod_cons, Nat.mul_assoc]

/-- The number of elements of an array whose extents are known. -/
theorem elementCount?_ofExtents (ns : List UInt64) :
    (ofExtents ns).elementCount? = some (min (volume ns) maxCount) := by
  have start : min 1 maxCount = 1 := rfl
  have h := foldlM_saturatingMul ns 1
  rw [start, Nat.one_mul] at h
  exact h

/-- Two numbers are told apart unless both have reached the ceiling. -/
theorem min_maxCount_eq_iff {m n : Nat} :
    min m maxCount = min n maxCount ↔ m = n ∨ (maxCount ≤ m ∧ maxCount ≤ n) := by
  omega

/-- Two products beyond the ceiling. -/
example :
    (ofExtents [4294967296, 4294967296]).elementCount? = (ofExtents [4294967296, 8589934592]).elementCount?
      ∧ volume [4294967296, 4294967296] ≠ volume [4294967296, 8589934592] := by
  decide

/-- The elements of an array with an unknown extent are not counted. -/
theorem elementCount?_of_not_isConcrete {s : Shape} (h : s.isConcrete = false) :
    s.elementCount? = none := by
  cases s with
  | dims ds =>
    obtain ⟨d, hd, unknown⟩ : ∃ d ∈ ds, d.isAnything = true := by
      simpa [isConcrete, dims?] using h
    show List.foldlM _ 1 ds = none
    generalize 1 = m
    induction ds generalizing m with
    | nil => cases hd
    | cons e ds ih =>
      cases e with
      | anything => rfl
      | known n =>
        rcases List.mem_cons.mp hd with rfl | hd
        · cases unknown
        · exact ih (by simpa [isConcrete, dims?] using ⟨d, hd, unknown⟩) hd _
  | _ => rfl

end Shape

namespace ShapeRules

open Shape

/-- A reshape of an array whose extents are known, to known extents, keeps their product or fails, and
notes nothing; only products that have both reached the ceiling are not told apart. If an extent is
unknown, the reshape finds what it was asked for, and notes that it did not count. -/
theorem reshape_counts {w : Answers} {a t : Ref} {source : Shape} {target : List Dim}
    (shape : w.Shapes a source) (asked : (Infer.targetDims t).result? w = some (.ok target))
    (track : Track) :
    (∀ ms ns : List UInt64, source = ofExtents ms → target = ns.map .known →
        (reshape track [a, t]).result? w = some (
          if volume ms = volume ns ∨ (maxCount ≤ volume ms ∧ maxCount ≤ volume ns) then
            .ok (.shape (.dims target))
          else
            .error (.shape ("cannot reshape " ++ source.text ++ " to " ++ (dims target).text)))
          ∧ (reshape track [a, t]).notes w = [])
      ∧ ((source.isConcrete && (dims target).isConcrete) = false →
        (reshape track [a, t]).result? w = some (.ok (.shape (.dims target)))
          ∧ (reshape track [a, t]).notes w
            = [{ reason := .reshapeUnchecked, subject := some (w.query (.describe a)) }]) := by
  have result : (reshape track [a, t]).result? w = _ :=
    (Infer.result?_of_ok asked _).trans (Infer.result?_of_ok shape _)
  have notes : (reshape track [a, t]).notes w = _ :=
    ((Infer.silent_targetDims t).notes_of_ok asked _).trans
      ((Infer.silent_shapeOf a).notes_of_ok shape _)
  rw [result, notes]
  constructor
  · rintro ms ns rfl rfl
    have counted : (dims (ns.map .known)).elementCount? = some (min (volume ns) maxCount) :=
      elementCount?_ofExtents ns
    simp only [elementCount?_ofExtents, counted, min_maxCount_eq_iff]
    split
    · exact ⟨rfl, rfl⟩
    · exact ⟨rfl, rfl⟩
  · intro unknown
    rcases Bool.and_eq_false_iff.mp unknown with h | h
    · rw [elementCount?_of_not_isConcrete h]
      exact ⟨rfl, rfl⟩
    · rw [elementCount?_of_not_isConcrete h]
      cases source.elementCount? <;> exact ⟨rfl, rfl⟩

/-- A pair of extents. -/
def pairOf (m n : Int64) : Ref :=
  .constant (.tuple [.int m, .int n]) (.tuple ⟨0⟩ [.int ⟨0⟩ 64, .int ⟨0⟩ 64])

/-- Two rows of three numbers. -/
def grid : Ref := Answers.arrayOf [.known 2, .known 3]

/-- Six elements are six elements, and do not become eight. -/
theorem reshape_counts_six :
    ∃ w : Answers, w.Shapes grid (ofExtents [2, 3])
      ∧ (Infer.targetDims (pairOf 3 2)).result? w = some (.ok [.known 3, .known 2])
      ∧ (reshape .shape [grid, pairOf 3 2]).result? w
        = some (.ok (.shape (.dims [.known 3, .known 2])))
      ∧ (reshape .shape [grid, pairOf 4 2]).result? w
        = some (.error (.shape "cannot reshape (2, 3) to (4, 2)")) := by
  let w := (Engine.new .empty (.empty ⟨0⟩) .standard).answers
  have shape : w.Shapes grid (ofExtents [2, 3]) := w.shapes_arrayOf _
  have asked : (Infer.targetDims (pairOf 3 2)).result? w = some (.ok [.known 3, .known 2]) := rfl
  have asked' : (Infer.targetDims (pairOf 4 2)).result? w = some (.ok [.known 4, .known 2]) := rfl
  have same := ((reshape_counts shape asked .shape).1 [2, 3] [3, 2] rfl rfl).1
  have differ := ((reshape_counts shape asked' .shape).1 [2, 3] [4, 2] rfl rfl).1
  exact ⟨w, shape, asked, same.trans (by decide), differ.trans (by decide)⟩

end ShapeRules

end ArrayInference
