import ArrayInference.Proofs.Infer.Answered
import ArrayInference.Proofs.Tracks.Shaped
import ArrayInference.Rules.Value
import Mathlib.Algebra.Ring.Int.Defs
import Mathlib.Algebra.Ring.Nat

/-!
# Extents as constants

Extents are unsigned, integer constants are signed, and both have the same width. An extent that is
written as a constant keeps its bits. So the lower half of the extents can be read back, and the upper
half turns into negative constants, which are no extents. What is read from a constant is always
written as that constant. Main statement: `extents_cross`.
-/

namespace ArrayInference

/-- The integer of the same bits. -/
theorem toInt_toInt64 (n : UInt64) :
    n.toInt64.toInt = if n.toNat < 2 ^ 63 then (n.toNat : Int) else n.toNat - 2 ^ 64 := by
  rw [← Int64.toInt_toBitVec, UInt64.toBitVec_toInt64, BitVec.toInt_eq_toNat_cond,
    UInt64.toNat_toBitVec]
  split <;> split <;> omega

theorem zero_le_toInt_toInt64 {n : UInt64} : 0 ≤ n.toInt64.toInt ↔ n.toNat < 2 ^ 63 := by
  have bound : n.toNat < 2 ^ 64 := n.toNat_lt
  rw [toInt_toInt64]
  split <;> omega

/-- Two lists are related by what both are made of. -/
theorem forall₂_exists_iff {α β γ : Type} {P : γ → Prop} {f : γ → α} {g : γ → β} {xs : List α}
    {ys : List β} :
    List.Forall₂ (fun x y => ∃ z, P z ∧ x = f z ∧ y = g z) xs ys ↔
      ∃ zs : List γ, (∀ z ∈ zs, P z) ∧ xs = zs.map f ∧ ys = zs.map g := by
  constructor
  · intro h
    induction h with
    | nil => exact ⟨[], by simp⟩
    | cons first _ ih =>
      obtain ⟨z, hz, rfl, rfl⟩ := first
      obtain ⟨zs, hzs, rfl, rfl⟩ := ih
      exact ⟨z :: zs, List.forall_mem_cons.mpr ⟨hz, hzs⟩, rfl, rfl⟩
  · rintro ⟨zs, hzs, rfl, rfl⟩
    rw [List.forall₂_map_left_iff, List.forall₂_map_right_iff, List.forall₂_same]
    exact fun z hz => ⟨z, hzs z hz, rfl, rfl⟩

namespace Dim

theorem ofConstant_eq_ok_iff {c : Constant} {d : Dim} :
    ofConstant c = .ok d ↔ ∃ n : Int64, 0 ≤ n.toInt ∧ c = .int n ∧ d = .known n.toUInt64 := by
  cases c with
  | int n =>
    rw [ofConstant]
    split
    · rename_i nonneg
      simp [nonneg, eq_comm]
    · rename_i negative
      simpa using fun nonneg => absurd nonneg negative
  | _ => simp [ofConstant]

/-- A tuple of non-negative integers can be read as extents, and nothing else can. -/
theorem listOfConstant_eq_ok_iff {c : Constant} {ds : List Dim} :
    listOfConstant c = .ok ds ↔ ∃ ns : List Int64, (∀ n ∈ ns, 0 ≤ n.toInt)
      ∧ c = .tuple (ns.map .int) ∧ ds = ns.map fun n => .known n.toUInt64 := by
  cases c with
  | tuple items =>
    simp only [listOfConstant, mapM_eq_ok_iff, ofConstant_eq_ok_iff, forall₂_exists_iff,
      Constant.tuple.injEq]
  | _ => simp [listOfConstant]

/-- Known extents are written as a tuple of integers of the same bits, and no others are written. -/
theorem listToConstant?_eq_some_iff {ds : List Dim} {c : Constant} :
    listToConstant? ds = some c ↔
      ∃ ns : List UInt64, ds = ns.map .known ∧ c = .tuple (ns.map fun n => .int n.toInt64) := by
  have each (d : Dim) (item : Constant) : (d.known?.map fun n => Constant.int n.toInt64) = some item
      ↔ ∃ n : UInt64, True ∧ d = .known n ∧ item = .int n.toInt64 := by
    cases d <;> simp [known?, eq_comm]
  simp only [listToConstant?, Option.map_eq_some_iff, mapM_eq_some_iff, each, forall₂_exists_iff]
  constructor
  · rintro ⟨_, ⟨ns, -, rfl, rfl⟩, rfl⟩
    exact ⟨ns, rfl, rfl⟩
  · rintro ⟨ns, rfl, rfl⟩
    exact ⟨_, ⟨ns, fun _ _ => trivial, rfl, rfl⟩, rfl⟩

theorem listToConstant?_known (ns : List UInt64) :
    listToConstant? (ns.map .known) = some (.tuple (ns.map fun n => .int n.toInt64)) :=
  listToConstant?_eq_some_iff.mpr ⟨ns, rfl, rfl⟩

theorem exists_listToConstant?_iff {ds : List Dim} :
    (∃ c, listToConstant? ds = some c) ↔ ∀ d ∈ ds, d ≠ .anything := by
  constructor
  · rintro ⟨c, h⟩ d hd
    obtain ⟨ns, rfl, -⟩ := listToConstant?_eq_some_iff.mp h
    obtain ⟨n, -, rfl⟩ := List.mem_map.mp hd
    simp
  · intro known
    obtain ⟨ns, rfl⟩ : ∃ ns : List UInt64, ds = ns.map .known := by
      induction ds with
      | nil => exact ⟨[], rfl⟩
      | cons d ds ih =>
        rw [List.forall_mem_cons] at known
        obtain ⟨ns, rfl⟩ := ih known.2
        cases d with
        | known n => exact ⟨n :: ns, rfl⟩
        | anything => exact absurd rfl known.1
    exact ⟨_, listToConstant?_known ns⟩

/-- What is read from a constant is written as that constant. -/
theorem listToConstant?_of_listOfConstant {ds : List Dim} {c : Constant}
    (h : listOfConstant c = .ok ds) : listToConstant? ds = some c := by
  obtain ⟨ns, -, rfl, rfl⟩ := listOfConstant_eq_ok_iff.mp h
  refine listToConstant?_eq_some_iff.mpr ⟨ns.map Int64.toUInt64, ?_, ?_⟩
  · rw [List.map_map]
    rfl
  · rw [List.map_map]
    rfl

/-- Extents in the lower half can be read back. -/
theorem listOfConstant_known_iff {ns : List UInt64} :
    listOfConstant (.tuple (ns.map fun n => .int n.toInt64)) = .ok (ns.map .known)
      ↔ ∀ n ∈ ns, n.toNat < 2 ^ 63 := by
  rw [listOfConstant, mapM_eq_ok_iff, List.forall₂_map_left_iff, List.forall₂_map_right_iff,
    List.forall₂_same]
  refine forall₂_congr fun n _ => ?_
  rw [← zero_le_toInt_toInt64, ofConstant_eq_ok_iff]
  constructor
  · rintro ⟨m, nonneg, heq, -⟩
    cases heq
    exact nonneg
  · exact fun nonneg => ⟨_, nonneg, rfl, rfl⟩

/-- Different extents are written differently. -/
theorem eq_of_listToConstant? {ds es : List Dim} {c : Constant} (h : listToConstant? ds = some c)
    (h' : listToConstant? es = some c) : ds = es := by
  obtain ⟨ms, rfl, rfl⟩ := listToConstant?_eq_some_iff.mp h
  obtain ⟨ns, rfl, heq⟩ := listToConstant?_eq_some_iff.mp h'
  have injective : Function.Injective fun n : UInt64 => Constant.int n.toInt64 := fun m n same => by
    rw [← m.toUInt64_toInt64, Constant.int.inj same, n.toUInt64_toInt64]
  rw [List.map_injective_iff.mpr injective (Constant.tuple.inj heq)]

end Dim

namespace Answers

variable {w : Answers} {a : Ref}

/-- The length of an array is its first extent, as the integer of the same bits. -/
theorem result?_arrayLen {n : UInt64} {rest : List Dim} (shape : w.Shapes a (.dims (.known n :: rest)))
    (track : Track) :
    (ValueRules.arrayLen track [a]).result? w = some (.ok (.value (.known (.int n.toInt64)))) := by
  show (Infer.shapeOf a >>= _).result? w = _
  rw [Infer.result?_of_ok shape]
  rfl

end Answers

namespace Dim

/-- Extents are written as a constant exactly if all of them are known. What is written is read back as
the same extents if all of them are in the lower half, and is no tuple of extents otherwise; what is
read from a constant is written as that constant. The length of an array is its first extent if that is
in the lower half, and negative otherwise. -/
theorem extents_cross (ds : List Dim) :
    ((∃ c, listToConstant? ds = some c) ↔ ∀ d ∈ ds, d ≠ .anything)
      ∧ (∀ c, listToConstant? ds = some c →
        (listOfConstant c = .ok ds ↔ ∀ n, .known n ∈ ds → n.toNat < 2 ^ 63)
          ∧ ∀ es, listOfConstant c = .ok es → es = ds)
      ∧ (∀ c, listOfConstant c = .ok ds → listToConstant? ds = some c)
      ∧ ∀ (w : Answers) (track : Track) (a : Ref) (n : UInt64) (rest : List Dim),
        ds = .known n :: rest → w.Shapes a (.dims ds) →
        ∃ m : Int64,
          (ValueRules.arrayLen track [a]).result? w = some (.ok (.value (.known (.int m))))
            ∧ m.toInt = if n.toNat < 2 ^ 63 then (n.toNat : Int) else n.toNat - 2 ^ 64 := by
  refine ⟨exists_listToConstant?_iff, fun c h => ⟨?_, fun es h' => ?_⟩,
    fun c => listToConstant?_of_listOfConstant, ?_⟩
  · obtain ⟨ns, rfl, rfl⟩ := listToConstant?_eq_some_iff.mp h
    rw [listOfConstant_known_iff]
    simp
  · exact eq_of_listToConstant? (listToConstant?_of_listOfConstant h') h
  · rintro w track a n rest rfl shape
    exact ⟨_, Answers.result?_arrayLen shape track, toInt_toInt64 n⟩

/-- The first extent of the upper half is written as the least integer. -/
example :
    listToConstant? [.known 9223372036854775808] = some (.tuple [.int (-9223372036854775808)])
      ∧ (listOfConstant (.tuple [.int (-9223372036854775808)])).toOption = none := by
  decide

end Dim

end ArrayInference
