import ArrayInference.Proofs.Extents.Alignment
import ArrayInference.Proofs.Extents.Crossing
import ArrayInference.Proofs.Tracks.Common

/-!
# How values are folded

What is known of a folded value: which operands were known, and what the operator made of them. Each
statement leaves out the case of an unknown value, which agrees with everything.
-/

namespace ArrayInference

namespace Constant

/-- Two numbers of one kind. -/
def SameKind : Constant → Constant → Prop
  | int _, int _ => True
  | float _, float _ => True
  | _, _ => False

theorem sameKind_ofInt? {n : Int64} {m : Int} {c : Constant} (h : ofInt? m = some c) :
    (int n).SameKind c := by
  rw [ofInt?] at h
  split at h <;> cases h
  trivial

theorem sameKind_arithmetic {onInts : Int → Int → Option Int}
    {onFloats : UInt64 → UInt64 → Option UInt64} {a b c : Constant}
    (h : arithmetic onInts onFloats a b = some c) : a.SameKind c := by
  rw [arithmetic.eq_def] at h
  split at h
  · obtain ⟨m, -, h⟩ := Option.bind_eq_some_iff.mp h
    exact sameKind_ofInt? h
  · obtain ⟨x, -, rfl⟩ := Option.map_eq_some_iff.mp h
    trivial
  · cases h

theorem sameKind_plus {a c : Constant} (h : a.plus = some c) : a.SameKind c := by
  cases a <;> cases h <;> trivial

theorem sameKind_minus {a c : Constant} (h : a.minus = some c) : a.SameKind c := by
  cases a with
  | int n => exact sameKind_ofInt? h
  | float b =>
    cases h
    trivial
  | _ => cases h

theorem sameKind_onFloat {op : Float → Float} {a c : Constant} (h : onFloat op a = some c) :
    a.SameKind c := by
  cases a <;> cases h
  trivial

theorem isBool_compareBy {test : Ordering → Bool} {a b c : Constant}
    (h : compareBy test a b = some c) : ∃ v, c = bool v := by
  obtain ⟨o, -, rfl⟩ := Option.map_eq_some_iff.mp h
  exact ⟨_, rfl⟩

theorem isBool_not {a c : Constant} (h : a.not = some c) : ∃ v, c = bool v := by
  cases a <;> cases h
  exact ⟨_, rfl⟩

theorem isBool_logical {op : Bool → Bool → Bool} {a b c : Constant} (h : logical op a b = some c) :
    ∃ v, c = bool v := by
  rw [logical.eq_def] at h
  split at h <;> cases h
  exact ⟨_, rfl⟩

/-- A cast gives a number of the target family. -/
theorem cast_eq_some {target : Family} {a c : Constant} (h : a.cast target = some c) :
    (∃ n, c = int n) ∧ (target = .int ∨ target = .uint) ∨ (∃ x, c = float x) ∧ target = .float := by
  have part : ∀ {signed : Bool} {x : Float}, integerPart? signed x = some c → ∃ n, c = int n := by
    intro signed x h
    simp only [integerPart?] at h
    split at h <;> cases h
    exact ⟨_, rfl⟩
  cases a with
  | int v =>
    cases target <;> simp only [cast, reduceCtorEq] at h
    · cases h
      exact .inl ⟨⟨_, rfl⟩, .inl rfl⟩
    · split at h <;> cases h
      exact .inl ⟨⟨_, rfl⟩, .inr rfl⟩
    · cases h
      exact .inr ⟨⟨_, rfl⟩, rfl⟩
  | float b =>
    cases target <;> simp only [cast, reduceCtorEq] at h
    · exact .inl ⟨part h, .inl rfl⟩
    · exact .inl ⟨part h, .inr rfl⟩
    · cases h
      exact .inr ⟨⟨_, rfl⟩, rfl⟩
  | _ => cases h

end Constant

theorem Dim.listToConstant?_eq_some {ds : List Dim} {c : Constant} (h : listToConstant? ds = some c) :
    ∃ ns : List Int64, c = .tuple (ns.map .int) ∧ ns.length = ds.length := by
  obtain ⟨ns, rfl, rfl⟩ := listToConstant?_eq_some_iff.mp h
  refine ⟨ns.map UInt64.toInt64, ?_, by simp⟩
  rw [List.map_map]
  rfl

theorem Dim.listOfConstant_eq_ok {c : Constant} {ds : List Dim} (h : listOfConstant c = .ok ds) :
    ∃ items, c = .tuple items ∧ ds.length = items.length := by
  obtain ⟨ns, -, rfl, rfl⟩ := listOfConstant_eq_ok_iff.mp h
  exact ⟨_, rfl, by simp⟩

namespace Ledger

variable {w : Ledger} {calls : Calls} {p : Property} {x y : Ref}

/-- A folded operator of which the value is known has folded. -/
theorem knows_folded {folded : Option Constant} {c : Constant}
    (h : w.Yields calls (Infer.folded folded) (.value (.known c))) : folded = some c := by
  cases folded <;> cases yields_done.mp h
  rfl

/-- The constants of several references are known one by one. -/
theorem knows_of_knownValues {xs : List Ref} {cs : List Constant}
    (h : w.Yields calls (Infer.knownValues xs) (some cs)) : List.Forall₂ (w.Knows calls) xs cs := by
  induction xs generalizing cs with
  | nil =>
    cases yields_done.mp h
    exact .nil
  | cons x xs ih =>
    obtain ⟨a, ha, h⟩ := yields_seq.mp h
    cases a with
    | anything => cases yields_done.mp h
    | known c =>
      obtain ⟨rest, hrest, h⟩ := yields_seq.mp h
      have h := yields_done.mp h
      cases rest with
      | none => cases h
      | some rest =>
        cases h
        exact .cons (yields_known.mp ha) (ih hrest)

theorem yields_fold₂ {op : Constant → Constant → Infer Property}
    (h : w.Yields calls (Infer.fold₂ x y op) p) :
    p = .value .anything ∨ ∃ a b, w.Knows calls x a ∧ w.Knows calls y b ∧ w.Yields calls (op a b) p := by
  obtain ⟨cs, hcs, h⟩ := yields_seq.mp h
  split at h
  · have known := knows_of_knownValues hcs
    simp only [List.forall₂_cons, List.forall₂_nil_left_iff, and_true] at known
    exact .inr ⟨_, _, known.1, known.2, h⟩
  · exact .inl (yields_done.mp h)

/-- A folded operator of two operands. -/
theorem knows_foldBinary {op : Constant → Constant → Option Constant} {args : List Ref} {c : Constant}
    (h : w.Yields calls (Rule.foldBinary op .value args) (.value (.known c))) :
    ∃ x y a b, args = [x, y] ∧ w.Knows calls x a ∧ w.Knows calls y b ∧ op a b = some c := by
  obtain ⟨x, y, rfl, h⟩ := yields_binary.mp h
  rcases yields_fold₂ h with heq | ⟨a, b, ha, hb, h⟩
  · cases heq
  · exact ⟨x, y, a, b, rfl, ha, hb, knows_folded h⟩

/-- A folded operator of one operand. -/
theorem knows_foldUnary {op : Constant → Option Constant} {args : List Ref} {c : Constant}
    (h : w.Yields calls (Rule.foldUnary op .value args) (.value (.known c))) :
    ∃ x a, args = [x] ∧ w.Knows calls x a ∧ op a = some c := by
  obtain ⟨x, rfl, h⟩ := yields_unary.mp h
  obtain ⟨v, hv, h⟩ := yields_seq.mp h
  cases v with
  | anything => cases yields_done.mp h
  | known a =>
    exact ⟨x, a, rfl, yields_known.mp hv, knows_folded h⟩

theorem eq_of_holds {ctx : Context} {item c : Constant}
    (h : w.Holds ctx item .value (.value (.known c))) : item = c := by
  cases h
  rfl

open ValueRules

variable {args : List Ref} {c : Constant}

theorem knows_typeOf (h : w.Yields calls (typeOf .value args) (.value (.known c))) :
    ∃ t, c = .type t := by
  obtain ⟨x, rfl, h⟩ := yields_unary.mp h
  obtain ⟨t, -, h⟩ := yields_seq.mp h
  cases yields_done.mp h
  exact ⟨t, rfl⟩

theorem knows_hasType (h : w.Yields calls (hasType .value args) (.value (.known c))) :
    ∃ b, c = .bool b := by
  obtain ⟨x, y, rfl, h⟩ := yields_binary.mp h
  obtain ⟨v, -, h⟩ := yields_seq.mp h
  split at h
  · obtain ⟨t, -, h⟩ := yields_seq.mp h
    cases yields_done.mp h
    exact ⟨_, rfl⟩
  · cases yields_done.mp h

theorem knows_makeTuple (h : w.Yields calls (makeTuple .value args) (.value (.known c))) :
    ∃ items, c = .tuple items ∧ List.Forall₂ (w.Knows calls) args items := by
  obtain ⟨cs, hcs, h⟩ := yields_seq.mp h
  cases cs with
  | none => cases yields_done.mp h
  | some items =>
    cases yields_done.mp h
    exact ⟨items, rfl, knows_of_knownValues hcs⟩

theorem knows_tail (h : w.Yields calls (tail .value args) (.value (.known c))) :
    ∃ x first rest, args = [x] ∧ w.Knows calls x (.tuple (first :: rest)) ∧ c = .tuple rest := by
  obtain ⟨x, rfl, h⟩ := yields_unary.mp h
  obtain ⟨v, hv, h⟩ := yields_seq.mp h
  split at h
  · exact h.elim
  · cases yields_done.mp h
    exact ⟨x, _, _, rfl, yields_known.mp hv, rfl⟩
  · cases yields_done.mp h

theorem knows_tupleGetItem (h : w.Yields calls (tupleGetItem .value args) (.value (.known c))) :
    ∃ x i index items, args = [x, i] ∧ w.Knows calls i index ∧ w.Knows calls x (.tuple items)
      ∧ Rule.tupleItem index items = .ok c := by
  obtain ⟨x, i, rfl, h⟩ := yields_binary.mp h
  obtain ⟨index, hindex, h⟩ := yields_seq.mp h
  obtain ⟨v, hv, h⟩ := yields_seq.mp h
  split at h
  · obtain ⟨item, hitem, h⟩ := yields_seq.mp h
    rw [← eq_of_holds (yields_constant.mp h)]
    exact ⟨x, i, index, _, rfl, yields_constantOf.mp hindex, yields_known.mp hv,
      yields_ofExcept.mp hitem⟩
  · cases yields_done.mp h

theorem knows_listGetItem (h : w.Yields calls (listGetItem .value args) (.value (.known c))) :
    ∃ x i items index, args = [x, i] ∧ w.Knows calls x items ∧ items.item? index = some c := by
  obtain ⟨x, i, rfl, h⟩ := yields_binary.mp h
  rcases yields_fold₂ h with heq | ⟨items, index, hitems, -, h⟩
  · cases heq
  · split at h
    · rename_i item hitem
      rw [← eq_of_holds (yields_constant.mp h)]
      exact ⟨x, i, items, index, rfl, hitems, hitem⟩
    · exact h.elim

theorem knows_tupleLen (h : w.Yields calls (tupleLen .value args) (.value (.known c))) :
    ∃ n, c = .int n := by
  obtain ⟨x, rfl, h⟩ := yields_unary.mp h
  obtain ⟨t, -, h⟩ := yields_seq.mp h
  split at h <;> cases yields_done.mp h
  exact ⟨_, rfl⟩

theorem knows_listLen (h : w.Yields calls (listLen .value args) (.value (.known c))) :
    ∃ n, c = .int n := by
  obtain ⟨x, rfl, h⟩ := yields_unary.mp h
  obtain ⟨v, -, h⟩ := yields_seq.mp h
  split at h <;> cases yields_done.mp h
  exact ⟨_, rfl⟩

theorem knows_arrayLen (h : w.Yields calls (arrayLen .value args) (.value (.known c))) :
    ∃ n, c = .int n := by
  obtain ⟨x, rfl, h⟩ := yields_unary.mp h
  obtain ⟨s, -, h⟩ := yields_seq.mp h
  split at h
  · cases yields_done.mp h
    exact ⟨_, rfl⟩
  · exact h.elim
  · cases yields_done.mp h

theorem knows_shape (h : w.Yields calls (shape .value args) (.value (.known c))) :
    ∃ x ds ns, args = [x] ∧ w.Yields calls (Infer.shapeOf x) (.dims ds)
      ∧ c = .tuple (List.map .int ns) ∧ ns.length = ds.length := by
  obtain ⟨x, rfl, h⟩ := yields_unary.mp h
  obtain ⟨s, hs, h⟩ := yields_seq.mp h
  obtain ⟨ds, hds, hfold⟩ := Option.bind_eq_some_iff.mp (knows_folded h)
  obtain ⟨ns, rfl, length_eq⟩ := Dim.listToConstant?_eq_some hfold
  cases s <;> cases hds
  exact ⟨x, ds, ns, rfl, hs, rfl, length_eq⟩

theorem knows_broadcastShape (h : w.Yields calls (broadcastShape .value args) (.value (.known c))) :
    ∃ x y as bs ns, args = [x, y] ∧ w.Knows calls x (.tuple as) ∧ w.Knows calls y (.tuple bs)
      ∧ c = .tuple (List.map .int ns) ∧ ns.length = max as.length bs.length := by
  obtain ⟨x, y, rfl, h⟩ := yields_binary.mp h
  rcases yields_fold₂ h with heq | ⟨a, b, ha, hb, h⟩
  · cases heq
  · obtain ⟨ds, hds, h⟩ := yields_seq.mp h
    obtain ⟨es, hes, h⟩ := yields_seq.mp h
    obtain ⟨as, rfl, has⟩ := Dim.listOfConstant_eq_ok (yields_ofExcept.mp hds)
    obtain ⟨bs, rfl, hbs⟩ := Dim.listOfConstant_eq_ok (yields_ofExcept.mp hes)
    split at h
    · rename_i merged hmerged
      obtain ⟨ns, rfl, length_eq⟩ := Dim.listToConstant?_eq_some (knows_folded h)
      refine ⟨x, y, as, bs, ns, rfl, ha, hb, rfl, ?_⟩
      rw [length_eq, (broadcastDims_eq_some_iff.mp hmerged).1, has, hbs]
    · exact h.elim

/-- An attribute of a record is read from a constant. -/
theorem yields_getAttribute (h : w.Yields calls (getAttribute .value args) p) :
    ∃ x y, args = [x, y] ∧ ∃ found, w.Yields calls (Infer.recordAttribute x y) found
      ∧ (found ≠ none ∧ p = .value .anything ∨ w.Yields calls (Infer.access .named .value x y) p) := by
  obtain ⟨x, y, rfl, h⟩ := yields_binary.mp h
  obtain ⟨found, hfound, h⟩ := yields_seq.mp h
  refine ⟨x, y, rfl, found, hfound, ?_⟩
  cases found with
  | none => exact .inr h
  | some pair =>
    obtain ⟨v, -, h⟩ := yields_seq.mp h
    cases v with
    | anything => exact .inl ⟨by simp, yields_done.mp h⟩
    | known d => exact .inr h

theorem knows_access (h : w.Yields calls (Infer.access .named .value x y) (.value (.known c))) :
    ∃ d name, w.Knows calls x d ∧ w.Knows calls y (.str name) ∧ d.attribute? name = some c := by
  obtain ⟨key, hkey, s, -, h⟩ := yields_access.mp h
  rcases h with ⟨_, _, _, -, -, -, heq⟩ | ⟨-, d, found, hd, hfound, holds⟩
  · cases heq
  · rw [← eq_of_holds holds]
    obtain ⟨name, hname, hfound⟩ := Option.bind_eq_some_iff.mp hfound
    cases key <;> cases hname
    exact ⟨d, name, hd, hkey, hfound⟩

theorem knows_scalarCast (h : w.Yields calls (scalarCast .value args) (.value (.known c))) :
    ∃ (x y : Ref) (a : Constant) (target : Ty), args = [x, y] ∧ w.Knows calls y (.type target)
      ∧ a.cast target.family = some c := by
  obtain ⟨x, y, rfl, h⟩ := yields_binary.mp h
  rcases yields_fold₂ h with heq | ⟨a, b, -, hb, h⟩
  · cases heq
  · split at h
    · exact ⟨x, y, a, _, rfl, hb, knows_folded h⟩
    · exact h.elim

end Ledger

end ArrayInference
