import ArrayInference.Proofs.Bounds.Checked
import ArrayInference.Proofs.Table
import ArrayInference.Rules.Control

/-!
# Registries of checked rules

Beside the registry of a track stands one of checked rules. It covers the track if for every operator
with a rule it has a checked rule that shadows this rule. Here are the checked rules that all tracks
share, and the accesses to tuples that the rules of the tracks have in common.
-/

namespace ArrayInference

/-- The checked rules of one track. -/
structure CheckedRegistry where
  rules : Table Primitive CheckedRule

namespace CheckedRegistry

def empty : CheckedRegistry :=
  { rules := [] }

/-- Enters a checked rule in place of any other one. -/
def insert (c : CheckedRegistry) (operator : Primitive) (checked : CheckedRule) : CheckedRegistry :=
  { rules := c.rules.insert operator checked }

/-- Enters the same checked rule for several operators. -/
def insertAll (c : CheckedRegistry) (operators : List Primitive) (checked : CheckedRule) :
    CheckedRegistry :=
  operators.foldl (fun c operator => c.insert operator checked) c

def get? (c : CheckedRegistry) (operator : Primitive) : Option CheckedRule :=
  c.rules.find? operator

/-- Every rule of a registry is shadowed by a checked rule. -/
def Covers (c : CheckedRegistry) (r : Registry) : Prop :=
  ∀ (operator : Primitive) (arity : Arity) (rule : Rule), r.get? operator = some (arity, rule) →
    ∃ checked, c.get? operator = some checked ∧ Shadows arity rule checked

variable {c : CheckedRegistry} {r : Registry} {arity : Arity} {rule : Rule} {checked : CheckedRule}

theorem covers_empty : c.Covers .empty :=
  fun _ _ _ found => nomatch found

theorem Covers.insert (h : c.Covers r) (operator : Primitive) (shadows : Shadows arity rule checked) :
    (c.insert operator checked).Covers (r.insert operator arity rule) := by
  intro other arity' rule' found
  rw [Registry.get?, Registry.insert, Table.find?_insert] at found
  rw [get?, CheckedRegistry.insert, Table.find?_insert]
  by_cases same : operator = other
  · rw [if_pos same] at found ⊢
    obtain ⟨rfl, rfl⟩ := Prod.mk.inj (Option.some.inj found)
    exact ⟨checked, rfl, shadows⟩
  · rw [if_neg same] at found ⊢
    exact h other arity' rule' found

theorem Covers.insertAll (h : c.Covers r) (operators : List Primitive)
    (shadows : Shadows arity rule checked) :
    (c.insertAll operators checked).Covers (r.insertAll operators arity rule) := by
  induction operators generalizing c r with
  | nil => exact h
  | cons operator operators ih => exact ih (h.insert operator shadows)

end CheckedRegistry

namespace Rule

/-- The checked rules that every track starts from. -/
def checkedCommon : CheckedRegistry :=
  CheckedRegistry.empty
    |>.insert .ifElse (.counted 3 ifElse)
    |>.insert .switch (.counted 3 switch)
    |>.insert .applyPartially (.free partially)
    |>.insertAll [.returnValue, .identity] (.counted 1 passThrough)
    |>.insert .resolve (.counted 2 resolve)

theorem covers_common : checkedCommon.Covers common :=
  CheckedRegistry.covers_empty
    |>.insert .ifElse (.counted (counts_ternary _))
    |>.insert .switch (.counted (counts_ternary _))
    |>.insert .applyPartially .free
    |>.insertAll [.returnValue, .identity] (.counted (counts_unary _))
    |>.insert .resolve (.counted (counts_binary _))

variable {α : Type}

/-- The items of a tuple after the first one. -/
def checkedRest (items : List α) : Checked (List α) :=
  if items.isEmpty then .plain (.fail (.inference "tail of an empty tuple"))
  else Checked.slice items 1

/-- The item of a tuple at the position that a constant index names. -/
def checkedItem (index : Constant) (items : List α) : Checked α := do
  let position ← Checked.plain (Infer.ofExcept (tuplePosition index items.length))
  Checked.item items position

theorem checkedRest_cons (first : α) (rest : List α) : checkedRest (first :: rest) = pure rest := by
  have within : 1 ≤ (first :: rest).length := Nat.succ_pos rest.length
  exact Checked.slice_of_le within

theorem tuplePosition_lt {index : Constant} {count position : Nat}
    (h : tuplePosition index count = .ok position) : position < count := by
  cases index with
  | int i =>
    simp only [tuplePosition] at h
    split at h
    · rename_i n found
      obtain rfl := Except.ok.inj h
      simp only [position?, Option.ite_none_right_eq_some, Option.some.injEq] at found
      omega
    · exact nomatch h
  | _ => exact nomatch h

theorem tupleItem_of_position {index : Constant} {items : List α} {position : Nat} {item : α}
    (h : tuplePosition index items.length = .ok position) (found : items[position]? = some item) :
    tupleItem index items = .ok item := by
  cases index with
  | int i =>
    simp only [tuplePosition] at h
    split at h
    · rename_i n hn
      obtain rfl := Except.ok.inj h
      simp [tupleItem, hn, found]
    · exact nomatch h
  | _ => exact nomatch h

theorem tupleItem_of_error {index : Constant} {items : List α} {e : InferError}
    (h : tuplePosition index items.length = .error e) : tupleItem index items = .error e := by
  cases index with
  | int i =>
    simp only [tuplePosition] at h
    split at h
    · exact nomatch h
    · rename_i hn
      obtain rfl := Except.error.inj h
      simp [tupleItem, hn]
  | _ =>
    obtain rfl := Except.error.inj h
    rfl

theorem faultless_item (index : Constant) (items : List α) :
    Faultless (checkedItem index items) (Infer.ofExcept (tupleItem index items)) := by
  cases h : tuplePosition index items.length with
  | error e =>
    rw [checkedItem, h, tupleItem_of_error h]
    rfl
  | ok position =>
    obtain ⟨item, found⟩ : ∃ item, items[position]? = some item :=
      ⟨_, List.getElem?_eq_getElem (tuplePosition_lt h)⟩
    rw [checkedItem, h, tupleItem_of_position h found]
    exact Checked.item_of_getElem? found

end Rule

end ArrayInference
