import ArrayInference.Constant.Access
import ArrayInference.Constant.Folding
import ArrayInference.Program.Basic
import ArrayInference.Reference
import ArrayInference.Shape.Lattice

/-!
# Programs without graph generators

A call of a graph generator adds to the program, so what it gives depends on the calls before it. A
program has no generators if none of its constants is one, at any depth. Then none is ever found: what
is read from a constant without generators, or folded, has none either.
-/

namespace ArrayInference

namespace Constant

mutual

/-- Whether there is no graph generator in a constant. -/
def isMetaFree : Constant → Bool
  | metaGraph _ => false
  | tuple items | list items | record _ items => areMetaFree items
  | symbols _ _ entries | host _ _ entries => entriesMetaFree entries
  | _ => true

def areMetaFree : List Constant → Bool
  | [] => true
  | c :: cs => isMetaFree c && areMetaFree cs

def entriesMetaFree : List (String × Constant) → Bool
  | [] => true
  | (_, c) :: entries => isMetaFree c && entriesMetaFree entries

end

theorem areMetaFree_iff {cs : List Constant} :
    areMetaFree cs = true ↔ ∀ c ∈ cs, c.isMetaFree = true := by
  induction cs with
  | nil => simp [areMetaFree]
  | cons c cs ih => simp [areMetaFree, ih]

theorem metaFree_of_lookup {entries : List (String × Constant)} {name : String} {c : Constant}
    (h : entriesMetaFree entries = true) (found : entries.lookup name = some c) :
    c.isMetaFree = true := by
  induction entries with
  | nil => cases found
  | cons pair rest ih =>
    obtain ⟨n, d⟩ := pair
    rw [entriesMetaFree, Bool.and_eq_true] at h
    rw [List.lookup_cons] at found
    split at found
    · cases found
      exact h.1
    · exact ih h.2 found

theorem metaFree_of_getElem? {cs : List Constant} {i : Nat} {c : Constant}
    (h : areMetaFree cs = true) (found : cs[i]? = some c) : c.isMetaFree = true :=
  areMetaFree_iff.mp h c (List.mem_of_getElem? found)

theorem metaFree_attribute? {c d : Constant} {name : String} (h : c.isMetaFree = true)
    (found : c.attribute? name = some d) : d.isMetaFree = true := by
  cases c with
  | record cls values =>
    rw [isMetaFree] at h
    rw [attribute?] at found
    split at found
    · exact metaFree_of_getElem? h found
    · obtain ⟨g, -, rfl⟩ := Option.map_eq_some_iff.mp found
      rfl
  | host id typeName attributes => exact metaFree_of_lookup h found
  | symbols id symbolName entries => exact metaFree_of_lookup h found
  | _ => cases found

theorem metaFree_item? {c d key : Constant} (h : c.isMetaFree = true)
    (found : c.item? key = some d) : d.isMetaFree = true := by
  rw [item?.eq_def] at found
  split at found
  · exact metaFree_of_lookup h found
  · obtain ⟨i, -, hi⟩ := Option.bind_eq_some_iff.mp found
    exact metaFree_of_getElem? h hi
  · obtain ⟨i, -, hi⟩ := Option.bind_eq_some_iff.mp found
    exact metaFree_of_getElem? h hi
  · cases found

/-! ## Folding -/

/-- A truth value or a number. -/
inductive Scalar : Constant → Prop where
  | bool (value : Bool) : Scalar (.bool value)
  | int (value : Int64) : Scalar (.int value)
  | float (bits : UInt64) : Scalar (.float bits)

theorem Scalar.metaFree {c : Constant} (h : c.Scalar) : c.isMetaFree = true := by
  cases h <;> rfl

theorem scalar_ofInt? {n : Int} {c : Constant} (h : ofInt? n = some c) : c.Scalar := by
  rw [ofInt?] at h
  split at h
  · cases h
    exact .int _
  · cases h

theorem scalar_arithmetic {onInts : Int → Int → Option Int}
    {onFloats : UInt64 → UInt64 → Option UInt64} {a b d : Constant}
    (h : arithmetic onInts onFloats a b = some d) : d.Scalar := by
  rw [arithmetic.eq_def] at h
  split at h
  · obtain ⟨n, -, hn⟩ := Option.bind_eq_some_iff.mp h
    exact scalar_ofInt? hn
  · obtain ⟨x, -, rfl⟩ := Option.map_eq_some_iff.mp h
    exact .float x
  · cases h

theorem scalar_plus {c d : Constant} (h : plus c = some d) : d.Scalar := by
  rw [plus.eq_def] at h
  split at h <;> cases h <;> constructor

theorem scalar_minus {c d : Constant} (h : minus c = some d) : d.Scalar := by
  rw [minus.eq_def] at h
  split at h
  · exact scalar_ofInt? h
  · cases h
    exact .float _
  · cases h

theorem scalar_onFloat {op : Float → Float} {c d : Constant} (h : onFloat op c = some d) :
    d.Scalar := by
  rw [onFloat.eq_def] at h
  split at h <;> cases h
  exact .float _

theorem scalar_compareBy {test : Ordering → Bool} {a b d : Constant}
    (h : compareBy test a b = some d) : d.Scalar := by
  obtain ⟨o, -, rfl⟩ := Option.map_eq_some_iff.mp h
  exact .bool _

theorem scalar_not {c d : Constant} (h : not c = some d) : d.Scalar := by
  rw [not.eq_def] at h
  split at h <;> cases h
  exact .bool _

theorem scalar_logical {op : Bool → Bool → Bool} {a b d : Constant} (h : logical op a b = some d) :
    d.Scalar := by
  rw [logical.eq_def] at h
  split at h <;> cases h
  exact .bool _

theorem scalar_integerPart? {signed : Bool} {x : Float} {c : Constant}
    (h : integerPart? signed x = some c) : c.Scalar := by
  rw [integerPart?] at h
  split at h
  · cases h
    exact .int _
  · cases h

theorem scalar_cast {target : Family} {c d : Constant} (h : cast target c = some d) : d.Scalar := by
  rw [cast.eq_def] at h
  split at h
  · split at h
    · cases h
      exact .float _
    · cases h
      exact .int _
    · split at h
      · cases h
        exact .int _
      · cases h
    · cases h
  · split at h
    · cases h
      exact .float _
    · exact scalar_integerPart? h
    · exact scalar_integerPart? h
    · cases h
  · cases h

/-- An operator that gives constants without generators alone. -/
def Folds (op : Constant → Option Constant) : Prop :=
  ∀ c d, op c = some d → d.isMetaFree = true

/-- The same for an operator of two operands. -/
def Folds₂ (op : Constant → Constant → Option Constant) : Prop :=
  ∀ a, Folds (op a)

theorem folds_arithmetic (onInts : Int → Int → Option Int)
    (onFloats : UInt64 → UInt64 → Option UInt64) : Folds₂ (arithmetic onInts onFloats) :=
  fun _ _ _ h => (scalar_arithmetic h).metaFree

theorem folds_plus : Folds plus :=
  fun _ _ h => (scalar_plus h).metaFree

theorem folds_minus : Folds minus :=
  fun _ _ h => (scalar_minus h).metaFree

theorem folds_onFloat (op : Float → Float) : Folds (onFloat op) :=
  fun _ _ h => (scalar_onFloat h).metaFree

theorem folds_compareBy (test : Ordering → Bool) : Folds₂ (compareBy test) :=
  fun _ _ _ h => (scalar_compareBy h).metaFree

theorem folds_not : Folds not :=
  fun _ _ h => (scalar_not h).metaFree

theorem folds_logical (op : Bool → Bool → Bool) : Folds₂ (logical op) :=
  fun _ _ _ h => (scalar_logical h).metaFree

theorem folds_cast (target : Family) : Folds (cast target) :=
  fun _ _ h => (scalar_cast h).metaFree

end Constant

theorem Dim.metaFree_listToConstant? {ds : List Dim} {c : Constant}
    (h : Dim.listToConstant? ds = some c) : c.isMetaFree = true := by
  obtain ⟨items, hitems, rfl⟩ := Option.map_eq_some_iff.mp h
  show Constant.areMetaFree items = true
  clear h
  induction ds generalizing items with
  | nil =>
    cases hitems
    rfl
  | cons d ds ih =>
    rw [List.mapM_cons] at hitems
    obtain ⟨first, hfirst, hitems⟩ := Option.bind_eq_some_iff.mp hitems
    obtain ⟨rest, hrest, hitems⟩ := Option.bind_eq_some_iff.mp hitems
    cases hitems
    obtain ⟨n, -, rfl⟩ := Option.map_eq_some_iff.mp hfirst
    rw [Constant.areMetaFree, ih rest hrest]
    rfl

/-- No constant of the program has a generator in it. -/
def Program.MetaFree (p : Program) : Prop :=
  ∀ id c, (p.node id).kind = .constant c → c.isMetaFree = true

/-- Whether a node of this kind has no generator in it. -/
def NodeKind.isMetaFree : NodeKind → Bool
  | constant value => value.isMetaFree
  | parameter .. | apply _ => true

theorem Program.metaFree_of_all {p : Program}
    (h : (p.nodes.all fun n => n.kind.isMetaFree) = true) : p.MetaFree := by
  intro id c hc
  rw [node] at hc
  cases found : p.nodes[id.index]? with
  | none =>
    rw [found] at hc
    cases hc
  | some n =>
    rw [found, Option.getD_some] at hc
    obtain ⟨i, hi, rfl⟩ := Array.mem_iff_getElem.mp (Array.mem_of_getElem? found)
    have := Array.all_eq_true.mp h i hi
    rwa [hc] at this

/-- Nor has the value of the argument. -/
def ArgSpec.MetaFree (a : ArgSpec) : Prop :=
  ∀ c, a.value = some c → c.isMetaFree = true

end ArrayInference
