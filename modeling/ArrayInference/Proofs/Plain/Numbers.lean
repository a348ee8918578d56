import Mathlib
import ArrayInference.Proofs.Plain.Evaluator

/-!
# There are numbers for all inferrers

What an inferrer can stand for is a finite tree, so all of these can be numbered. Types, shapes and
constants nest lists of themselves; they are coded as plain trees first.
-/

namespace ArrayInference

/-- A tree with numbers at its leaves. -/
inductive Code where
  | leaf (n : Nat)
  | pair (first second : Code)
deriving Countable

namespace Code

/-- A leaf for something of which there are countably many. -/
noncomputable def mark {α : Type} [Countable α] (a : α) : Code :=
  leaf (Classical.choose (exists_injective_nat α) a)

@[simp] theorem mark_inj {α : Type} [Countable α] {a b : α} : mark a = mark b ↔ a = b := by
  rw [mark, mark, Code.leaf.injEq]
  exact (Classical.choose_spec (exists_injective_nat α)).eq_iff

/-- A tree under the number of its kind. -/
def under (n : Nat) (c : Code) : Code :=
  pair (leaf n) c

@[simp] theorem under_inj {m n : Nat} {c d : Code} : under m c = under n d ↔ m = n ∧ c = d := by
  simp [under]

end Code

open Code

instance countableChar : Countable Char :=
  Function.Injective.countable fun _ _ => Char.toNat_inj.mp

instance countableString : Countable String :=
  Function.Injective.countable fun _ _ => String.toList_inj.mp

deriving instance Countable for NodeId
deriving instance Countable for GraphId
deriving instance Countable for ObjectId
deriving instance Countable for CacheId
deriving instance Countable for Primitive
deriving instance Countable for Family
deriving instance Countable for TagOrigin
deriving instance Countable for ClassTag

namespace Ty

mutual

noncomputable def code : Ty → Code
  | generic h f => under 0 (mark (h, f))
  | int h b => under 1 (mark (h, b))
  | uint h b => under 2 (mark (h, b))
  | float h b => under 3 (mark (h, b))
  | tuple h es => under 4 (pair (mark h) (codes es))
  | list h e => under 5 (pair (mark h) (code e))
  | array h e => under 6 (pair (mark h) (code e))
  | record h tag as methods => under 7 (pair (mark (h, tag, methods)) (attributeCodes as))
  | function h ps r => under 8 (pair (mark h) (pair (codes ps) (code r)))
  | external h host => under 9 (mark (h, host))

noncomputable def codes : List Ty → Code
  | [] => leaf 0
  | t :: ts => pair (code t) (codes ts)

noncomputable def attributeCodes : List (String × Ty) → Code
  | [] => leaf 0
  | (name, t) :: rest => pair (mark name) (pair (code t) (attributeCodes rest))

end

mutual

theorem code_inj : ∀ s t : Ty, code s = code t ↔ s = t
  | generic .., t => by cases t <;> simp [code]
  | int .., t => by cases t <;> simp [code]
  | uint .., t => by cases t <;> simp [code]
  | float .., t => by cases t <;> simp [code]
  | tuple _ es, t => by cases t <;> simp [code, codes_inj es]
  | list _ e, t => by cases t <;> simp [code, code_inj e]
  | array _ e, t => by cases t <;> simp [code, code_inj e]
  | record _ _ as _, t => by
      cases t <;> simp [code, attributeCodes_inj as]
      grind
  | function _ ps r, t => by cases t <;> simp [code, codes_inj ps, code_inj r]
  | external .., t => by cases t <;> simp [code]

theorem codes_inj : ∀ ss ts : List Ty, codes ss = codes ts ↔ ss = ts
  | [], ts => by cases ts <;> simp [codes]
  | s :: ss, ts => by cases ts <;> simp [codes, code_inj s, codes_inj ss]

theorem attributeCodes_inj :
    ∀ as bs : List (String × Ty), attributeCodes as = attributeCodes bs ↔ as = bs
  | [], bs => by cases bs <;> simp [attributeCodes]
  | (n, s) :: as, bs => by
      rcases bs with _ | ⟨⟨n', t⟩, bs⟩ <;>
        simp [attributeCodes, code_inj s, attributeCodes_inj as, and_assoc]

end

instance : Countable Ty :=
  Function.Injective.countable fun s t => (code_inj s t).mp

end Ty

deriving instance Countable for Dim

namespace Shape

mutual

noncomputable def code : Shape → Code
  | noShape => under 0 (leaf 0)
  | dims ds => under 1 (mark ds)
  | tuple ss => under 2 (codes ss)
  | list s => under 3 (code s)
  | record as => under 4 (attributeCodes as)

noncomputable def codes : List Shape → Code
  | [] => leaf 0
  | s :: ss => pair (code s) (codes ss)

noncomputable def attributeCodes : List (String × Shape) → Code
  | [] => leaf 0
  | (name, s) :: rest => pair (mark name) (pair (code s) (attributeCodes rest))

end

mutual

theorem code_inj : ∀ s t : Shape, code s = code t ↔ s = t
  | noShape, t => by cases t <;> simp [code]
  | dims _, t => by cases t <;> simp [code]
  | tuple ss, t => by cases t <;> simp [code, codes_inj ss]
  | list s, t => by cases t <;> simp [code, code_inj s]
  | record as, t => by cases t <;> simp [code, attributeCodes_inj as]

theorem codes_inj : ∀ ss ts : List Shape, codes ss = codes ts ↔ ss = ts
  | [], ts => by cases ts <;> simp [codes]
  | s :: ss, ts => by cases ts <;> simp [codes, code_inj s, codes_inj ss]

theorem attributeCodes_inj :
    ∀ as bs : List (String × Shape), attributeCodes as = attributeCodes bs ↔ as = bs
  | [], bs => by cases bs <;> simp [attributeCodes]
  | (n, s) :: as, bs => by
      rcases bs with _ | ⟨⟨n', t⟩, bs⟩ <;>
        simp [attributeCodes, code_inj s, attributeCodes_inj as, and_assoc]

end

instance : Countable Shape :=
  Function.Injective.countable fun s t => (code_inj s t).mp

end Shape

deriving instance Countable for ArrayValue
deriving instance Countable for RecordClass
deriving instance Countable for TypeError
deriving instance Countable for Recipe
deriving instance Countable for MetaGraph

namespace Constant

mutual

noncomputable def code : Constant → Code
  | bool v => under 0 (mark v)
  | int v => under 1 (mark v)
  | float b => under 2 (mark b)
  | str v => under 3 (mark v)
  | tuple cs => under 4 (codes cs)
  | list cs => under 5 (codes cs)
  | array v => under 6 (mark v)
  | record c vs => under 7 (pair (mark c) (codes vs))
  | recordType c => under 8 (mark c)
  | type t => under 9 (mark t)
  | primitive p => under 10 (mark p)
  | graph g => under 11 (mark g)
  | metaGraph m => under 12 (mark m)
  | symbols i n es => under 13 (pair (mark (i, n)) (entryCodes es))
  | host i n es => under 14 (pair (mark (i, n)) (entryCodes es))

noncomputable def codes : List Constant → Code
  | [] => leaf 0
  | c :: cs => pair (code c) (codes cs)

noncomputable def entryCodes : List (String × Constant) → Code
  | [] => leaf 0
  | (name, c) :: rest => pair (mark name) (pair (code c) (entryCodes rest))

end

mutual

theorem code_inj : ∀ c d : Constant, code c = code d ↔ c = d
  | bool _, d => by cases d <;> simp [code]
  | int _, d => by cases d <;> simp [code]
  | float _, d => by cases d <;> simp [code]
  | str _, d => by cases d <;> simp [code]
  | tuple cs, d => by cases d <;> simp [code, codes_inj cs]
  | list cs, d => by cases d <;> simp [code, codes_inj cs]
  | array _, d => by cases d <;> simp [code]
  | record _ vs, d => by cases d <;> simp [code, codes_inj vs]
  | recordType _, d => by cases d <;> simp [code]
  | type _, d => by cases d <;> simp [code]
  | primitive _, d => by cases d <;> simp [code]
  | graph _, d => by cases d <;> simp [code]
  | metaGraph _, d => by cases d <;> simp [code]
  | symbols _ _ es, d => by cases d <;> simp [code, entryCodes_inj es, and_assoc]
  | host _ _ es, d => by cases d <;> simp [code, entryCodes_inj es, and_assoc]

theorem codes_inj : ∀ cs ds : List Constant, codes cs = codes ds ↔ cs = ds
  | [], ds => by cases ds <;> simp [codes]
  | c :: cs, ds => by cases ds <;> simp [codes, code_inj c, codes_inj cs]

theorem entryCodes_inj :
    ∀ cs ds : List (String × Constant), entryCodes cs = entryCodes ds ↔ cs = ds
  | [], ds => by cases ds <;> simp [entryCodes]
  | (n, c) :: cs, ds => by
      rcases ds with _ | ⟨⟨n', d⟩, ds⟩ <;>
        simp [entryCodes, code_inj c, entryCodes_inj cs, and_assoc]

end

instance : Countable Constant :=
  Function.Injective.countable fun c d => (code_inj c d).mp

end Constant

deriving instance Countable for Track
deriving instance Countable for Value
deriving instance Countable for InferrerForm
deriving instance Countable for Inferrer
deriving instance Countable for Property
deriving instance Countable for ArgProps
deriving instance Countable for Context
deriving instance Countable for NodeRef
deriving instance Countable for VirtualProps
deriving instance Countable for Ref
deriving instance Countable for Identity

/-- Numbers for everything that an inferrer can stand for. -/
theorem exists_numbering : Nonempty Numbering := by
  obtain ⟨number, injective⟩ := exists_injective_nat Identity
  exact ⟨number, fun n => Function.partialInv number n, fun i => Function.partialInv_left injective i⟩

end ArrayInference
