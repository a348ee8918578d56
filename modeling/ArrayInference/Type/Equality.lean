import ArrayInference.Type.Basic

/-!
# Equality of types is decidable

A type nests lists of types and of attributes, so the test runs over all three together. Main
statement: the test holds exactly of equal types.
-/

namespace ArrayInference

namespace Ty

mutual

/-- Whether two types agree all the way down. -/
def same : Ty → Ty → Bool
  | generic h f, generic h' f' => h = h' && f = f'
  | int h b, int h' b' => h = h' && b = b'
  | uint h b, uint h' b' => h = h' && b = b'
  | float h b, float h' b' => h = h' && b = b'
  | tuple h es, tuple h' es' => h = h' && sameList es es'
  | list h e, list h' e' => h = h' && same e e'
  | array h e, array h' e' => h = h' && same e e'
  | record h tag as ms, record h' tag' as' ms' =>
      h = h' && tag = tag' && ms = ms' && sameAttributes as as'
  | function h ps r, function h' ps' r' => h = h' && sameList ps ps' && same r r'
  | external h host, external h' host' => h = h' && host = host'
  | _, _ => false

/-- Whether two lists of types agree. -/
def sameList : List Ty → List Ty → Bool
  | [], [] => true
  | t :: ts, t' :: ts' => same t t' && sameList ts ts'
  | _, _ => false

/-- Whether two lists of attributes agree. -/
def sameAttributes : List (String × Ty) → List (String × Ty) → Bool
  | [], [] => true
  | (n, t) :: rest, (n', t') :: rest' => n = n' && same t t' && sameAttributes rest rest'
  | _, _ => false

end

mutual

theorem same_iff : ∀ s t : Ty, same s t = true ↔ s = t
  | generic .., t => by cases t <;> simp [same]
  | int .., t => by cases t <;> simp [same]
  | uint .., t => by cases t <;> simp [same]
  | float .., t => by cases t <;> simp [same]
  | tuple _ es, t => by cases t <;> simp [same, sameList_iff es]
  | list _ e, t => by cases t <;> simp [same, same_iff e]
  | array _ e, t => by cases t <;> simp [same, same_iff e]
  | record _ _ as _, t => by
      cases t <;> simp [same, sameAttributes_iff as]
      grind
  | function _ ps r, t => by cases t <;> simp [same, sameList_iff ps, same_iff r, and_assoc]
  | external .., t => by cases t <;> simp [same]

theorem sameList_iff : ∀ ss ts : List Ty, sameList ss ts = true ↔ ss = ts
  | [], ts => by cases ts <;> simp [sameList]
  | s :: ss, ts => by cases ts <;> simp [sameList, same_iff s, sameList_iff ss]

theorem sameAttributes_iff :
    ∀ as bs : List (String × Ty), sameAttributes as bs = true ↔ as = bs
  | [], bs => by cases bs <;> simp [sameAttributes]
  | (n, s) :: as, bs => by
      rcases bs with _ | ⟨⟨n', t⟩, bs⟩ <;>
        simp [sameAttributes, same_iff s, sameAttributes_iff as]

end

instance : DecidableEq Ty := fun s t => decidable_of_iff _ (same_iff s t)

end Ty

end ArrayInference
