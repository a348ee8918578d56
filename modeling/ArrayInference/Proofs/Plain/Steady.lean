import ArrayInference.Proofs.Types.Stepwise

/-!
# Types do not depend on the cache

Two caches of one home make the same types, whatever they have made before: each step of making a type
depends on nothing but the home of the cache.
-/

namespace ArrayInference

/-- A type that depends on nothing but whose cache makes it. -/
structure Interning.Steady {α : Type} (make : Interning α) : Prop where
  answer : ∀ c d : TypeCache, c.home = d.home → (make.run c).1 = (make.run d).1
  home : ∀ c : TypeCache, (make.run c).2.home = c.home

namespace Interning

theorem steady_pure {α : Type} (a : α) : Steady (pure a) :=
  ⟨fun _ _ _ => rfl, fun _ => rfl⟩

theorem Steady.bind {α β : Type} {make : Interning α} {f : α → Interning β} (h : make.Steady)
    (h' : ∀ a, (f a).Steady) : (make >>= f).Steady where
  answer := by
    intro c d home
    show ((f (make.run c).1).run (make.run c).2).1 = ((f (make.run d).1).run (make.run d).2).1
    rw [h.answer c d home]
    exact (h' _).answer _ _ ((h.home c).trans (home.trans (h.home d).symm))
  home := fun c => ((h' _).home _).trans (h.home c)

theorem steady_intern (make : CacheId → Ty) : (intern make).Steady := by
  refine ⟨fun c d h => congrArg make h, fun c => ?_⟩
  have hadd : ∀ (c : TypeCache) (t : Ty), (c.add t).home = c.home := by
    intro c t
    rw [TypeCache.add]
    split <;> rfl
  exact (hadd _ _).trans (hadd _ _)

theorem steady_declaredTag (name : String) (host : ObjectId) : (declaredTag name host).Steady where
  answer := by
    intro c d h
    show ({ name, origin := .declared c.home host } : ClassTag)
      = { name, origin := .declared d.home host }
    rw [h]
  home := fun _ => rfl

theorem stepwise_steady : Stepwise fun _ make => make.Steady where
  pure := steady_pure
  bind := Steady.bind
  intern := fun {make} _ => steady_intern make
  declaredTag := steady_declaredTag

section

variable {α β : Type} {ε : Type}

theorem Steady.tryBind {make : ExceptT ε Interning α} {f : α → ExceptT ε Interning β}
    (h : Steady make.run) (h' : ∀ a, Steady (f a).run) : Steady (make >>= f).run :=
  stepwise_steady.tryBind h h'

theorem Steady.lift {make : Interning α} (h : make.Steady) :
    Steady (ExceptT.lift make : ExceptT ε Interning α).run :=
  stepwise_steady.lift h

theorem steady_return (a : α) : Steady (pure a : ExceptT ε Interning α).run :=
  stepwise_steady.succeed a

end

theorem steady_generic (family : Family) : (generic family).Steady :=
  stepwise_steady.generic family

theorem steady_tuple (elements : List Ty) : (tuple elements).Steady :=
  stepwise_steady.tuple elements

theorem steady_list (element : Ty) : (list element).Steady :=
  stepwise_steady.list element

theorem steady_array (element : Ty) : (array element).Steady :=
  stepwise_steady.array element

theorem steady_record (tag : ClassTag) (attributes : List (String × Ty))
    (methods : List (String × GraphId)) : (record tag attributes methods).Steady :=
  stepwise_steady.record tag attributes methods

theorem steady_declaredType (c : RecordClass) : (declaredType c).Steady :=
  stepwise_steady.declaredType c

theorem steady_typeOfConstant (c : Constant) : Steady (typeOfConstant c).run :=
  stepwise_steady.typeOfConstant c

theorem steady_typesOfConstants (cs : List Constant) : Steady (typesOfConstants cs).run :=
  stepwise_steady.typesOfConstants cs

end Interning

end ArrayInference
