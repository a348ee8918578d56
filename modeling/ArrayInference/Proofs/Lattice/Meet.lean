import ArrayInference.Proofs.Tracks.Shaped

/-!
# The shape that two descriptions of one value agree on

Shapes are ordered by how much they say, `AtMost` being the order. Merging two shapes finds the
greatest lower bound of both, and fails where they have no lower bound at all. Everything follows
from one equivalence, `exists_merge_iff`: below the merge of two shapes lies exactly what lies below
both of them. Main statement: `merge_isMeet`.
-/

namespace ArrayInference

theorem Dim.AtMost.refl (d : Dim) : d.AtMost d :=
  .inr rfl

theorem Dim.AtMost.antisymm {d e : Dim} (h : d.AtMost e) (h' : e.AtMost d) : d = e := by
  rcases h with rfl | h
  · rcases h' with h' | h'
    · exact h'
    · exact h'.symm
  · exact h

theorem eq_of_forall₂_of_antisymm {α : Type} {R : α → α → Prop} {xs ys : List α}
    (antisymm : ∀ x ∈ xs, ∀ y, R x y → R y x → x = y) (h : List.Forall₂ R xs ys)
    (h' : List.Forall₂ R ys xs) : xs = ys := by
  induction h with
  | nil => rfl
  | cons first rest ih =>
    rw [List.forall_mem_cons] at antisymm
    rw [List.forall₂_cons] at h'
    rw [antisymm.1 _ first h'.1, ih antisymm.2 h'.2]

/-- Two descriptions by one injective constructor describe its one argument. -/
theorem exists_and_exists_iff {α β : Type} {f : α → β} (inj : Function.Injective f)
    {b : β} {P Q : α → Prop} :
    (∃ a, b = f a ∧ P a) ∧ (∃ a, b = f a ∧ Q a) ↔ ∃ a, b = f a ∧ P a ∧ Q a := by
  constructor
  · rintro ⟨⟨a, rfl, h⟩, a', heq, h'⟩
    exact ⟨a, rfl, h, inj heq ▸ h'⟩
  · rintro ⟨a, rfl, h, h'⟩
    exact ⟨⟨a, rfl, h⟩, a, rfl, h'⟩

namespace Shape

/-! ## The order by the parts of a shape -/

theorem atMost_dims_iff {ds : List Dim} {s : Shape} :
    s.AtMost (dims ds) ↔ ∃ es, s = dims es ∧ List.Forall₂ Dim.AtMost es ds := by
  constructor
  · intro h
    cases h with
    | dims each => exact ⟨_, rfl, each⟩
  · rintro ⟨es, rfl, each⟩
    exact .dims each

theorem atMost_tuple_iff {ts : List Shape} {s : Shape} :
    s.AtMost (tuple ts) ↔ ∃ ss, s = tuple ss ∧ List.Forall₂ AtMost ss ts := by
  constructor
  · intro h
    cases h with
    | @tuple ss _ length_eq each => exact ⟨ss, rfl, forall₂_of_getElem? length_eq each⟩
  · rintro ⟨ss, rfl, h⟩
    exact .tuple h.length_eq fun hs ht => forall₂_getElem? h hs ht

theorem atMost_list_iff {t s : Shape} :
    s.AtMost (list t) ↔ ∃ element, s = list element ∧ element.AtMost t := by
  constructor
  · intro h
    cases h with
    | list element => exact ⟨_, rfl, element⟩
  · rintro ⟨_, rfl, element⟩
    exact .list element

/-- Two attributes of one name, the second of which says no more than the first. -/
def AttributeAtMost (a b : String × Shape) : Prop :=
  a.1 = b.1 ∧ a.2.AtMost b.2

theorem names_eq_of_forall₂ {as bs : List (String × Shape)}
    (h : List.Forall₂ AttributeAtMost as bs) : as.map (·.1) = bs.map (·.1) := by
  induction h with
  | nil => rfl
  | cons first _ ih => rw [List.map_cons, List.map_cons, first.1, ih]

theorem atMost_record_iff {bs : List (String × Shape)} {s : Shape} :
    s.AtMost (record bs) ↔ ∃ as, s = record as ∧ List.Forall₂ AttributeAtMost as bs := by
  constructor
  · intro h
    cases h with
    | @record as _ names each => exact ⟨as, rfl, forall₂_of_names names each⟩
  · rintro ⟨as, rfl, h⟩
    exact .record (names_eq_of_forall₂ h) fun ha hb => (forall₂_getElem? h ha hb).2

theorem AtMost.antisymm {s t : Shape} (h : s.AtMost t) (h' : t.AtMost s) : s = t := by
  induction h with
  | noShape => rfl
  | dims each =>
    obtain ⟨_, hds, each'⟩ := atMost_dims_iff.mp h'
    cases hds
    rw [eq_of_forall₂_of_antisymm (fun _ _ _ => Dim.AtMost.antisymm) each each']
  | @tuple ss ts length_eq each ih =>
    obtain ⟨_, hts, each'⟩ := atMost_tuple_iff.mp h'
    cases hts
    refine congrArg Shape.tuple (List.ext_getElem length_eq fun i hi hj => ?_)
    have hs := List.getElem?_eq_getElem hi
    have ht := List.getElem?_eq_getElem hj
    exact ih hs ht (forall₂_getElem? each' ht hs)
  | list _ ih =>
    obtain ⟨_, ht, element'⟩ := atMost_list_iff.mp h'
    cases ht
    rw [ih element']
  | @record as bs names each ih =>
    obtain ⟨_, hbs, each'⟩ := atMost_record_iff.mp h'
    cases hbs
    refine congrArg Shape.record (List.ext_getElem each'.length_eq.symm fun i hi hj => ?_)
    have ha := List.getElem?_eq_getElem hi
    have hb := List.getElem?_eq_getElem hj
    obtain ⟨name, le⟩ := forall₂_getElem? each' hb ha
    exact Prod.ext name.symm (ih ha hb le)

/-- Shapes that the same shapes lie below are equal. -/
theorem eq_of_forall_atMost_iff {m n : Shape} (h : ∀ s : Shape, s.AtMost m ↔ s.AtMost n) : m = n :=
  AtMost.antisymm ((h m).mp (.refl m)) ((h n).mpr (.refl n))

/-! ## Below the merge of two shapes -/

theorem exists_mergeDim_iff {d e f : Dim} :
    (∃ m, mergeDim d e = some m ∧ f.AtMost m) ↔ f.AtMost d ∧ f.AtMost e := by
  cases d with
  | anything => simp [mergeDim, Dim.AtMost]
  | known m =>
    cases e with
    | anything => simp [mergeDim, Dim.AtMost]
    | known n =>
      by_cases h : m = n
      · simp [mergeDim, Dim.AtMost, h]
      · suffices ¬ (f = .known m ∧ f = .known n) by simpa [mergeDim, Dim.AtMost, h]
        rintro ⟨rfl, hn⟩
        exact h (Dim.known.inj hn)

theorem exists_mergeDims_iff {ds es fs : List Dim} :
    (∃ ms, mergeDims ds es = some ms ∧ List.Forall₂ Dim.AtMost fs ms) ↔
      List.Forall₂ Dim.AtMost fs ds ∧ List.Forall₂ Dim.AtMost fs es := by
  induction ds generalizing es fs with
  | nil => cases es <;> cases fs <;> simp [mergeDims]
  | cons d ds ih =>
    cases es with
    | nil => cases fs <;> simp [mergeDims]
    | cons e es =>
      rw [mergeDims]
      cases fs with
      | nil => cases mergeDim d e <;> cases mergeDims ds es <;> simp
      | cons f fs =>
        rw [List.forall₂_cons, List.forall₂_cons, and_and_and_comm, ← exists_mergeDim_iff, ← ih]
        cases mergeDim d e <;> cases mergeDims ds es <;> simp

mutual

/-- Below the merge of two shapes lies exactly what lies below both of them. -/
theorem exists_merge_iff : ∀ {a b s : Shape},
    (∃ m, merge a b = .ok m ∧ s.AtMost m) ↔ s.AtMost a ∧ s.AtMost b
  | noShape, b, s => by
      cases b with
      | noShape => simp [merge]
      | _ => exact iff_of_false (by simp [merge]) (by rintro ⟨⟨⟩, ⟨⟩⟩)
  | dims ds, b, s => by
      cases b with
      | dims es =>
        rw [atMost_dims_iff, atMost_dims_iff, exists_and_exists_iff fun _ _ => dims.inj, merge]
        simp only [← exists_mergeDims_iff]
        cases mergeDims ds es <;> simp [atMost_dims_iff]
      | _ => exact iff_of_false (by simp [merge]) (by rintro ⟨⟨⟩, ⟨⟩⟩)
  | tuple ss, b, s => by
      cases b with
      | tuple ts =>
        rw [atMost_tuple_iff, atMost_tuple_iff, exists_and_exists_iff fun _ _ => tuple.inj, merge]
        split
        · rename_i length_eq
          simp only [← exists_mergeList_iff length_eq]
          cases mergeList ss ts <;> simp [atMost_tuple_iff, bind, Except.bind, pure, Except.pure]
        · rename_i length_ne
          refine iff_of_false (by simp) ?_
          rintro ⟨us, -, hs, ht⟩
          exact length_ne (hs.length_eq.symm.trans ht.length_eq)
      | _ => exact iff_of_false (by simp [merge]) (by rintro ⟨⟨⟩, ⟨⟩⟩)
  | list a, b, s => by
      cases b with
      | list b =>
        rw [atMost_list_iff, atMost_list_iff, exists_and_exists_iff fun _ _ => list.inj, merge]
        simp only [← exists_merge_iff (a := a) (b := b)]
        cases merge a b <;> simp [atMost_list_iff, bind, Except.bind, pure, Except.pure]
      | _ => exact iff_of_false (by simp [merge]) (by rintro ⟨⟨⟩, ⟨⟩⟩)
  | record as, b, s => by
      cases b with
      | record bs =>
        rw [atMost_record_iff, atMost_record_iff, exists_and_exists_iff fun _ _ => record.inj, merge]
        split
        · rename_i names
          simp only [← exists_mergeAttributes_iff names]
          cases mergeAttributes as bs <;>
            simp [atMost_record_iff, bind, Except.bind, pure, Except.pure]
        · rename_i names
          refine iff_of_false (by simp) ?_
          rintro ⟨cs, -, ha, hb⟩
          exact names ((names_eq_of_forall₂ ha).symm.trans (names_eq_of_forall₂ hb))
      | _ => exact iff_of_false (by simp [merge]) (by rintro ⟨⟨⟩, ⟨⟩⟩)

theorem exists_mergeList_iff : ∀ {ss ts us : List Shape}, ss.length = ts.length →
    ((∃ ms, mergeList ss ts = .ok ms ∧ List.Forall₂ AtMost us ms) ↔
      List.Forall₂ AtMost us ss ∧ List.Forall₂ AtMost us ts)
  | [], [], us, _ => by simp [mergeList]
  | s :: ss, t :: ts, us, length_eq => by
      rw [mergeList]
      cases us with
      | nil =>
        cases merge s t <;> cases mergeList ss ts <;> simp [bind, Except.bind, pure, Except.pure]
      | cons u us =>
        rw [List.forall₂_cons, List.forall₂_cons, and_and_and_comm, ← exists_merge_iff,
          ← exists_mergeList_iff (Nat.succ.inj length_eq)]
        cases merge s t <;> cases mergeList ss ts <;> simp [bind, Except.bind, pure, Except.pure]

theorem exists_mergeAttributes_iff : ∀ {as bs cs : List (String × Shape)},
    as.map (·.1) = bs.map (·.1) →
    ((∃ ms, mergeAttributes as bs = .ok ms ∧ List.Forall₂ AttributeAtMost cs ms) ↔
      List.Forall₂ AttributeAtMost cs as ∧ List.Forall₂ AttributeAtMost cs bs)
  | [], [], cs, _ => by simp [mergeAttributes]
  | (name, s) :: as, (name', t) :: bs, cs, names => by
      obtain ⟨rfl, rest⟩ : name = name' ∧ as.map (·.1) = bs.map (·.1) := List.cons.inj names
      rw [mergeAttributes]
      cases cs with
      | nil =>
        cases merge s t <;> cases mergeAttributes as bs <;>
          simp [bind, Except.bind, pure, Except.pure]
      | cons c cs =>
        rw [List.forall₂_cons, List.forall₂_cons, and_and_and_comm, AttributeAtMost,
          AttributeAtMost, ← and_and_left, ← exists_merge_iff, ← exists_mergeAttributes_iff rest]
        cases merge s t <;> cases mergeAttributes as bs <;>
          simp [AttributeAtMost, bind, Except.bind, pure, Except.pure]

end

/-- Merging finds a shape exactly where that is the greatest lower bound of both shapes. -/
theorem merge_eq_ok_iff {a b m : Shape} :
    merge a b = .ok m ↔ ∀ s : Shape, s.AtMost m ↔ s.AtMost a ∧ s.AtMost b := by
  constructor
  · intro h s
    rw [← exists_merge_iff, h]
    simp
  · intro h
    obtain ⟨n, hn, le⟩ := exists_merge_iff.mpr ((h m).mp (.refl m))
    have greatest (s : Shape) : s.AtMost n ↔ s.AtMost m := by
      rw [h, ← exists_merge_iff, hn]
      simp
    rw [hn, eq_of_forall_atMost_iff greatest]

theorem exists_merge {a b : Shape} :
    (∃ m, merge a b = .ok m) ↔ ∃ s : Shape, s.AtMost a ∧ s.AtMost b := by
  constructor
  · rintro ⟨m, h⟩
    exact ⟨m, (merge_eq_ok_iff.mp h m).mp (.refl m)⟩
  · rintro ⟨s, h⟩
    obtain ⟨m, hm, _⟩ := exists_merge_iff.mpr h
    exact ⟨m, hm⟩

/-! ## The laws of merging -/

/-- One shape says no more than another one exactly if merging the two adds nothing to the other. -/
theorem merge_eq_left_iff {a b : Shape} : merge a b = .ok a ↔ a.AtMost b := by
  rw [merge_eq_ok_iff]
  constructor
  · intro h
    exact ((h a).mp (.refl a)).2
  · intro h s
    exact (and_iff_left_of_imp fun hs => hs.trans h).symm

theorem merge_self (a : Shape) : merge a a = .ok a :=
  merge_eq_left_iff.mpr (.refl a)

theorem merge_comm_of_ok {a b m : Shape} : merge a b = .ok m ↔ merge b a = .ok m := by
  simp only [merge_eq_ok_iff, and_comm]

/-- The greatest lower bound of three shapes, merged from the left. -/
theorem merge_bind_eq_ok_iff {a b c m : Shape} :
    (merge a b >>= fun x => merge x c) = .ok m ↔
      ∀ s : Shape, s.AtMost m ↔ (s.AtMost a ∧ s.AtMost b) ∧ s.AtMost c := by
  constructor
  · intro h s
    cases hab : merge a b with
    | error e => simp [hab, bind, Except.bind] at h
    | ok x =>
      rw [hab] at h
      rw [merge_eq_ok_iff.mp h, merge_eq_ok_iff.mp hab]
  · intro h
    obtain ⟨x, hx⟩ := exists_merge.mpr ⟨m, ((h m).mp (.refl m)).1⟩
    rw [hx]
    refine merge_eq_ok_iff.mpr fun s => ?_
    rw [h, merge_eq_ok_iff.mp hx]

theorem toOption_eq_of_forall {ε α : Type} {x y : Except ε α}
    (h : ∀ a, x = .ok a ↔ y = .ok a) : x.toOption = y.toOption := by
  cases x with
  | ok a => rw [(h a).mp rfl]
  | error e =>
    cases y with
    | ok a => cases (h a).mpr rfl
    | error e' => rfl

theorem merge_comm (a b : Shape) : (merge a b).toOption = (merge b a).toOption :=
  toOption_eq_of_forall fun _ => merge_comm_of_ok

theorem merge_assoc (a b c : Shape) :
    (merge a b >>= fun x => merge x c).toOption = (merge b c >>= fun x => merge a x).toOption := by
  refine toOption_eq_of_forall fun m => ?_
  have hcomm : (merge b c >>= fun x => merge a x) = .ok m ↔
      (merge b c >>= fun x => merge x a) = .ok m := by
    cases merge b c with
    | error e => rfl
    | ok x => exact merge_comm_of_ok
  rw [hcomm, merge_bind_eq_ok_iff, merge_bind_eq_ok_iff]
  refine forall_congr' fun s => ?_
  rw [and_comm (b := s.AtMost a), and_assoc]

/-- Merging two shapes finds a shape exactly where the two have a lower bound, and then the greatest
one. So it is idempotent, commutative and associative, both in where it succeeds and in what it
finds. -/
theorem merge_isMeet (a b c : Shape) :
    ((∃ m, merge a b = .ok m) ↔ ∃ s : Shape, s.AtMost a ∧ s.AtMost b)
      ∧ (∀ m, merge a b = .ok m → (m.AtMost a ∧ m.AtMost b)
        ∧ ∀ s : Shape, s.AtMost a → s.AtMost b → s.AtMost m)
      ∧ merge a a = .ok a
      ∧ (merge a b).toOption = (merge b a).toOption
      ∧ (merge a b >>= fun x => merge x c).toOption
        = (merge b c >>= fun x => merge a x).toOption := by
  refine ⟨exists_merge, fun m h => ?_, merge_self a, merge_comm a b, merge_assoc a b c⟩
  rw [merge_eq_ok_iff] at h
  exact ⟨(h m).mp (.refl m), fun s ha hb => (h s).mpr ⟨ha, hb⟩⟩

/-- An unknown extent agrees with two known ones that do not agree with each other. -/
example :
    (merge (dims [.known 4]) (dims [.anything])).toOption = some (dims [.known 4])
      ∧ (merge (dims [.anything]) (dims [.known 9])).toOption = some (dims [.known 9])
      ∧ (merge (dims [.known 4]) (dims [.known 9])).toOption = none :=
  ⟨rfl, rfl, rfl⟩

end Shape

end ArrayInference
