import ArrayInference.Proofs.Tracks.Inhabits
import ArrayInference.Shape.Lattice

/-!
# Which constants have a shape

A shape says less about a value the more of its extents are unknown. A constant has every shape that
says at most what the constant's own shape says. Main statements: what is known of the parts of a
constant that has a shape, and that the elements of a list have the shape that was found to be common
to them.
-/

namespace ArrayInference

/-- The second extent says no more than the first. -/
def Dim.AtMost (d e : Dim) : Prop :=
  e = .anything ∨ d = e

theorem Dim.AtMost.trans {d e f : Dim} (h : d.AtMost e) (h' : e.AtMost f) : d.AtMost f := by
  rcases h' with rfl | rfl
  · exact .inl rfl
  · exact h

theorem mapM_eq_some_iff {α β : Type} {f : α → Option β} {xs : List α} {ys : List β} :
    xs.mapM f = some ys ↔ List.Forall₂ (fun x y => f x = some y) xs ys := by
  induction xs generalizing ys with
  | nil => cases ys <;> simp
  | cons x xs ih =>
    rw [List.mapM_cons, List.forall₂_cons_left_iff]
    simp only [← ih, Option.bind_eq_bind, Option.bind_eq_some_iff, Option.pure_def, Option.some.injEq]
    constructor
    · rintro ⟨y, hy, rest, hrest, rfl⟩
      exact ⟨y, rest, hy, hrest, rfl⟩
    · rintro ⟨y, rest, hy, hrest, rfl⟩
      exact ⟨y, hy, rest, hrest, rfl⟩

theorem exists_of_mapM_some {α β : Type} {f : α → Option β} {xs : List α} {ys : List β}
    (h : xs.mapM f = some ys) : List.Forall₂ (fun x y => f x = some y) xs ys :=
  mapM_eq_some_iff.mp h

theorem mapM_eq_ok_iff {ε α β : Type} {f : α → Except ε β} {xs : List α} {ys : List β} :
    xs.mapM f = .ok ys ↔ List.Forall₂ (fun x y => f x = .ok y) xs ys := by
  induction xs generalizing ys with
  | nil => cases ys <;> simp [pure, Except.pure]
  | cons x xs ih =>
    rw [List.mapM_cons, List.forall₂_cons_left_iff]
    simp only [← ih]
    cases f x with
    | error e => simp [bind, Except.bind]
    | ok y => cases xs.mapM f <;> simp [bind, Except.bind, pure, Except.pure, eq_comm]

namespace Shape

/-- The second shape says no more than the first: it has the same structure, and unknown extents
wherever it does not have the same ones. -/
inductive AtMost : Shape → Shape → Prop where
  | noShape : AtMost .noShape .noShape
  | dims {ds es : List Dim} (each : List.Forall₂ Dim.AtMost ds es) : AtMost (.dims ds) (.dims es)
  | tuple {ss ts : List Shape} (length_eq : ss.length = ts.length)
      (each : ∀ {i : Nat} {s t : Shape}, ss[i]? = some s → ts[i]? = some t → AtMost s t) :
      AtMost (.tuple ss) (.tuple ts)
  | list {s t : Shape} (element : AtMost s t) : AtMost (.list s) (.list t)
  | record {as bs : List (String × Shape)} (names : as.map (·.1) = bs.map (·.1))
      (each : ∀ {i : Nat} {a b : String × Shape}, as[i]? = some a → bs[i]? = some b →
        AtMost a.2 b.2) : AtMost (.record as) (.record bs)

mutual

theorem AtMost.refl : ∀ s : Shape, s.AtMost s
  | .noShape => .noShape
  | .dims ds => .dims (List.forall₂_same.mpr fun _ _ => .inr rfl)
  | .tuple ss => .tuple rfl fun {i s t} hs ht => by
      rw [hs, Option.some.injEq] at ht
      exact ht ▸ atMost_each ss s (List.mem_of_getElem? hs)
  | .list s => .list (AtMost.refl s)
  | .record as => .record rfl fun {i a b} ha hb => by
      rw [ha, Option.some.injEq] at hb
      exact hb ▸ atMost_attributes as a (List.mem_of_getElem? ha)

theorem atMost_each : ∀ (ss : List Shape), ∀ s ∈ ss, s.AtMost s
  | [] => by simp
  | s :: ss => by
      rw [List.forall_mem_cons]
      exact ⟨AtMost.refl s, atMost_each ss⟩

theorem atMost_attributes : ∀ (as : List (String × Shape)), ∀ a ∈ as, a.2.AtMost a.2
  | [] => by simp
  | (_, s) :: as => by
      rw [List.forall_mem_cons]
      exact ⟨AtMost.refl s, atMost_attributes as⟩

end

theorem AtMost.trans {s t u : Shape} (h : s.AtMost t) (h' : t.AtMost u) : s.AtMost u := by
  induction h generalizing u with
  | noShape => exact h'
  | dims each =>
    cases h' with
    | dims each' =>
      refine .dims (List.forall₂_iff_get.mpr ⟨each.length_eq.trans each'.length_eq, ?_⟩)
      intro i hi hk
      have hj := each.length_eq ▸ hi
      exact ((List.forall₂_iff_get.mp each).2 i hi hj).trans
        ((List.forall₂_iff_get.mp each').2 i hj hk)
  | @tuple ss ts length_eq each ih =>
    cases h' with
    | tuple length_eq' each' =>
      refine .tuple (length_eq.trans length_eq') fun {i s u} hs hu => ?_
      have hi := (List.getElem?_eq_some_iff.mp hs).1
      have ht : ts[i]? = some ts[i] := List.getElem?_eq_getElem (by omega)
      exact ih hs ht (each' ht hu)
  | list element ih =>
    cases h' with
    | list element' => exact .list (ih element')
  | @record as bs names each ih =>
    cases h' with
    | record names' each' =>
      refine .record (names.trans names') fun {i a u} ha hu => ?_
      have hi := (List.getElem?_eq_some_iff.mp ha).1
      have hlength := congrArg List.length names
      simp only [List.length_map] at hlength
      have hb : bs[i]? = some bs[i] := List.getElem?_eq_getElem (by omega)
      exact ih ha hb (each' hb hu)

/-! ## The shape that a list has in common -/

theorem atMost_widen {first ds : List Dim} {others : List (List Dim)}
    (member : ds = first ∨ ds ∈ others) (rank : ds.length = first.length) :
    (dims ds).AtMost (dims (widen first others)) := by
  refine .dims (List.forall₂_iff_get.mpr ⟨by simp [widen, rank], fun i hi hj => ?_⟩)
  simp only [List.get_eq_getElem, widen, List.getElem_mapIdx]
  split
  · rename_i hall
    refine .inr ?_
    rcases member with rfl | hmem
    · rfl
    · have := List.all_eq_true.mp hall ds hmem
      rw [decide_eq_true_eq, List.getElem?_eq_some_iff] at this
      exact this.2
  · exact .inl rfl

/-- Every shape of a list says at least what all of them have in common. -/
theorem atMost_common {ss : List Shape} {t : Shape} (h : common ss = .ok t) :
    ∀ s ∈ ss, s.AtMost t := by
  cases ss with
  | nil => simp
  | cons first rest =>
    rw [common] at h
    split at h
    · rename_i hsame
      cases h
      rw [List.forall_mem_cons]
      refine ⟨.refl _, fun s hs => ?_⟩
      have := List.all_eq_true.mp hsame s hs
      rw [decide_eq_true_eq] at this
      exact this ▸ .refl _
    · split at h
      · rename_i ds others hds hothers
        split at h
        · cases h
        · rename_i hrank
          cases h
          have hrank : ∀ es ∈ others, es.length = ds.length := by simpa using hrank
          rw [List.forall_mem_cons]
          refine ⟨?_, fun s hs => ?_⟩
          · cases first <;> cases hds
            exact atMost_widen (.inl rfl) rfl
          · obtain ⟨i, hi, rfl⟩ := List.mem_iff_getElem.mp hs
            have hothers := exists_of_mapM_some hothers
            have hlength := hothers.length_eq
            have hes := (List.forall₂_iff_get.mp hothers).2 i hi (by omega)
            simp only [List.get_eq_getElem] at hes
            have hmem := List.getElem_mem (l := others) (n := i) (by omega)
            generalize rest[i] = s at hes
            cases s <;> cases hes
            exact atMost_widen (.inr hmem) (hrank _ hmem)
      · cases h

end Shape

namespace Constant

open Shape

/-- The constant has a shape of its own, and the given one says no more than that. -/
def Shaped (c : Constant) (s : Shape) : Prop :=
  ∃ own, Shape.ofConstant c = .ok own ∧ own.AtMost s

theorem shaped_of_eq {c : Constant} {s : Shape} (h : Shape.ofConstant c = .ok s) : c.Shaped s :=
  ⟨s, h, .refl s⟩

/-- A scalar, or anything else that has no parts with a shape. -/
def isPlain : Constant → Bool
  | tuple _ | list _ | array _ | record .. => false
  | _ => true

theorem ofConstant_of_isPlain {c : Constant} (h : c.isPlain = true) :
    Shape.ofConstant c = .ok .noShape := by
  cases c <;> first | rfl | cases h

theorem shaped_of_isPlain {c : Constant} (h : c.isPlain = true) : c.Shaped .noShape :=
  shaped_of_eq (ofConstant_of_isPlain h)

theorem Shaped.eq_noShape {c : Constant} {s : Shape} (h : c.Shaped s) (plain : c.isPlain = true) :
    s = .noShape := by
  obtain ⟨own, hown, le⟩ := h
  rw [ofConstant_of_isPlain plain] at hown
  cases hown
  cases le
  rfl

theorem ofConstants_eq_ok {cs : List Constant} {ss : List Shape} :
    ofConstants cs = .ok ss ↔ List.Forall₂ (fun c s => Shape.ofConstant c = .ok s) cs ss := by
  induction cs generalizing ss with
  | nil => cases ss <;> simp [ofConstants]
  | cons c cs ih =>
    rw [ofConstants]
    cases hc : Shape.ofConstant c with
    | error e => cases ss <;> simp [hc, bind, Except.bind]
    | ok s =>
      cases hcs : ofConstants cs with
      | error e => cases ss <;> simp [hc, ← ih, hcs, bind, Except.bind]
      | ok rest => cases ss <;> simp [hc, ← ih, hcs, bind, Except.bind, pure, Except.pure]

/-- The parts of a tuple have the parts of its shape. -/
theorem Shaped.of_tuple {items : List Constant} {s : Shape} (h : (tuple items).Shaped s) :
    ∃ ss, s = .tuple ss ∧ List.Forall₂ Shaped items ss := by
  obtain ⟨own, hown, le⟩ := h
  rw [Shape.ofConstant] at hown
  cases hitems : ofConstants items with
  | error e => simp [hitems, bind, Except.bind] at hown
  | ok owns =>
    simp only [hitems, bind, Except.bind, pure, Except.pure, Except.ok.injEq] at hown
    subst hown
    cases le with
    | @tuple _ ss length_eq each =>
      have hitems := ofConstants_eq_ok.mp hitems
      refine ⟨ss, rfl, List.forall₂_iff_get.mpr ⟨hitems.length_eq.trans length_eq, ?_⟩⟩
      intro i hi hk
      have hj := hitems.length_eq ▸ hi
      exact ⟨_, (List.forall₂_iff_get.mp hitems).2 i hi hj,
        each (List.getElem?_eq_getElem hj) (List.getElem?_eq_getElem hk)⟩

/-- A tuple has the shape of its parts. -/
theorem shaped_tuple {items : List Constant} {ss : List Shape}
    (h : List.Forall₂ Shaped items ss) : (tuple items).Shaped (.tuple ss) := by
  obtain ⟨owns, howns, le⟩ : ∃ owns,
      List.Forall₂ (fun c s => Shape.ofConstant c = .ok s) items owns
        ∧ List.Forall₂ AtMost owns ss := by
    induction h with
    | nil => exact ⟨[], .nil, .nil⟩
    | cons first _ ih =>
      obtain ⟨own, hown, le⟩ := first
      obtain ⟨owns, howns, les⟩ := ih
      exact ⟨own :: owns, .cons hown howns, .cons le les⟩
  refine ⟨.tuple owns, ?_, .tuple le.length_eq fun hs ht => forall₂_getElem? le hs ht⟩
  rw [Shape.ofConstant, ofConstants_eq_ok.mpr howns]
  rfl

/-- The elements of a list have the element shape of the list. -/
theorem Shaped.of_list {items : List Constant} {s : Shape} (h : (list items).Shaped s) :
    ∃ element, s = .list element ∧ ∀ c ∈ items, c.Shaped element := by
  obtain ⟨own, hown, le⟩ := h
  cases items with
  | nil =>
    cases hown
    cases le with
    | list element => exact ⟨_, rfl, by simp⟩
  | cons first rest =>
    rw [Shape.ofConstant] at hown
    cases hfirst : Shape.ofConstant first with
    | error e => simp [hfirst, bind, Except.bind] at hown
    | ok own_first =>
      cases hrest : ofConstants rest with
      | error e => simp [hfirst, hrest, bind, Except.bind] at hown
      | ok owns =>
        cases hcommon : common (own_first :: owns) with
        | error e => simp [hfirst, hrest, hcommon, bind, Except.bind] at hown
        | ok t =>
          simp only [hfirst, hrest, hcommon, bind, Except.bind, pure, Except.pure,
            Except.ok.injEq] at hown
          subst hown
          cases le with
          | @list _ element le =>
            have hall := atMost_common hcommon
            rw [List.forall_mem_cons] at hall
            refine ⟨element, rfl, ?_⟩
            rw [List.forall_mem_cons]
            refine ⟨⟨_, hfirst, hall.1.trans le⟩, fun c hc => ?_⟩
            obtain ⟨i, hi, rfl⟩ := List.mem_iff_getElem.mp hc
            have hrest := ofConstants_eq_ok.mp hrest
            have hj := hrest.length_eq ▸ hi
            exact ⟨_, (List.forall₂_iff_get.mp hrest).2 i hi hj,
              (hall.2 _ (List.getElem_mem _)).trans le⟩

theorem ofFields_eq_ok {fields : List (String × Ty)} {values : List Constant}
    {as : List (String × Shape)} (h : ofFields fields values = .ok as) :
    List.Forall₂ (fun pair a => pair.1.1 = a.1 ∧ Shape.ofConstant pair.2 = .ok a.2)
      (fields.zip values) as := by
  induction fields generalizing values as with
  | nil =>
    rw [ofFields.eq_def] at h
    cases h
    exact .nil
  | cons field fields ih =>
    cases values with
    | nil =>
      rw [ofFields.eq_def] at h
      cases h
      exact .nil
    | cons c cs =>
      rw [ofFields] at h
      cases hc : Shape.ofConstant c with
      | error e => simp [hc, bind, Except.bind] at h
      | ok s =>
        cases hrest : ofFields fields cs with
        | error e => simp [hc, hrest, bind, Except.bind] at h
        | ok rest =>
          simp only [hc, hrest, bind, Except.bind, pure, Except.pure, Except.ok.injEq] at h
          subst h
          exact .cons ⟨rfl, hc⟩ (ih hrest)

/-- The values of a record have the shapes of its attributes. -/
theorem Shaped.of_record {cls : RecordClass} {values : List Constant} {s : Shape}
    (h : (record cls values).Shaped s) :
    ∃ as, s = .record as
      ∧ List.Forall₂ (fun pair a => pair.1.1 = a.1 ∧ pair.2.Shaped a.2) (cls.fields.zip values) as := by
  obtain ⟨own, hown, le⟩ := h
  rw [Shape.ofConstant] at hown
  cases hfields : ofFields cls.fields values with
  | error e => simp [hfields, bind, Except.bind] at hown
  | ok owns =>
    simp only [hfields, bind, Except.bind, pure, Except.pure, Except.ok.injEq] at hown
    subst hown
    cases le with
    | @record _ as names each =>
      have hfields := ofFields_eq_ok hfields
      have hlength := congrArg List.length names
      simp only [List.length_map] at hlength
      refine ⟨as, rfl, List.forall₂_iff_get.mpr ⟨hfields.length_eq.trans hlength, ?_⟩⟩
      intro i hi hk
      have hj := hfields.length_eq ▸ hi
      obtain ⟨hname, hshape⟩ := (List.forall₂_iff_get.mp hfields).2 i hi hj
      refine ⟨hname.trans ?_, ⟨_, hshape, each (List.getElem?_eq_getElem hj)
        (List.getElem?_eq_getElem hk)⟩⟩
      have hpair : (owns.map (·.1))[i]? = (as.map (·.1))[i]? := by rw [names]
      simpa [hj, hk] using hpair

end Constant

end ArrayInference
