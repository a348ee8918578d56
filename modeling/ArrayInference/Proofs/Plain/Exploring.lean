import ArrayInference.Proofs.Plain.Finding

/-!
# What a plain evaluation looks at

The entries that an evaluation looks at, and how far it goes in each. If it finds a result it has gone
to the end of all of them. If it gives up, the entries that it has stopped at need one another.
-/

namespace ArrayInference

namespace Plain

variable {P : Plain} {b : Infer Property} {r : Outcome} {n m : Nat} {stack V V' D D' : List Entry}
  {key : Entry}

theorem Within.mono (h : P.Within V D n b) (subV : V ⊆ V') (subD : D ⊆ D') (le : n ≤ m) :
    P.Within V' D' m b := by
  induction h generalizing m with
  | done n p => exact .done m p
  | fail n e => exact .fail m e
  | ask known _ ih =>
    obtain ⟨k, rfl⟩ := Nat.exists_eq_add_of_le le
    rw [Nat.add_right_comm]
    exact .ask known (ih (by omega))
  | call known _ ih =>
    obtain ⟨k, rfl⟩ := Nat.exists_eq_add_of_le le
    rw [Nat.add_right_comm]
    exact .call known (ih (by omega))
  | uncallable n unknown => exact .uncallable m unknown
  | stop n mem doomed =>
    obtain ⟨k, rfl⟩ := Nat.exists_eq_add_of_le le
    rw [Nat.add_right_comm]
    exact .stop _ (subV mem) (subD doomed)
  | read mem entry _ ih =>
    obtain ⟨k, rfl⟩ := Nat.exists_eq_add_of_le le
    rw [Nat.add_right_comm]
    exact .read (subV mem) entry (ih (by omega))
  | failed n mem entry =>
    obtain ⟨k, rfl⟩ := Nat.exists_eq_add_of_le le
    rw [Nat.add_right_comm]
    exact .failed _ (subV mem) entry

/-- A computation and some entries, with all that they ask for. -/
structure Explored (P : Plain) (stack : List Entry) (b : Infer Property) (V D : List Entry) (n : Nat) :
    Prop where
  within : P.Within (V ++ stack) D n b
  entries : ∀ key ∈ V, P.Within (V ++ stack) D n (body key)

theorem Explored.step {b' : Infer Property} (h : P.Explored stack b V D n)
    (step : ∀ {V D n}, P.Within V D n b → P.Within V D (n + 1) b') :
    P.Explored stack b' V D (n + 1) where
  within := step h.within
  entries := fun key mem =>
    (h.entries key mem).mono (List.Subset.refl _) (List.Subset.refl _) (Nat.le_succ n)

/-- What has been looked at for an entry, together with what was looked at afterwards. -/
theorem Explored.demand (inner : P.Explored (key :: stack) (body key) V D n)
    {next : Property → Infer Property} (sub : D ⊆ D')
    (entries : ∀ k ∈ V', P.Within (V' ++ stack) D' m (body k))
    (within : P.Within (key :: (V ++ V') ++ stack) D' (m + 1) (.demand key next)) :
    P.Explored stack (.demand key next) (key :: (V ++ V')) D' (max n m + 1) where
  within := within.mono (List.Subset.refl _) (List.Subset.refl _) (by omega)
  entries := by
    have hinner : V ++ key :: stack ⊆ key :: (V ++ V') ++ stack := by
      intro k hk
      simp only [List.mem_append, List.mem_cons] at hk ⊢
      grind
    have hlater : V' ++ stack ⊆ key :: (V ++ V') ++ stack := by
      intro k hk
      simp only [List.mem_append, List.mem_cons] at hk ⊢
      grind
    intro k hk
    rcases List.mem_cons.mp hk with rfl | hk
    · exact inner.within.mono hinner sub (by omega)
    · rcases List.mem_append.mp hk with hk | hk
      · exact (inner.entries k hk).mono hinner sub (by omega)
      · exact (entries k hk).mono hlater (List.Subset.refl _) (by omega)

/-- What is known of an evaluation that has ended. -/
def Seen (P : Plain) (stack : List Entry) (b : Infer Property) : Verdict → Prop
  | .found r => P.Finds b r ∧ ∃ V n, P.Explored stack b V [] n
  | .reentered => ∃ V D n, P.Explored stack b V (D ++ stack) n ∧ P.Meets (D ++ stack) b
      ∧ ∀ key ∈ D, P.Meets (D ++ stack) (body key)

/-- One step more before what is known already. -/
theorem Seen.step {b' : Infer Property} {v : Verdict} (h : P.Seen stack b v)
    (finds : ∀ {r}, P.Finds b r → P.Finds b' r) (meets : ∀ {D}, P.Meets D b → P.Meets D b')
    (step : ∀ {V D n}, P.Within V D n b → P.Within V D (n + 1) b') : P.Seen stack b' v := by
  cases v with
  | found r =>
    obtain ⟨found, V, n, explored⟩ := h
    exact ⟨finds found, V, n + 1, explored.step step⟩
  | reentered =>
    obtain ⟨V, D, n, explored, met, loops⟩ := h
    exact ⟨V, D, n + 1, explored.step step, meets met, loops⟩

theorem seen_of_evaluate {v : Verdict} (h : P.evaluate stack b = some v) : P.Seen stack b v := by
  refine evaluate.partial_correctness P (fun stack b v => P.Seen stack b v) ?_ stack b v h
  intro evaluate ih stack b v h
  cases b with
  | done p =>
    cases h
    exact ⟨⟨0, .done 0 p⟩, [], 0, .done 0 p, by simp⟩
  | fail e =>
    cases h
    exact ⟨⟨0, .fail 0 e⟩, [], 0, .fail 0 e, by simp⟩
  | ask query next =>
    cases known : P.answer? query with
    | none =>
      simp only [known] at h
      cases h
    | some a =>
      simp only [known] at h
      exact (ih _ _ _ h).step (.ask known) (.ask known) (.ask known)
  | call callee args next =>
    cases known : P.callable? callee with
    | none =>
      simp only [known] at h
      cases h
      exact ⟨⟨0, .uncallable 0 known⟩, [], 0, .uncallable 0 known, by simp⟩
    | some c =>
      simp only [known] at h
      exact (ih _ _ _ h).step (.call known) (.call known) (.call known)
  | unify track use first second next => cases h
  | forever => cases h
  | demand key next =>
    by_cases hmem : key ∈ stack
    · simp only [if_pos hmem] at h
      cases h
      exact ⟨[], [], 1, ⟨.stop 0 hmem hmem, by simp⟩, .here hmem, by simp⟩
    · simp only [if_neg hmem] at h
      obtain ⟨v₁, hinner, h⟩ := Option.bind_eq_some_iff.mp h
      have hkey : ∀ {V : List Entry}, key ∈ key :: V ++ stack := fun {V} => by simp
      cases v₁ with
      | reentered =>
        cases h
        obtain ⟨V, D, n, explored, met, loops⟩ := ih _ _ _ hinner
        have hsub : D ++ key :: stack ⊆ key :: D ++ stack := by
          intro k hk
          simp only [List.mem_append, List.mem_cons] at hk ⊢
          grind
        have none : ∀ k ∈ ([] : List Entry), P.Within ([] ++ stack) (key :: D ++ stack) 0 (body k) :=
          (by simp)
        refine ⟨_, key :: D, _, explored.demand hsub none (.stop 0 hkey hkey), .here hkey, ?_⟩
        intro k hk
        rcases List.mem_cons.mp hk with rfl | hk
        · exact met.mono hsub
        · exact (loops k hk).mono hsub
      | found r =>
        obtain ⟨found, V, n, explored⟩ := ih _ _ _ hinner
        cases hr : Run.attributed key.ref.node r with
        | error e =>
          simp only [hr] at h
          cases h
          have entry : P.FindsEntry key (.error e) := ⟨r, found, hr⟩
          have none : ∀ k ∈ ([] : List Entry), P.Within ([] ++ stack) [] 0 (body k) := (by simp)
          exact ⟨.failed entry, _, _, explored.demand (List.Subset.refl _) none
            (.failed 0 hkey entry)⟩
        | ok p =>
          simp only [hr] at h
          have entry : P.FindsEntry key (.ok p) := ⟨r, found, hr⟩
          have hsub : ∀ V' : List Entry, V' ++ stack ⊆ key :: (V ++ V') ++ stack := by
            intro V' k hk
            simp only [List.mem_append, List.mem_cons] at hk ⊢
            grind
          cases v with
          | found r' =>
            obtain ⟨found', V', m, explored'⟩ := ih _ _ _ h
            exact ⟨.read entry found', _, _, explored.demand (List.Subset.refl _) explored'.entries
              (.read hkey entry (explored'.within.mono (hsub V') (List.Subset.refl _)
                (Nat.le_refl m)))⟩
          | reentered =>
            obtain ⟨V', D, m, explored', met, loops⟩ := ih _ _ _ h
            exact ⟨_, D, _, explored.demand (List.nil_subset _) explored'.entries
              (.read hkey entry (explored'.within.mono (hsub V') (List.Subset.refl _)
                (Nat.le_refl m))), .read entry met, loops⟩

/-! ## From a loop to an evaluation -/

/-- The evaluation of what comes to entries that need one another gives up. -/
theorem evaluate_of_meets (loops : ∀ key ∈ D, P.Meets D (body key)) (met : P.Meets D b)
    (sub : stack ⊆ D) : P.evaluate stack b = some .reentered := by
  induction hcount : (D.filter fun key => key ∉ stack).length using Nat.strongRecOn
    generalizing b stack with
  | ind count ih =>
    have unfound : ∀ key ∈ D, ∀ r, ¬ P.Finds (body key) r := by
      rintro key hmem r ⟨n, h⟩
      exact not_meets_of_finds loops h (loops key hmem)
    induction met with
    | @here key next mem =>
      rw [evaluate]
      by_cases hmem : key ∈ stack
      · rw [if_pos hmem]
      · rw [if_neg hmem]
        have hsplit : D.filter (fun k => k ∉ key :: stack)
            = (D.filter fun k => k ∉ stack).filter fun k => k ≠ key := by
          rw [List.filter_filter]
          refine List.filter_congr fun k _ => ?_
          simp
        have hless : (D.filter fun k => k ∉ key :: stack).length < count := by
          rw [hsplit, ← hcount, List.length_filter_lt_length_iff_exists]
          exact ⟨key, List.mem_filter.mpr ⟨mem, by simpa using hmem⟩, by simp⟩
        have hinner : P.evaluate (key :: stack) (body key) = some .reentered :=
          ih _ hless (loops key mem) (List.cons_subset.mpr ⟨mem, sub⟩) rfl
        rw [hinner]
        rfl
    | ask known _ ihm =>
      rw [evaluate_ask known]
      exact ihm
    | call known _ ihm =>
      rw [evaluate_call known]
      exact ihm
    | @read key next p entry _ ihm =>
      obtain ⟨r, found, ok⟩ := entry
      have hmem : key ∉ stack := fun hmem => unfound key (sub hmem) r found
      obtain ⟨n, least, hmin⟩ := exists_least (P := P) (b := body key)
        (found.imp fun n h => ⟨r, h⟩)
      have hinner : P.evaluate (key :: stack) (body key) = some (.found r) := by
        refine evaluate_of_findsIn (least r found) ?_
        intro k hk m hm r' hr'
        rcases List.mem_cons.mp hk with rfl | hk
        · exact hmin m hm r' hr'
        · exact unfound k (sub hk) r' ⟨m, hr'⟩
      rw [evaluate, if_neg hmem, hinner]
      simp only [Option.bind_eq_bind, Option.bind_some, ok]
      exact ihm

end Plain

end ArrayInference
