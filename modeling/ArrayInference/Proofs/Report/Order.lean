import ArrayInference.Engine.Inspection
import ArrayInference.Proofs.Engine.History
import ArrayInference.Proofs.Run.Bounded
import ArrayInference.Proofs.Run.Root

/-!
# The order of a report

A report is sorted by node, track and text of the context, and the sort is stable. Entries that agree
in all three are tied: they stand in the order in which they were given. Two lists of entries give the
same report when every class of tied entries reads the same in both, and so a report does not depend on
the order of the memo exactly when tied entries are equal. They need not be: the text of a context
shows only the types of the arguments, while the memo keeps one entry for each context.
-/

namespace ArrayInference

namespace ReportEntry

variable {a b c : ReportEntry}

/-- Neither of two entries has to stand before the other one. -/
def Tied (a b : ReportEntry) : Prop :=
  a.node = b.node ∧ a.track = b.track ∧ a.context = b.context

instance : DecidableRel Tied :=
  fun a b => inferInstanceAs (Decidable (a.node = b.node ∧ a.track = b.track ∧ a.context = b.context))

theorem Tied.rfl : a.Tied a :=
  ⟨.refl _, .refl _, .refl _⟩

theorem Tied.symm (h : a.Tied b) : b.Tied a :=
  ⟨h.1.symm, h.2.1.symm, h.2.2.symm⟩

theorem Tied.trans (h : a.Tied b) (h' : b.Tied c) : a.Tied c :=
  ⟨h.1.trans h'.1, h.2.1.trans h'.2.1, h.2.2.trans h'.2.2⟩

theorem precedes_iff : a.precedes b = true ↔
    a.node.index < b.node.index ∨ a.node.index = b.node.index ∧
      (a.track.rank < b.track.rank ∨ a.track.rank = b.track.rank ∧ a.context ≤ b.context) := by
  rw [precedes]
  split_ifs with hnode htrack
  · simp [hnode]
  · simp [not_not.mp hnode, htrack]
  · simp [not_not.mp hnode, not_not.mp htrack]

theorem precedes_trans (a b c : ReportEntry) (hab : a.precedes b = true) (hbc : b.precedes c = true) :
    a.precedes c = true := by
  rw [precedes_iff] at *
  have htrans : a.context ≤ b.context → b.context ≤ c.context → a.context ≤ c.context :=
    String.le_trans
  grind

theorem precedes_total (a b : ReportEntry) : (a.precedes b || b.precedes a) = true := by
  rw [Bool.or_eq_true, precedes_iff, precedes_iff]
  have htotal := String.le_total a.context b.context
  grind

/-- Ties are what the order of a report leaves open. -/
theorem tied_iff : a.Tied b ↔ a.precedes b = true ∧ b.precedes a = true := by
  rw [precedes_iff, precedes_iff]
  constructor
  · rintro ⟨hnode, htrack, hcontext⟩
    simp [hnode, htrack, hcontext]
  · rintro ⟨hab, hba⟩
    have hnode : a.node.index = b.node.index := by grind
    have htrack : a.track.rank = b.track.rank := by grind
    have hcontext : a.context = b.context := String.le_antisymm (by grind) (by grind)
    refine ⟨?_, ?_, hcontext⟩
    · exact congrArg NodeId.mk hnode
    · revert htrack
      cases a.track <;> cases b.track <;> simp [Track.rank]

theorem json_injective : Function.Injective json := by
  rintro ⟨⟨n⟩, l, c, t, r, e⟩ ⟨⟨n'⟩, l', c', t', r', e'⟩ h
  cases t <;> cases t' <;> cases r <;> cases r' <;> cases e <;> cases e' <;>
    simp_all [json, Track.name]

end ReportEntry

/-- Two different elements can be brought to the front of a list. -/
theorem exists_perm_cons_cons {α : Type} {a b : α} {l : List α} (ha : a ∈ l) (hb : b ∈ l)
    (different : a ≠ b) : ∃ rest, l.Perm (a :: b :: rest) := by
  obtain ⟨before, after, rfl⟩ := List.append_of_mem ha
  have hb' : b ∈ before ++ after := by
    simpa [Ne.symm different] using hb
  obtain ⟨before', after', hrest⟩ := List.append_of_mem hb'
  refine ⟨before' ++ after', List.perm_middle.trans (.cons a ?_)⟩
  rw [hrest]
  exact List.perm_middle

namespace Report

variable {es fs : List ReportEntry} {a b : ReportEntry}

/-- Node, track and text of the context tell different entries apart. -/
def Separated (es : List ReportEntry) : Prop :=
  ∀ a ∈ es, ∀ b ∈ es, a.Tied b → a = b

theorem Separated.perm (h : Separated es) (perm : fs.Perm es) : Separated fs :=
  fun a ha b hb => h a (perm.subset ha) b (perm.subset hb)

theorem ofEntries_perm (es : List ReportEntry) : (ofEntries es).entries.Perm es :=
  List.mergeSort_perm _ _

theorem ofEntries_sorted (es : List ReportEntry) :
    (ofEntries es).entries.Pairwise fun a b => a.precedes b = true :=
  List.pairwise_mergeSort ReportEntry.precedes_trans ReportEntry.precedes_total es

/-- Tied entries keep their order. -/
theorem filter_ofEntries (es : List ReportEntry) (a : ReportEntry) :
    (ofEntries es).entries.filter (a.Tied ·) = es.filter (a.Tied ·) := by
  have alike : (es.filter (a.Tied ·)).Pairwise fun b c => b.precedes c = true := by
    refine List.pairwise_filter.mpr (List.pairwise_of_forall fun b c hb hc => ?_)
    exact (ReportEntry.tied_iff.mp
      ((of_decide_eq_true hb).symm.trans (of_decide_eq_true hc))).1
  have within : (es.filter (a.Tied ·)).Sublist (ofEntries es).entries :=
    List.sublist_mergeSort ReportEntry.precedes_trans ReportEntry.precedes_total alike
      List.filter_sublist
  have kept := within.filter (a.Tied ·)
  rw [List.filter_filter, funext fun b => Bool.and_self _] at kept
  exact (kept.eq_of_length ((ofEntries_perm es).filter _).length_eq.symm).symm

/-- Sorted lists with the same classes of tied entries are equal. -/
theorem eq_of_filter_tied (hes : es.Pairwise fun a b => a.precedes b = true)
    (hfs : fs.Pairwise fun a b => a.precedes b = true)
    (h : ∀ a : ReportEntry, es.filter (a.Tied ·) = fs.filter (a.Tied ·)) : es = fs := by
  induction es generalizing fs with
  | nil =>
    cases fs with
    | nil => rfl
    | cons b fs => simpa [ReportEntry.Tied.rfl] using h b
  | cons a es ih =>
    cases fs with
    | nil => simpa [ReportEntry.Tied.rfl] using h a
    | cons b fs =>
      have hba : b ∈ a :: es := by
        have : b ∈ (a :: es).filter (b.Tied ·) := by simp [h b, ReportEntry.Tied.rfl]
        exact List.mem_of_mem_filter this
      have hab : a ∈ b :: fs := by
        have : a ∈ (b :: fs).filter (a.Tied ·) := by simp [← h a, ReportEntry.Tied.rfl]
        exact List.mem_of_mem_filter this
      have tied : a.Tied b := by
        rcases List.mem_cons.mp hba with rfl | hba
        · exact .rfl
        · rcases List.mem_cons.mp hab with rfl | hab
          · exact .rfl
          · exact ReportEntry.tied_iff.mpr
              ⟨(List.pairwise_cons.mp hes).1 _ hba, (List.pairwise_cons.mp hfs).1 _ hab⟩
      obtain rfl : a = b := by
        have := h a
        simp only [List.filter_cons, ReportEntry.Tied.rfl, tied, decide_true, ↓reduceIte] at this
        exact (List.cons.inj this).1
      refine congrArg _ (ih (List.pairwise_cons.mp hes).2 (List.pairwise_cons.mp hfs).2 fun c => ?_)
      have := h c
      by_cases hc : c.Tied a <;> simpa [List.filter_cons, hc] using this

/-- Two lists of entries give the same report exactly when they read the same on every class of tied
entries. -/
theorem ofEntries_eq_iff :
    ofEntries es = ofEntries fs ↔ ∀ a : ReportEntry, es.filter (a.Tied ·) = fs.filter (a.Tied ·) := by
  constructor
  · intro h a
    rw [← filter_ofEntries es a, ← filter_ofEntries fs a, h]
  · intro h
    have : (ofEntries es).entries = (ofEntries fs).entries :=
      eq_of_filter_tied (ofEntries_sorted es) (ofEntries_sorted fs) fun a => by
        rw [filter_ofEntries, filter_ofEntries, h a]
    rw [ofEntries, ofEntries, mk.injEq]
    exact this

theorem Separated.ofEntries_eq (separated : Separated es) (perm : fs.Perm es) :
    ofEntries fs = ofEntries es := by
  have : (ofEntries fs).entries = (ofEntries es).entries := by
    refine List.Perm.eq_of_pairwise ?_ (ofEntries_sorted fs) (ofEntries_sorted es)
      (((ofEntries_perm fs).trans perm).trans (ofEntries_perm es).symm)
    intro a b ha hb hab hba
    exact separated a (perm.subset ((ofEntries_perm fs).subset ha)) b
      ((ofEntries_perm es).subset hb) (ReportEntry.tied_iff.mpr ⟨hab, hba⟩)
  rw [ofEntries, ofEntries, mk.injEq]
  exact this

/-- Two tied entries at the front can be told by the report. -/
theorem eq_of_ofEntries_swap (tied : a.Tied b)
    (h : ofEntries (a :: b :: es) = ofEntries (b :: a :: es)) : a = b := by
  have := ofEntries_eq_iff.mp h a
  simp only [List.filter_cons, ReportEntry.Tied.rfl, tied, decide_true, ↓reduceIte] at this
  exact (List.cons.inj this).1

/-- The order of the entries does not matter exactly when different entries are told apart. -/
theorem forall_perm_ofEntries_eq_iff :
    (∀ fs : List ReportEntry, fs.Perm es → ofEntries fs = ofEntries es) ↔ Separated es := by
  refine ⟨fun h a ha b hb tied => ?_, fun separated fs perm => separated.ofEntries_eq perm⟩
  by_contra different
  obtain ⟨rest, front⟩ := exists_perm_cons_cons ha hb different
  have swapped : es.Perm (b :: a :: rest) := front.trans (.swap b a rest)
  exact different (eq_of_ofEntries_swap tied ((h _ front.symm).trans (h _ swapped.symm).symm))

theorem json_injective : Function.Injective json := by
  rintro ⟨es⟩ ⟨fs⟩ h
  simp only [json, Text.Json.object.injEq, List.cons.injEq, Prod.mk.injEq,
    Text.Json.array.injEq, true_and, and_true] at h
  exact congrArg Report.mk (List.map_injective_iff.mpr ReportEntry.json_injective h.2)

end Report

namespace Context

/-- Contexts that differ at most in the values and shapes of arguments. -/
inductive Alike : Context → Context → Prop where
  | empty : Alike .empty .empty
  | frame {parent parent' : Context} {graph : GraphId} {args args' : List ArgProps}
      (outside : Alike parent parent') (types : args.map ArgProps.type = args'.map ArgProps.type) :
      Alike (.frame parent graph args) (.frame parent' graph args')

theorem Alike.isEmpty_eq {c d : Context} (h : c.Alike d) : c.isEmpty = d.isEmpty := by
  cases h with
  | empty => rfl
  | frame outside types => rfl

/-- The text of a context says nothing about the values and the shapes of arguments. -/
theorem Alike.text_eq {c d : Context} (h : c.Alike d) : c.text = d.text := by
  induction h with
  | empty => rfl
  | @frame parent parent' graph args args' outside types ih =>
    have htypes : args.map (fun a => a.type.text) = args'.map fun a => a.type.text := by
      have := congrArg (List.map Property.text) types
      rwa [List.map_map, List.map_map] at this
    rw [text, text, ih, outside.isEmpty_eq, htypes]

end Context

namespace Engine

variable {e : Engine}

/-- The entry that a report has for an entry of the memo. -/
def reportEntry? (e : Engine) (found : Entry × Promise TaskId) : Option ReportEntry :=
  found.2.result.map fun outcome =>
    .ofOutcome found.1.ref.node (e.program.label found.1.ref.node) found.1.ref.ctx.text found.1.track
      outcome

/-- The report of an engine whose memo is gone through in the given order. -/
def reportIn (e : Engine) (order : Memo) : Report :=
  .ofEntries (order.filterMap e.reportEntry?)

theorem report_eq (e : Engine) :
    e.report = .ofEntries ((e.memo.filterMap e.reportEntry?).mergeSort ReportEntry.settles) :=
  rfl

/-- Whatever the order of the memo, the entries of the report are the same but for their places. -/
theorem reportIn_perm {order : Memo} (perm : order.Perm e.memo) :
    (e.reportIn order).entries.Perm e.report.entries := by
  rw [report_eq, reportIn]
  exact (Report.ofEntries_perm _).trans ((perm.filterMap _).trans
    ((List.mergeSort_perm _ _).symm.trans (Report.ofEntries_perm _).symm))

theorem reportIn_errors {order : Memo} (perm : order.Perm e.memo) :
    (e.reportIn order).errors.length = e.report.errors.length :=
  ((reportIn_perm perm).filter _).length_eq

/-- Entries that are told apart have the report of the engine, whatever the order of the memo. -/
theorem reportIn_eq_report (separated : Report.Separated (e.memo.filterMap e.reportEntry?)) {order : Memo}
    (perm : order.Perm e.memo) : e.reportIn order = e.report := by
  have sorted : ((e.memo.filterMap e.reportEntry?).mergeSort ReportEntry.settles).Perm
      (e.memo.filterMap e.reportEntry?) := List.mergeSort_perm _ _
  rw [report_eq, reportIn]
  exact (separated.perm sorted).ofEntries_eq ((perm.filterMap _).trans sorted.symm)

/-- The order of the memo does not matter exactly when different entries of the report are told
apart. -/
theorem forall_perm_reportIn_eq_iff :
    (∀ order order' : Memo, order.Perm e.memo → order'.Perm e.memo →
        e.reportIn order = e.reportIn order')
      ↔ Report.Separated (e.memo.filterMap e.reportEntry?) := by
  constructor
  · intro h a ha b hb tied
    by_contra different
    obtain ⟨found, hfound, hreport⟩ := List.mem_filterMap.mp ha
    obtain ⟨found', hfound', hreport'⟩ := List.mem_filterMap.mp hb
    have apart : found ≠ found' := by
      rintro rfl
      exact different (Option.some.inj (hreport.symm.trans hreport'))
    obtain ⟨rest, front⟩ := exists_perm_cons_cons hfound hfound' apart
    have swapped : e.memo.Perm (found' :: found :: rest) := front.trans (.swap found' found rest)
    have same := h _ _ front.symm swapped.symm
    simp only [reportIn, List.filterMap_cons, hreport, hreport'] at same
    exact different (Report.eq_of_ofEntries_swap tied same)
  · intro separated order order' perm perm'
    rw [reportIn_eq_report separated perm, reportIn_eq_report separated perm']

/-- What is found for one node and track in contexts alike is tied. -/
theorem tied_of_alike {found found' : Entry × Promise TaskId} {a b : ReportEntry}
    (ha : e.reportEntry? found = some a) (hb : e.reportEntry? found' = some b)
    (node : found.1.ref.node = found'.1.ref.node) (track : found.1.track = found'.1.track)
    (alike : found.1.ref.ctx.Alike found'.1.ref.ctx) : a.Tied b := by
  obtain ⟨r, -, rfl⟩ := Option.map_eq_some_iff.mp ha
  obtain ⟨r', -, rfl⟩ := Option.map_eq_some_iff.mp hb
  cases r <;> cases r' <;> exact ⟨node, track, alike.text_eq⟩

/-- The report of a list of entries, and that of an engine as JSON, are the same in any order of the
entries and of the memo exactly when different entries are told apart by node, track and text of the
context. In any order the report of an engine has the same entries and as many failures; but what is
found for one node and track in contexts alike is not told apart. -/
theorem report_in_any_order (e : Engine) (es : List ReportEntry) :
    ((∀ fs : List ReportEntry, fs.Perm es → Report.ofEntries fs = Report.ofEntries es)
        ↔ Report.Separated es)
    ∧ (∀ order : Memo, order.Perm e.memo →
        (e.reportIn order).entries.Perm e.report.entries
          ∧ (e.reportIn order).errors.length = e.report.errors.length)
    ∧ ((∀ order order' : Memo, order.Perm e.memo → order'.Perm e.memo →
          (e.reportIn order).json = (e.reportIn order').json)
        ↔ Report.Separated (e.memo.filterMap e.reportEntry?))
    ∧ (Report.Separated (e.memo.filterMap e.reportEntry?) →
        ∀ order : Memo, order.Perm e.memo → e.reportIn order = e.report)
    ∧ ∀ (found found' : Entry × Promise TaskId) (a b : ReportEntry),
        e.reportEntry? found = some a → e.reportEntry? found' = some b →
        found.1.ref.node = found'.1.ref.node → found.1.track = found'.1.track →
        found.1.ref.ctx.Alike found'.1.ref.ctx → a.Tied b := by
  refine ⟨Report.forall_perm_ofEntries_eq_iff, fun order perm => ?_, ?_, fun separated order perm => ?_,
    fun found found' a b ha hb => tied_of_alike ha hb⟩
  · exact ⟨reportIn_perm perm, reportIn_errors perm⟩
  · simp only [Report.json_injective.eq_iff]
    exact forall_perm_reportIn_eq_iff
  · exact reportIn_eq_report separated perm

/-- A pair of two calls of the identity, on different numbers. -/
def pairOfCalls : Program where
  graphs := #[⟨"same", none, [⟨0⟩], some ⟨0⟩⟩, ⟨"pair", none, [], some ⟨7⟩⟩]
  nodes :=
    #[⟨.parameter ⟨0⟩ 0, some ⟨0⟩, some "x"⟩, ⟨.constant (.graph ⟨0⟩), none, none⟩,
      ⟨.constant (.int 1), none, none⟩, ⟨.constant (.int 2), none, none⟩,
      ⟨.apply [⟨1⟩, ⟨2⟩], some ⟨1⟩, none⟩, ⟨.apply [⟨1⟩, ⟨3⟩], some ⟨1⟩, none⟩,
      ⟨.constant (.primitive ⟨"make_tuple"⟩), none, none⟩,
      ⟨.apply [⟨6⟩, ⟨4⟩, ⟨5⟩], some ⟨1⟩, none⟩]

/-- Once `pairOfCalls` is inferred, the values of the parameter in the two calls are tied, and two orders
of the memo give two reports. -/
theorem report_in_any_order_pair : ∃ (e : Engine) (order order' : Memo), e.Arises
    ∧ order.Perm e.memo ∧ order'.Perm e.memo
    ∧ (e.reportIn order).json ≠ (e.reportIn order').json := by
  have hrun : (Run.driveWithin 10 60
      (Run.asking (.new pairOfCalls (.empty ⟨0⟩) .standard) ⟨1⟩ [] .value)).map
        (fun t => let es := t.close.memo.filterMap t.close.reportEntry?
          decide (∃ a ∈ es, ∃ b ∈ es, a.Tied b ∧ a ≠ b))
        = some true := by
    decide +kernel
  obtain ⟨log, t, polls, finished, hseen⟩ := Run.exists_polls_of_driveWithin rfl hrun
  obtain ⟨a, ha, b, hb, tied, different⟩ := of_decide_eq_true hseen
  have arises : t.close.Arises := .ran (.answered (.new _ _ _) (.graphInferrer _ _ _)) _ polls finished
  by_contra none
  have same (order order' : Memo) (perm : order.Perm t.close.memo) (perm' : order'.Perm t.close.memo) :
      (t.close.reportIn order).json = (t.close.reportIn order').json := by
    by_contra moved
    exact none ⟨_, order, order', arises, perm, perm', moved⟩
  exact different ((report_in_any_order t.close []).2.2.1.mp same a ha b hb tied)

end Engine

end ArrayInference
