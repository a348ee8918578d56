import ArrayInference.Proofs.Infer.StaysRules
import ArrayInference.Proofs.Tracks.Answering
import ArrayInference.Proofs.Tracks.Calling

/-!
# Computations that ask what they may

A tame computation asks about good contexts and sure references only, whatever it is answered with
and however much more has become known when it is answered. Main statements: a sound inferrer that is
called on sure references is tame, and so is the computation of a node in a good context.
-/

namespace ArrayInference

namespace Ledger

variable {α β : Type} {v w : Ledger} {track : Track}

theorem Permits.mono {query : Query} (h : v.Permits query) (le : v.Le w) : w.Permits query := by
  cases query with
  | intern make => exact h
  | constant value ctx track => exact Good.mono h le
  | graphInferrer track graph ctx => exact Good.mono h le
  | locate node ctx => exact Good.mono h le
  | bind inner bound => exact fun x hx => (h x hx).mono le
  | _ => trivial

/-- A computation that asks what it may. -/
inductive Tame {α : Type} : Ledger → Infer α → Prop where
  | done (w : Ledger) (a : α) : Tame w (.done a)
  | fail (w : Ledger) (e : InferError) : Tame w (.fail e)
  | forever (w : Ledger) : Tame w .forever
  | ask {w : Ledger} {query : Query} {next : query.Answer → Infer α} (permitted : w.Permits query)
      (later : ∀ v a, w.Le v → v.Lawful → v.Answers query a → Tame v (next a)) :
      Tame w (.ask query next)
  | demand {w : Ledger} {key : Entry} {next : Property → Infer α} (good : w.Good key.ref.ctx)
      (later : ∀ v p, w.Le v → v.Lawful → v.found key p → Tame v (next p)) :
      Tame w (.demand key next)
  | call {w : Ledger} {callee : Inferrer} {args : List Ref} {next : Property → Infer α}
      (sure : ∀ x ∈ args, w.Sure x) (later : ∀ v p, w.Le v → v.Lawful → Tame v (next p)) :
      Tame w (.call callee args next)
  | unify {w : Ledger} {track : Track} {use : BranchUse} {first second : Ref}
      {next : Property → Infer α} (sure : w.Sure first) (sure' : w.Sure second)
      (later : ∀ v p, w.Le v → v.Lawful → Tame v (next p)) :
      Tame w (.unify track use first second next)

theorem Tame.mono {b : Infer α} (h : v.Tame b) (le : v.Le w) : w.Tame b := by
  cases h with
  | done => exact .done w _
  | fail => exact .fail w _
  | forever => exact .forever w
  | ask permitted later => exact .ask (permitted.mono le) fun u a le' => later u a (le.trans le')
  | demand good later => exact .demand (good.mono le) fun u p le' => later u p (le.trans le')
  | call sure later =>
    exact .call (fun x hx => (sure x hx).mono le) fun u p le' => later u p (le.trans le')
  | unify sure sure' later =>
    exact .unify (sure.mono le) (sure'.mono le) fun u p le' => later u p (le.trans le')

/-- Calls of which nothing is known. -/
abbrev anyCalls : Calls :=
  fun _ _ _ => True

/-- One computation after the other. The second one may rely on what the first one can find. -/
theorem Tame.bind {b : Infer α} {f : α → Infer β} (h : w.Tame b) (lawful : w.Lawful)
    (h' : ∀ v a, w.Le v → v.Lawful → v.Yields anyCalls b a → v.Tame (f a)) : w.Tame (b.bind f) := by
  induction h with
  | done w a => exact h' w a (.refl w) lawful rfl
  | fail w e => exact .fail w e
  | forever w => exact .forever w
  | ask permitted later ih =>
    refine .ask permitted fun v a le lawful answers => ih v a le lawful answers lawful ?_
    exact fun u r le' lawful h => h' u r (le.trans le') lawful ⟨a, answers.mono le', h⟩
  | demand good later ih =>
    refine .demand good fun v p le lawful found => ih v p le lawful found lawful ?_
    exact fun u r le' lawful h => h' u r (le.trans le') lawful ⟨p, le'.found found, h⟩
  | call sure later ih =>
    refine .call sure fun v p le lawful => ih v p le lawful lawful ?_
    exact fun u r le' lawful h => h' u r (le.trans le') lawful ⟨p, trivial, h⟩
  | unify sure sure' later ih =>
    refine .unify sure sure' fun v p le lawful => ih v p le lawful lawful ?_
    exact fun u r le' lawful h => h' u r (le.trans le') lawful ⟨p, h⟩

theorem Tame.seq {b : Infer α} {f : α → Infer β} (h : w.Tame b) (lawful : w.Lawful)
    (h' : ∀ v a, w.Le v → v.Lawful → v.Yields anyCalls b a → v.Tame (f a)) : w.Tame (b >>= f) :=
  h.bind lawful h'

theorem tame_ofExcept (w : Ledger) (r : Except InferError α) : w.Tame (Infer.ofExcept r) := by
  cases r with
  | ok a => exact .done w a
  | error e => exact .fail w e

theorem tame_callInferrer {f : Inferrer} {args : List Ref} (sure : ∀ x ∈ args, w.Sure x) :
    w.Tame (Infer.callInferrer f args) :=
  .call sure fun v p _ _ => .done v p

theorem permits_of_stays {P : Ref → Prop} {query : Query} (own : query.Stays P)
    (sure : ∀ x, P x → w.Sure x) : w.Permits query := by
  cases query with
  | intern make => exact own
  | constant value ctx track =>
    cases own
    trivial
  | graphInferrer track graph ctx =>
    cases own
    trivial
  | bind inner bound => exact fun x hx => sure_base.mp (sure _ (own x hx))
  | locate node ctx => exact own.elim
  | _ => trivial

/-- What asks about nothing but sure references is tame. -/
theorem tame_of_stays {P : Ref → Prop} {b : Infer α} (h : b.Stays P) (sure : ∀ x, P x → w.Sure x) :
    w.Tame b := by
  induction h generalizing w with
  | done a => exact .done w a
  | fail e => exact .fail w e
  | forever => exact .forever w
  | ask own _ ih =>
    exact .ask (permits_of_stays own sure) fun v a le _ _ => ih a fun x hx => (sure x hx).mono le
  | @demand key _ own _ ih =>
    exact .demand (sure (.node key.ref) own) fun v p le _ _ => ih p fun x hx => (sure x hx).mono le
  | call own _ ih =>
    exact .call (fun x hx => sure_base.mp (sure _ (own x hx)))
      fun v p le _ => ih p fun x hx => (sure x hx).mono le
  | unify own own' _ ih =>
    exact .unify (sure_base.mp (sure _ own)) (sure_base.mp (sure _ own'))
      fun v p le _ => ih p fun x hx => (sure x hx).mono le

theorem tame_get {x : Ref} (sure : w.Sure x) : w.Tame (Infer.get x track) :=
  tame_of_stays (Infer.stays_get track (sure_base.mpr sure)) fun _ => id

theorem tame_mapM {γ : Type} {f : γ → Infer α} (P : Ledger → γ → Prop)
    (up : ∀ {v w : Ledger} {x : γ}, P v x → v.Le w → P w x)
    (each : ∀ {w : Ledger} {x : γ}, w.Lawful → P w x → w.Tame (f x)) {xs : List γ} (lawful : w.Lawful)
    (h : ∀ x ∈ xs, P w x) : w.Tame (xs.mapM f) := by
  induction xs generalizing w with
  | nil => exact .done w []
  | cons x xs ih =>
    rw [List.forall_mem_cons] at h
    rw [List.mapM_cons]
    refine (each lawful h.1).seq lawful fun v a le lawful _ => ?_
    exact (ih lawful fun y hy => up (h.2 y hy) le).seq lawful fun u as _ _ _ => .done u _

/-- The frame of a call is good. -/
theorem Lawful.good_extend (lawful : w.Lawful) {args : List Ref} (sure : ∀ x ∈ args, w.Sure x)
    {props : List ArgProps}
    (found : List.Forall₂ (fun x a => w.Yields anyCalls (Infer.argProps x) a) args props)
    {ctx : Context} (good : w.Good ctx) {id : GraphId}
    (there : id.index < w.engine.program.graphs.size) : w.Good (ctx.extend id props) := by
  refine ⟨there, good, ?_⟩
  clear there
  induction found with
  | nil => simp
  | cons first _ ih =>
    rw [List.forall_mem_cons] at sure ⊢
    refine ⟨?_, ih sure.2⟩
    simp only [Infer.argProps, yields_seq, yields_done] at first
    obtain ⟨v, hv, t, ht, s, hs, rfl⟩ := first
    exact ⟨lawful.agree_get sure.1 (by simp) hv ht, lawful.agree_get sure.1 (by simp) hv hs⟩

/-- A graph with an output is there. -/
theorem lt_size_of_output {p : Program} {id : GraphId} {output : NodeId}
    (found : (p.graph id).output = some output) : id.index < p.graphs.size := by
  rw [Program.graph] at found
  cases known : p.graphs[id.index]? with
  | none =>
    rw [known] at found
    cases found
  | some g => exact (Array.getElem?_eq_some_iff.mp known).1

theorem Lawful.tame_callGraph (lawful : w.Lawful) {id : GraphId} {ctx : Context} (good : w.Good ctx)
    {args : List Ref} (sure : ∀ x ∈ args, w.Sure x) :
    w.Tame (Callable.callGraph track id ctx args) := by
  refine Tame.seq (.ask trivial fun v g _ _ _ => .done v g) lawful fun v g le lawful hg => ?_
  split
  · exact .fail v _
  have props : v.Tame (args.mapM Infer.argProps) :=
    tame_of_stays (Infer.stays_mapM fun x hx =>
      Infer.stays_argProps (sure_base.mpr ((sure x hx).mono le))) fun _ h => h
  refine props.seq lawful fun v' props le' lawful hprops => ?_
  refine Tame.seq (.ask trivial fun u r _ _ _ => tame_ofExcept u r) lawful
    fun u _ le'' lawful _ => ?_
  split
  · exact .fail u _
  · rename_i output houtput
    have up := le.trans (le'.trans le'')
    have there : id.index < u.engine.program.graphs.size := by
      rcases (yields_ask.mp hg).mono (le'.trans le'') with rfl | blank
      · exact lt_size_of_output houtput
      · rw [blank] at houtput
        cases houtput
    have found := (yields_mapM.mp hprops).imp fun x a h => Yields.mono h le'' fun _ _ _ h => h
    have inner := lawful.good_extend (fun x hx => (sure x hx).mono up) found (good.mono up) there
    refine Tame.seq (.ask inner fun v r _ _ _ => .done v r) lawful fun v r le lawful hr => ?_
    obtain ⟨-, rfl⟩ := yields_ask.mp hr
    exact .demand ((inner.mono le).locate v.engine output) fun u p _ _ _ => .done u p

theorem tame_callGenerator {m : MetaGraph} {args : List Ref} (sure : ∀ x ∈ args, w.Sure x) :
    w.Tame (Callable.callGenerator track m args) :=
  tame_of_stays (Callable.stays_callGenerator track m fun x hx => sure_base.mpr (sure x hx))
    fun _ => id

/-- A sound inferrer that is called on sure references is tame. -/
theorem Lawful.tame_body (lawful : w.Lawful) {c : Callable} (sound : w.Sound c) {args : List Ref}
    (sure : ∀ x ∈ args, w.Sure x) : w.Tame (c.body args) := by
  cases c with
  | scalarShape => exact .done w _
  | anything => exact .done w _
  | primitive t operator arity rule =>
    rw [Callable.body]
    split
    · exact tame_of_stays (Registries.stays_builtin t operator arity rule sound _ t args
        fun x hx => sure_base.mpr (sure x hx)) fun _ => id
    · exact .fail w _
  | graph t id ctx => exact lawful.tame_callGraph sound sure
  | metaGraph t m => exact tame_callGenerator sure
  | bound inner first =>
    refine tame_callInferrer fun x hx => ?_
    rcases List.mem_append.mp hx with hx | hx
    · exact sound x hx
    · exact sure x hx

/-- The computation of a node in a good context is tame. -/
theorem Lawful.tame_infer (lawful : w.Lawful) {r : NodeRef} (good : w.Good r.ctx) :
    w.Tame (r.infer track) := by
  refine Tame.seq (.ask trivial fun v n _ _ _ => .done v n) lawful fun v n le lawful _ => ?_
  split
  · exact .ask (good.mono le) fun u r _ _ _ => tame_ofExcept u r
  · split
    · exact .done v _
    · exact Tame.seq (.ask trivial fun u g _ _ _ => .done u g) lawful fun u g _ _ _ => .fail u _
  · exact .fail v _
  · rename_i callee ids _
    refine Tame.seq (.ask (good.mono le) fun u r _ _ _ => .done u r) lawful
      fun u a le' lawful ha => ?_
    obtain ⟨-, rfl⟩ := yields_ask.mp ha
    have sure : u.Sure (.node (u.engine.locate callee r.ctx)) :=
      (good.mono (le.trans le')).locate u.engine callee
    refine Tame.seq ((tame_get sure).seq lawful fun v p _ _ _ => tame_ofExcept v _) lawful
      fun v f le'' lawful _ => ?_
    have up := le.trans (le'.trans le'')
    have located : v.Tame (ids.mapM fun id => Infer.ask (.locate id r.ctx) fun a => .done (Ref.node a)) :=
      tame_mapM (fun v _ => v.Good r.ctx) Good.mono
        (fun {w x} _ good => .ask (show w.Permits (.locate x r.ctx) from good)
          fun u a _ _ _ => .done u _) lawful fun _ _ => good.mono up
    refine located.seq lawful fun u xs le lawful hxs => ?_
    cases yields_located hxs
    refine tame_callInferrer fun x hx => ?_
    obtain ⟨id, -, rfl⟩ := List.mem_map.mp hx
    exact (good.mono (up.trans le)).locate u.engine id

/-- A branch of a conditional is tame. -/
theorem tame_branch (use : BranchUse) {x : Ref} (sure : w.Sure x) :
    w.Tame (Infer.branch track use x) :=
  tame_of_stays (Infer.stays_branch track use (sure_base.mpr sure)) fun _ => id

end Ledger

end ArrayInference
