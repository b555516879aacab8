import LetPoly.Proofs.History
import LetPoly.Proofs.Parallel.Identity

/-!
# All operations in two runs

An operation gives the same answer on stores with the same vars and operators, and leaves such
stores behind (`inStep_perform`).
-/

namespace LetPoly

open StoreM Store

inductive Answer where
  | done
  | session (i : Nat)
  | var (v : Var)
  | type (t : Ty)
  | scope (scope : Scope Ty)
  | found (b : Bool)
  | text (x : String)

/-- a run of an analyser, as the store sees it -/
def AnalyserM.onAnalyser {α : Type} (act : AnalyserM α) (a : Analyser) : StoreM α := fun s =>
  match act (a, s) with
  | .ok x (_, s') => .ok x s'
  | .error f (_, s') => .error f s'

def Op.perform : Op → StoreM Answer
  | newSession first => return .session (← StoreM.newSession first)
  | newVar session => return .var (← StoreM.newVar session)
  | newOp name args => return .type (← StoreM.newOp name args)
  | standardScope session => return .scope (← LetPoly.standardScope session)
  | prune t => return .type (← t.prune)
  | occursIn sought t => return .found (← Ty.occursIn sought t)
  | fresh t nonGeneric session => return .type (← t.freshInstance nonGeneric session)
  | unify left right => do
    Ty.unify left right
    return .done
  | render t => return .text (← t.render)
  | inferType e scope session => return .type (← e.inferType scope session)
  | analyse analyser e Γ => return .type (← (AnalyserM.analyse e Γ).onAnalyser analyser)

variable {s s' t t' : Store} {o : Op}

theorem onAnalyser_analyse (e : Expr) (Γ : Context) (a : Analyser) :
    (AnalyserM.analyse e Γ).onAnalyser a = e.infer a.session Γ := by
  funext s
  rw [AnalyserM.onAnalyser, analyse_eq]
  cases e.infer a.session Γ s <;> rfl

theorem StoreM.after_return {α β : Type} (act : StoreM α) (f : α → β) (s : Store) :
    after (do return f (← act)) s = after act s := by
  have hbind : (do return f (← act) : StoreM β) s = EStateM.bind act (fun a => pure (f a)) s := rfl
  rw [after, after, hbind, EStateM.bind]
  cases act s <;> rfl

theorem after_perform (o : Op) (s : Store) : StoreM.after o.perform s = o.after s := by
  cases o with
  | analyse a e Γ =>
    rw [Op.perform, StoreM.after_return, onAnalyser_analyse, Op.after, after_analyse]
  | _ => exact StoreM.after_return _ _ s

/-! ## one operation -/

theorem Renaming.Maps.eq {ty ty' : Ty} (h : Renaming.same.Maps ty ty') : ty' = ty :=
  h.eq_of_exact trivial

theorem Store.Has.shows {ty : Ty} (h : s.Has ty) : Renaming.same.Shows s ty :=
  ⟨h, fun _ _ => trivial⟩

variable {out : Failure → Prop}

theorem inStep_makeVar {i : Nat} (h : Parallel .same s s') (hi : i < s.sessions.size) :
    InStep .same out (newVar i) s (newVar i) s' fun v v' _ _ => v' = v :=
  (inStep_newVar h hi trivial).mono fun _ _ _ _ _ hv => hv.1

theorem inStep_buildOp (h : Parallel .same s s') (n : String) (as : List Ty) :
    InStep .same out (newOp n as) s (newOp n as) s' fun u u' _ _ => u' = u :=
  .of_ok rfl rfl (.takeMark h) (by rw [h.mark_eq trivial])

theorem inStep_standardScope {i : Nat} (h : Parallel .same s s') (hi : i < s.sessions.size) :
    InStep .same out (standardScope i) s (standardScope i) s' fun x x' _ _ => x' = x := by
  -- each step has the same result on both sides, and leaves enough sessions for the next one
  have hvar : ∀ {β : Type} {t t' : Store} {k : Var → StoreM β}, Advance .same s t t' →
      (∀ v u u', Advance .same s u u' → InStep .same out (k v) u (k v) u' fun x x' _ _ => x' = x) →
        InStep .same out (newVar i >>= k) t (newVar i >>= k) t' fun x x' _ _ => x' = x := by
    intro β t t' k hadv hk
    have hi' := hi.trans_le hadv.stays.binds.grows.sessions
    refine (inStep_makeVar hadv.parallel hi').bind fun v v' u u' hadv' hv => ?_
    rw [hv]
    exact hk v u u' (hadv'.after hadv)
  have hop : ∀ {β : Type} {t t' : Store} {k : Ty → StoreM β} (n : String) (as : List Ty),
      Advance .same s t t' →
      (∀ w u u', Advance .same s u u' → InStep .same out (k w) u (k w) u' fun x x' _ _ => x' = x) →
        InStep .same out (newOp n as >>= k) t (newOp n as >>= k) t' fun x x' _ _ => x' = x := by
    intro β t t' k n as hadv hk
    refine (inStep_buildOp hadv.parallel n as).bind fun w w' u u' hadv' hw => ?_
    rw [hw]
    exact hk w u u' (hadv'.after hadv)
  rw [standardScope]
  refine hvar (.refl h) fun _ _ _ h => hvar h fun _ _ _ h => hvar h fun _ _ _ h => ?_
  refine hop _ _ h fun _ _ _ h => hop _ _ h fun _ _ _ h => hop _ _ h fun _ _ _ h => ?_
  refine hop _ _ h fun _ _ _ h => hop _ _ h fun _ _ _ h => hop _ _ h fun _ _ _ h => ?_
  refine hop _ _ h fun _ _ _ h => hop _ _ h fun _ _ _ h => hop _ _ h fun _ _ _ h => ?_
  exact hop _ _ h fun _ _ _ h => inStep_return h.parallel _

theorem inStep_perform (h : Parallel .same s s') (ho : o.Within s) :
    InStep .same (fun _ => False) o.perform s o.perform s' fun x x' _ _ => x' = x := by
  have hmaps : ∀ {t : Ty}, s.Has t → Renaming.same.Maps t t := fun ht => Renaming.maps_self ht.whole
  cases o with
  | newSession first =>
    exact ((inStep_newSession first h).mono fun _ _ _ _ _ hi => hi.1).then_return _
  | newVar session => exact (inStep_makeVar h ho).then_return _
  | newOp n args => exact (inStep_buildOp h n args).then_return _
  | standardScope session => exact (inStep_standardScope h ho).then_return _
  | prune t =>
    exact ((inStep_prune h (h.maps_last (hmaps ho))).mono fun _ _ _ _ _ hu => hu.1.eq).then_return _
  | occursIn sought t =>
    exact (inStep_occursIn h (hmaps ho.1) (hmaps ho.2) ho.2).then_return _
  | fresh t nonGeneric session =>
    obtain ⟨ht, hg, hi⟩ := ho
    have hsh : Sharing .same s nonGeneric nonGeneric session :=
      ⟨Renaming.maps_all fun u hu => (hg u hu).whole, hg, hi, trivial⟩
    exact ((inStep_freshInstance h hsh (h.maps_last (hmaps ht)) ht (h.has (hmaps ht) ht)).mono
      fun _ _ _ _ _ hu => hu.eq).then_return _
  | unify left right =>
    refine (inStep_unify h ho.1.shows ho.2.shows (hmaps ho.1) (hmaps ho.2)).bind ?_
    exact fun _ _ _ _ hadv _ => inStep_return hadv.parallel _
  | render t => exact (inStep_text h (fun _ => rfl) ho.shows (hmaps ho)).then_return _
  | inferType e scope session =>
    have hst : Start .same s scope session := ho.1.start ho.2 fun _ _ => trivial
    have hrun : InStep .same (fun _ => False) (e.inferType scope session) s
        (e.inferType scope (session.map Renaming.same.session)) s' fun u u' _ _ => u' = u :=
      (inStep_inferType e h hst).mono fun _ _ _ _ _ hu => hu.1.eq
    rw [Renaming.map_session .same trivial] at hrun
    exact hrun.then_return _
  | analyse a e Γ =>
    rw [Op.perform, onAnalyser_analyse]
    have hr : Ready .same s s' Γ Γ a.session := ho.1.ready h ho.2 trivial fun _ _ => trivial
    exact ((inStep_infer e h hr).mono fun _ _ _ _ _ hu => hu.eq).then_return _

end LetPoly
