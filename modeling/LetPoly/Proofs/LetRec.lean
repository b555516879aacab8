import LetPoly.Proofs.Binding
import LetPoly.Proofs.Independence
import LetPoly.Proofs.Infer.Apart
import LetPoly.Proofs.Store.Unifying

/-!
# Recursive definitions without recursion

If the value of a recursive definition does not use its own name, the definition might as well not
be recursive: inference ends in the same way, up to which vars are new (`letRec_alike_letIn`).

The two runs differ in the target, a var that the recursive one makes first and binds to the type of
the value at the end.  Until then the target is non-generic, which makes no difference because no
type in scope has it (`infer_inserts`).  From then on it is one more var on the way to the type of
the value, which look-ups pass through (`Ready`).

* `Renaming.oneMore`     the second run has made one var more;
* `Store.BindsOnly`      what unifying the target does to the second run.
-/

namespace LetPoly

open StoreM Store

variable {r : Renaming} {s s' t : Store} {ty : Ty} {v w : Var} {i : Nat}

/-! ## one var more -/

theorem Store.skipSession_pushVar (s : Store) (i j : Nat) : s.skipSession (s.pushVar i) j = j := by
  unfold skipSession
  rw [Store.pushVar, size_modifySession, Nat.sub_self]
  split <;> rfl

theorem Store.skipVar_ne_nextVar (hi : i < s.sessions.size) (w : Var) :
    s.skipVar (s.pushVar i) w ≠ s.nextVar i := by
  intro heq
  by_cases hw : s.Made w
  · rw [skipVar_of_made hw] at heq
    exact s.not_made_nextVar i (heq ▸ hw)
  · rw [skipVar_of_not_made hw, skipSession_pushVar, nextVar, Var.mk.injEq] at heq
    obtain ⟨hsession, hid⟩ := heq
    rw [hsession, madeBy_pushVar hi, if_pos rfl] at hid
    refine hw (show w.id < s.madeBy w.session from ?_)
    rw [hsession]
    omega

/-- from a run that starts in `s` to one in which `i` has made one var first -/
def Renaming.oneMore (s : Store) (i : Nat) : Renaming where
  session := id
  var := s.skipVar (s.pushVar i)
  shown := Set.univ
  own := Set.univ
  ahead _ := 0
  exact := False
  injective := skipVar_injective s _
  session_var v := by rw [session_skipVar, skipSession_pushVar, id]
  own_of_shown _ _ := trivial
  var_of_exact := False.elim

theorem Renaming.maps_oneMore (hty : s.Has ty) : (oneMore s i).Maps ty ty :=
  .self hty.whole fun v hv => skipVar_of_made (hty.made v hv)

theorem Store.Has.shows_oneMore (hty : t.Has ty) : (Renaming.oneMore s i).Shows t ty :=
  ⟨hty, fun _ _ => trivial⟩

theorem Parallel.oneMore (hs : s.Sound) (hi : i < s.sessions.size) :
    Parallel (.oneMore s i) s (s.pushVar i) := by
  have hk := keeps_pushVar hi
  have hsize : (s.pushVar i).sessions.size = s.sessions.size := s.size_modifySession _ _
  exact {
    sound := hs
    sound' := hk.sound hs
    made := fun v hv => by
      show (s.pushVar i).Made (s.skipVar _ v)
      rw [skipVar_of_made hv]
      exact hk.made v hv
    last := Renaming.maps_last_skip rfl hs (fun v _ => hk.last_eq hs.acyclic (.var v))
      fun v hv => (hk.bound _).2 (binding?_of_not_made (not_made_skipVar hv))
    label := fun v _ => by
      show (s.pushVar i).label? (s.skipVar _ v) = _
      rw [label?_pushVar]
      by_cases hv : s.Made v
      · rw [skipVar_of_made hv]
        exact Option.map_id'.symm
      · rw [label?_of_not_made hv, label?_of_not_made (not_made_skipVar hv)]
        rfl
    cursor := fun j _ => s.cursor_pushVar i j
    session_lt := fun j hj => hsize ▸ hj
    session_next := fun k => by rw [hsize]; rfl
    ahead_next := fun _ => rfl
    own_next := fun _ => trivial
    var_next := fun j _ k => by
      have hle : s.madeBy j ≤ (s.pushVar i).madeBy (s.skipSession (s.pushVar i) j) := by
        rw [skipSession_pushVar, madeBy_pushVar hi]
        split
        · next hij => exact hij ▸ Nat.le_succ _
        · exact Nat.le_refl _
      have hnext := skipVar_next hle k
      rw [skipSession_pushVar] at hnext
      exact hnext
    shown_next := fun _ _ _ => trivial
    mark_eq := False.elim
    events_eq := False.elim }

theorem Ready.oneMore {Γ : Context} (hs : s.Sound) (hΓ : Γ.Within s) (hi : i < s.sessions.size) :
    Ready (.oneMore s i) s (s.pushVar i) Γ Γ i :=
  .of_self (.oneMore hs hi) hΓ (fun x t hx => Renaming.maps_oneMore (hΓ.scope x t hx))
    (fun u hu => Renaming.maps_oneMore (hΓ.nonGeneric u hu))
    (fun u hu => (hΓ.nonGeneric u hu).shows_oneMore) hi trivial

/-! ## the target is bound -/

/-- all that was done from `s` to `t` is to bind `v` to the end of `ty`, and to shorten chains -/
structure Store.BindsOnly (v : Var) (ty : Ty) (s t : Store) : Prop where
  grows : s.Grows t
  last_other : ∀ u, s.last u ≠ .var v → t.last u = s.last u
  last_self : t.last (.var v) = t.last ty

theorem Store.Acyclic.last_ne (hs : s.Acyclic) (hb : s.binding? v = none)
    (ho : v ∉ (s.resolve ty).vars) : s.last ty ≠ .var v := by
  intro heq
  rw [← hs.resolve_last, heq, resolve_var, value_of_unbound hb] at ho
  exact ho (List.mem_singleton_self v)

theorem bindsOnly_bindTo (hs : s.Sound) (hv : s.Made v) (hb : s.binding? v = none) (hty : s.Has ty)
    (he : s.Ended ty) (ho : v ∉ (s.resolve ty).vars) : BindsOnly v ty s (s.bindTo v ty) where
  grows := grows_bindTo hs hv hb hty ho
  last_other _ hu := last_bindTo_of_ne hs.acyclic hv hb ho hu
  last_self := by
    have hend : s.Ended (.var v) := fun w hw => by cases hw; exact hb
    rw [last_bindTo_self hs.acyclic hv hb ho he hend.last_eq,
      last_bindTo_of_ne hs.acyclic hv hb ho (hs.acyclic.last_ne hb ho), he.last_eq]

namespace Store.BindsOnly

variable {s₁ t' : Store}

theorem lookUp (h : BindsOnly v (s.last ty) s₁ t) (hs : s.Sound) (hq : s.Quiet s₁) :
    BindsOnly v ty s t where
  grows := (hq.grows hs).trans h.grows
  last_other u hu := by
    rw [← hq.last_eq hs.acyclic] at hu
    rw [h.last_other u hu, hq.last_eq hs.acyclic]
  last_self := by rw [h.last_self, ((hq.grows hs).trans h.grows).last ty]

theorem quiet (h : BindsOnly v ty s t) (hq : t.Quiet t') : BindsOnly v ty s t' where
  grows := h.grows.trans (hq.grows h.grows.sound)
  last_other u hu := by rw [hq.last_eq h.grows.acyclic, h.last_other u hu]
  last_self := by rw [hq.last_eq h.grows.acyclic, hq.last_eq h.grows.acyclic, h.last_self]

end Store.BindsOnly

theorem ends_bindVar_target (hs : s.Sound) (hv : s.Made v) (hb : s.binding? v = none)
    (hty : s.Has ty) (he : s.Ended ty) (ho : v ∉ (s.resolve ty).vars) :
    Ends (Ty.bindVar v ty) s (fun _ t => BindsOnly v ty s t) never := by
  refine (Ty.ends_bindVar hs hty).mono ?_ fun f t ⟨_, hmem, _⟩ => ho hmem
  rintro _ t ⟨-, s₁, hq, hq'⟩
  have hout : v ∉ (s₁.resolve ty).vars := by rwa [hq.resolve_eq hs.acyclic]
  have hbind := bindsOnly_bindTo (hq.sound hs) (hq.made v hv) ((hq.bound v).2 hb)
    (hq.has_of_has hty) (hq.ended he) hout
  refine .lookUp ?_ hs hq
  rw [he.last_eq]
  exact hbind.quiet hq'

/-- an unbound var is unified with a type that does not have it -/
theorem ends_unify_target (hs : s.Sound) (hv : s.Made v) (hb : s.binding? v = none)
    (hty : s.Has ty) (ho : v ∉ (s.resolve ty).vars) :
    Ends (Ty.unify (.var v) ty) s
      (fun _ t => BindsOnly v ty s t ∧ s.SameVars t ∧ s.SameNames t) never := by
  have hend : s.Ended (.var v) := fun w hw => by cases hw; exact hb
  have hlook := Ty.prune_eq hs.acyclic ty
  have hq := Ty.quiet_prune hs.acyclic ty
  have hnames := (closed_sameNames.prune ty s).ok hlook
  have hrun := (Ty.unifying_iff hs (has_var.2 hv) hty).1
    (.lookUp (Ty.prune_ended hend) hlook (.left (hs.acyclic.last_ne hb ho)))
  have hout : v ∉ ((s.shortened (s.chain ty) (s.last ty)).resolve (s.last ty)).vars := by
    rwa [hq.resolve_eq hs.acyclic, hs.acyclic.resolve_last]
  have hbind := ends_bindVar_target (hq.sound hs) (hq.made v hv) ((hq.bound v).2 hb)
    (hq.has_of_has (hs.has_last hty)) (hq.ended (hs.acyclic.ended_last ty)) hout
  have hstep := (hbind.and (Ty.sameNames_bindVar v (s.last ty) _)).of_eq hrun
  refine (hstep.and (closed_sameVars.unify (.var v) ty s)).mono ?_ fun f t h => h.1.1
  rintro _ t ⟨⟨hbinds, hnames'⟩, hvars⟩
  exact ⟨hbinds.lookUp hs hq, hvars, trans_of SameNames hnames hnames'⟩

/-- a var that the first run does not have may be bound in the second -/
theorem Parallel.bindsOnly (h : Parallel r s s') (hx : ¬ r.exact) (hb : BindsOnly v ty s' t)
    (hvars : s'.SameVars t) (hnames : s'.SameNames t) (hv : ∀ w, r.var w ≠ v) :
    Parallel r s t := by
  refine h.sameVars (.refl s) hvars h.sound hb.grows.sound (fun w => ?_) (fun w hw => ?_)
    (fun j hj => ?_) (fun he => absurd he hx) fun he => absurd he hx
  · have hlast := h.last w
    have hne : s'.last (.var (r.var w)) ≠ .var v := by
      intro heq
      rw [heq] at hlast
      have hterm := hlast.term_eq
      cases hu : s.last (.var w) with
      | var u =>
        rw [hu] at hterm
        exact hv u (Term.var.inj hterm).symm
      | op k n as =>
        rw [hu] at hterm
        cases hterm
      | hole =>
        rw [hu] at hterm
        cases hterm
    rw [hb.last_other _ hne]
    exact hlast
  · rw [hnames.label, h.label w hw]
  · rw [hnames.cursor, h.cursor j hj]

/-! ## both definitions -/

variable {Γ : Context} {x : String} {value body : Expr} {out : Failure → Prop}

/-- a new var is in no type in scope -/
theorem Context.Usable.apart (h : Γ.Usable i s) (hv : Fresh s t v) : Γ.Apart t v where
  made := hv.made
  unbound := hv.unbound
  not_mem y u hy hmem := by
    rw [hv.keeps.resolve_eq h.sound.acyclic] at hmem
    exact hv.not_made (h.sound.made_of_mem (h.within.scope y u hy) hmem)

/-- a value that does not use its own name is inferred as if the target were not there -/
theorem infer_value_of_not_free (hx : x ∉ value.freeNames) (hΓ : Γ.Usable i s) (hv : Γ.Apart s v) :
    value.infer i (Γ.bindFixed x (.var v)) s = value.infer i Γ s := by
  have hscope : ∀ y ∈ value.freeNames, (Γ.bindFixed x (.var v)).scope.get? y = Γ.scope.get? y := by
    intro y hy
    rw [Context.bindFixed, Scope.get?_extend, if_neg]
    rintro rfl
    exact hx hy
  have hagree : Context.Matches [] value.freeNames
      { Γ with nonGeneric := .var v :: Γ.nonGeneric } (Γ.bindFixed x (.var v)) :=
    .of_agree rfl hscope
  rw [(Expr.AlphaEq.refl value).infer_eq i hagree]
  exact infer_inserts value (.here _) hv hΓ

/-- the value of both definitions, in the second run with the target in scope -/
theorem inStep_value (hΓ : Γ.Usable i s) (hx : x ∉ value.freeNames) :
    InStep (.oneMore s i) out (value.infer i Γ) s
      (value.infer i (Γ.bindFixed x (.var (s.nextVar i)))) (s.pushVar i)
      fun ty ty' t t' => ((Renaming.oneMore s i).Maps ty ty' ∧ (Renaming.oneMore s i).Shows t ty ∧
        (s.pushVar i).Grows t') ∧ Typed Γ value (s.pushVar i) ty' t' := by
  have hv : Fresh s (s.pushVar i) (s.nextVar i) := (ends_newVar hΓ.session_lt).ok rfl
  have hΓ₁ := hΓ.later (hv.keeps.grows hΓ.sound)
  have hp := Parallel.oneMore hΓ.sound hΓ.session_lt
  have hr := Ready.oneMore hΓ.sound hΓ.within hΓ.session_lt
  refine .of_eq rfl (infer_value_of_not_free hx hΓ₁ (hΓ.apart hv)) ?_
  exact ((inStep_infer value hp hr).part hp hr).and_right (hΓ₁.infers value)

/-- both definitions are inferred in step, the recursive one with one var more -/
theorem inStep_letRec (hΓ : Γ.Usable i s) (hx : x ∉ value.freeNames) :
    InStep (.oneMore s i) out ((Expr.letIn x value body).infer i Γ) s
      ((Expr.letRec x value body).infer i Γ) s
      fun ty ty' _ _ => (Renaming.oneMore s i).Maps ty ty' := by
  have hv : Fresh s (s.pushVar i) (s.nextVar i) := (ends_newVar hΓ.session_lt).ok rfl
  have hΓ₁ := hΓ.later (hv.keeps.grows hΓ.sound)
  have hapart := hΓ.apart hv
  have hp := Parallel.oneMore hΓ.sound hΓ.session_lt
  have hr := Ready.oneMore hΓ.sound hΓ.within hΓ.session_lt
  have hnew : newVar i s = .ok (s.nextVar i) (s.pushVar i) := rfl
  rw [Expr.infer, Expr.infer]
  refine .of_eq rfl (bind_of_ok hnew _) ((inStep_value hΓ hx).bind ?_)
  rintro ty ty' t t' hadv ⟨⟨hmaps, hty, hg'⟩, htyped'⟩
  -- no var of the first run corresponds to the target, so only the second run changes
  have hp₁ := hadv.parallel
  have hapart₁ := hapart.later hΓ₁ htyped'.binds
  have htarget := ends_unify_target hp₁.sound' hapart₁.made hapart₁.unbound htyped'.result.has
    (hapart.not_mem_of_over htyped'.result)
  obtain ⟨_, u', hunify, hb, hvars, hnames⟩ := htarget.exists_ok
  have hp₂ := hp₁.bindsOnly id hb hvars hnames (skipVar_ne_nextVar hΓ.session_lt)
  have hr₂ := (hr.later hp hadv hg').later hp₁ ⟨hp₂, .refl hp₂.sound⟩ hb.grows
  refine .of_eq rfl (bind_of_ok hunify _) ?_
  -- in scope are the type of the value and the target, whose chain ends there
  have hself : u'.Has (.var (s.nextVar i)) := has_var.2 (hb.grows.made _ hapart₁.made)
  have hends : (Renaming.oneMore s i).MapsEnds t u' ty (.var (s.nextVar i)) := by
    rw [Renaming.MapsEnds, hb.last_self]
    exact hp₂.maps_last hmaps
  exact inStep_infer body hp₂ (hr₂.bindGeneric x hty.has hself hends)

/-- where the value of a definition does not use its own name, it makes no difference whether the
definition is recursive: analysis ends in the same way, up to a one-to-one renaming of new vars -/
theorem letRec_alike_letIn {a : Analyser} (hs : s.Sound) (hΓ : Γ.Within s)
    (ha : a.session < s.sessions.size) (hx : x ∉ value.freeNames) (body : Expr) :
    ∃ ρ : Var → Var, ρ.Injective ∧ (∀ v, s.Made v → ρ v = v) ∧
      SameOutcome ρ (after ((AnalyserM.analyse (.letIn x value body) Γ).onAnalyser a) s)
        (after ((AnalyserM.analyse (.letRec x value body) Γ).onAnalyser a) s)
        (((AnalyserM.analyse (.letIn x value body) Γ).onAnalyser a).result s)
        (((AnalyserM.analyse (.letRec x value body) Γ).onAnalyser a).result s) := by
  rw [onAnalyser_analyse, onAnalyser_analyse]
  refine ⟨s.skipVar (s.pushVar a.session), skipVar_injective s _, fun v => skipVar_of_made, ?_⟩
  refine (inStep_letRec ⟨hs, hΓ, ha⟩ hx).sameOutcome ?_ ?_
  · exact (Renaming.oneMore s a.session).ends_not_gaveUp (fun _ => rfl) _ s
  · exact (infers _ hs hΓ ha).mono (fun _ _ _ => trivial) fun _ _ h => h.rejection

def sharedContext : Context := { scope := identityScope, nonGeneric := [.var ⟨0, 1⟩] }

theorem within_sharedContext : sharedContext.Within chainStore :=
  ⟨within_identityScope, List.forall_mem_singleton.2 (has_var.2 (by decide))⟩

/-- a definition that binds a var of its surroundings where it is used, at the cost of one var more
if it counts as recursive -/
theorem letRec_alike_letIn_of_shared :
    ∃ value body : Expr, "f" ∉ value.freeNames ∧
      (after ((Expr.letIn "f" value body).infer 0 sharedContext) chainStore).madeBy 0 = 6 ∧
      (after ((Expr.letRec "f" value body).infer 0 sharedContext) chainStore).madeBy 0 = 7 ∧
      ∃ ρ : Var → Var, ρ.Injective ∧ (∀ v, chainStore.Made v → ρ v = v) ∧
        SameOutcome ρ
          (after ((AnalyserM.analyse (.letIn "f" value body) sharedContext).onAnalyser
            { session := 0 }) chainStore)
          (after ((AnalyserM.analyse (.letRec "f" value body) sharedContext).onAnalyser
            { session := 0 }) chainStore)
          (((AnalyserM.analyse (.letIn "f" value body) sharedContext).onAnalyser
            { session := 0 }).result chainStore)
          (((AnalyserM.analyse (.letRec "f" value body) sharedContext).onAnalyser
            { session := 0 }).result chainStore) := by
  have hfree : "f" ∉ (Expr.fn "x" (.app (.name "id") (.name "x"))).freeNames := by decide
  refine ⟨.fn "x" (.app (.name "id") (.name "x")), .app (.name "f") (.name "5"), hfree,
    by decide +kernel, by decide +kernel, ?_⟩
  exact letRec_alike_letIn sound_chainStore within_sharedContext (by decide) hfree _

end LetPoly
