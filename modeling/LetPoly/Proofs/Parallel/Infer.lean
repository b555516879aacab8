import LetPoly.Proofs.Inference
import LetPoly.Proofs.Parallel.Instance
import LetPoly.Proofs.Parallel.Unify

/-!
# Inference in two runs

In contexts that correspond, an expression gets types that correspond, or inference fails alike in
both runs (`inStep_infer`).  Types in scope are looked up before they are copied, so it is enough
that their chains end in types that correspond (`Renaming.MapsEnds`).  The induction is on the
expression; that only vars which may be shown are unified comes from what is known of each run by
itself, that types of subexpressions are over the non-generic types and new vars.
-/

namespace LetPoly

open StoreM Store

variable {r : Renaming} {out : Failure → Prop} {s s' t t' : Store} {ty ty' : Ty} {i : Nat}
  {Γ Γ' : Context} {x : String} {v : Var}

/-- two types lead to types that correspond: one of them may have more vars on its way -/
def Renaming.MapsEnds (r : Renaming) (s s' : Store) (t t' : Ty) : Prop :=
  r.Maps (s.last t) (s'.last t')

/-- two contexts that correspond, with non-generic types that may be shown -/
structure Ready (r : Renaming) (s s' : Store) (Γ Γ' : Context) (i : Nat) : Prop where
  within : Γ.Within s
  within' : Γ'.Within s'
  scope : ∀ x, Option.Rel (r.MapsEnds s s') (Γ.scope.get? x) (Γ'.scope.get? x)
  sharing : Sharing r s Γ.nonGeneric Γ'.nonGeneric i
  shows : ∀ u ∈ Γ.nonGeneric, r.Shows s u

theorem Renaming.MapsEnds.later (h : r.MapsEnds s s' ty ty') (hadv : Advance r s t t')
    (hg' : s'.Grows t') : r.MapsEnds t t' ty ty' := by
  rw [MapsEnds, hadv.stays.binds.grows.last, hg'.last]
  exact hadv.parallel.maps_last h

namespace Ready

/-- one context for both runs, with types that the renaming leaves alone -/
theorem of_self (hp : Parallel r s s') (hΓ : Γ.Within s)
    (hscope : ∀ x t, Γ.scope.get? x = some t → r.Maps t t) (hfixed : ∀ u ∈ Γ.nonGeneric, r.Maps u u)
    (hshows : ∀ u ∈ Γ.nonGeneric, r.Shows s u) (hi : i < s.sessions.size) (hown : i ∈ r.own) :
    Ready r s s' Γ Γ i where
  within := hΓ
  within' := ⟨fun x t ht => hp.has (hscope x t ht) (hΓ.scope x t ht),
    fun u hu => hp.has (hfixed u hu) (hΓ.nonGeneric u hu)⟩
  scope x := by
    cases hx : Γ.scope.get? x with
    | none => exact .none
    | some t => exact .some (hp.maps_last (hscope x t hx))
  sharing := ⟨List.forall₂_same.2 hfixed, hΓ.nonGeneric, hi, hown⟩
  shows := hshows

theorem later (h : Ready r s s' Γ Γ' i) (hp : Parallel r s s') (hadv : Advance r s t t')
    (hg' : s'.Grows t') : Ready r t t' Γ Γ' i where
  within := h.within.mono hadv.stays.binds.grows.made
  within' := h.within'.mono hg'.made
  scope x := by
    have hx := h.scope x
    revert hx
    generalize Γ.scope.get? x = o, Γ'.scope.get? x = o'
    rintro (hends | _)
    · exact .some (hends.later hadv hg')
    · exact .none
  sharing := h.sharing.later hadv
  shows u hu := hadv.stays.shows hp (h.shows u hu)

theorem bindGeneric (h : Ready r s s' Γ Γ' i) (x : String) (hty : s.Has ty) (hty' : s'.Has ty')
    (hends : r.MapsEnds s s' ty ty') :
    Ready r s s' (Γ.bindGeneric x ty) (Γ'.bindGeneric x ty') i where
  within := h.within.bindGeneric x hty
  within' := h.within'.bindGeneric x hty'
  scope y := by
    rw [Context.bindGeneric, Context.bindGeneric, Scope.get?_extend, Scope.get?_extend]
    split
    · exact .some hends
    · exact h.scope y
  sharing := h.sharing
  shows := h.shows

theorem bindFixed (h : Ready r s s' Γ Γ' i) (hp : Parallel r s s') (x : String)
    (hty : r.Shows s ty) (htt' : r.Maps ty ty') :
    Ready r s s' (Γ.bindFixed x ty) (Γ'.bindFixed x ty') i where
  within := h.within.bindFixed x hty.has
  within' := h.within'.bindFixed x (hp.has htt' hty.has)
  scope := (h.bindGeneric x hty.has (hp.has htt' hty.has) (hp.maps_last htt')).scope
  sharing := { h.sharing with
    maps := .cons htt' h.sharing.maps
    has := List.forall_mem_cons.2 ⟨hty.has, h.sharing.has⟩ }
  shows := List.forall_mem_cons.2 ⟨hty, h.shows⟩

theorem session_lt' (h : Ready r s s' Γ Γ' i) (hp : Parallel r s s') :
    r.session i < s'.sessions.size := hp.session_lt i h.sharing.session_lt

theorem shows_type (h : Ready r s s' Γ Γ' i) (hp : Parallel r s s') (hadv : Advance r s t t')
    (hty : Over (Γ.env s).freeVars s t ty) : r.Shows t ty := by
  refine ⟨hty.has, fun v hv => ?_⟩
  refine hadv.stays.mem_shown hp (hadv.parallel.sound.made_of_mem hty.has hv) fun hm => ?_
  obtain ⟨u, hu, hvu⟩ := Context.freeVars_env_subset (hty.vars v hv hm)
  exact (h.shows u hu).shown v hvu

end Ready

/-! ## steps -/

/-- a new var, with all that is known of it -/
theorem inStep_newTy (h : Parallel r s s') (hi : i < s.sessions.size) (hown : i ∈ r.own) :
    InStep r out (newVar i) s (newVar (r.session i)) s' fun v v' t t' =>
      v' = r.var v ∧ r.Shows t (.var v) ∧ s'.Grows t' := by
  have hnew' := ends_newVar (h.session_lt i hi)
  refine (((inStep_newVar h hi hown).and (ends_newVar hi)).and_right hnew').mono ?_
  rintro v v' t t' - ⟨⟨⟨hv', hshown⟩, hfresh⟩, hfresh'⟩
  refine ⟨hv', ⟨has_var.2 hfresh.made, fun w hw => ?_⟩, hfresh'.keeps.grows h.sound'⟩
  rw [resolve_var, value_of_unbound hfresh.unbound, Term.vars_var, List.mem_singleton] at hw
  exact hw ▸ hshown

theorem inStep_newFunc {a a' b b' : Ty} (h : Parallel r s s') (ha : r.Maps a a')
    (hb : r.Maps b b') :
    InStep r out (newFunc a b) s (newFunc a' b') s' fun u u' t _ =>
      r.Maps u u' ∧ (r.Shows t a → r.Shows t b → r.Shows t u) := by
  have hargs : List.Forall₂ r.Maps [a, b] [a', b'] := .cons ha (.cons hb .nil)
  refine ((inStep_newOp h hargs).and (ends_newOp Ty.funcName [a, b])).mono ?_
  rintro u u' t t' - ⟨huu', rfl, -⟩
  refine ⟨huu', fun ha hb => ⟨has_func ha.has hb.has, fun v hv => ?_⟩⟩
  rw [resolve_func, Term.func, Term.mem_vars_op] at hv
  simp only [List.mem_cons, List.not_mem_nil, or_false, exists_eq_or_imp, exists_eq_left] at hv
  exact hv.elim (ha.shown v) (hb.shown v)

theorem InStep.part {e : Expr} (hp : Parallel r s s') (hr : Ready r s s' Γ Γ' i)
    (h : InStep r out (e.infer i Γ) s (e.infer (r.session i) Γ') s'
      fun ty ty' _ _ => r.Maps ty ty') :
    InStep r out (e.infer i Γ) s (e.infer (r.session i) Γ') s' fun ty ty' t t' =>
      r.Maps ty ty' ∧ r.Shows t ty ∧ s'.Grows t' := by
  refine ((h.and (infers e hp.sound hr.within hr.sharing.session_lt)).and_right
    (infers e hp.sound' hr.within' (hr.session_lt' hp))).mono ?_
  rintro ty ty' t t' hadv ⟨⟨hmaps, htyped⟩, htyped'⟩
  exact ⟨hmaps, hr.shows_type hp hadv htyped.result, htyped'.binds.grows⟩

theorem inStep_equate {a b a' b' : Ty} (h : Parallel r s s') (ha : r.Shows s a) (hb : r.Shows s b)
    (haa' : r.Maps a a') (hbb' : r.Maps b b') :
    InStep r out (Ty.unify a b) s (Ty.unify a' b') s' fun _ _ _ t' => s'.Grows t' := by
  have hunify' := Ty.ends_unify h.sound' (h.has haa' ha.has) (h.has hbb' hb.has)
  exact ((inStep_unify h ha hb haa' hbb').and_right hunify').mono fun _ _ _ _ _ hX => hX.2.grows

theorem inStep_name (x : String) (h : Parallel r s s') (hr : Ready r s s' Γ Γ' i) :
    InStep r out ((Expr.name x).infer i Γ) s ((Expr.name x).infer (r.session i) Γ') s'
      fun ty ty' _ _ => r.Maps ty ty' := by
  have hrel := hr.scope x
  rw [Expr.infer, Expr.infer]
  cases hx : Γ.scope.get? x with
  | some u =>
    rw [hx] at hrel
    cases hx' : Γ'.scope.get? x with
    | some u' =>
      rw [hx'] at hrel
      cases hrel with
      | some hends =>
        exact (inStep_freshInstance h hr.sharing hends (hr.within.scope x u hx)
          (hr.within'.scope x u' hx')).relax
    | none =>
      rw [hx'] at hrel
      cases hrel
  | none =>
    rw [hx] at hrel
    cases hx' : Γ'.scope.get? x with
    | some u' =>
      rw [hx'] at hrel
      cases hrel
    | none =>
      dsimp only
      by_cases hn : isInteger x
      · rw [if_pos hn]
        exact .pure h (.int r)
      · rw [if_neg hn]
        refine (inStep_note h fun _ => rfl).bind fun _ _ t t' hadv _ => ?_
        exact .throw hadv.parallel (.undefinedName x)

/-! ## all expressions -/

theorem inStep_infer (e : Expr) (h : Parallel r s s') (hr : Ready r s s' Γ Γ' i) :
    InStep r out (e.infer i Γ) s (e.infer (r.session i) Γ') s' fun ty ty' _ _ => r.Maps ty ty' := by
  induction e generalizing Γ Γ' s s' with
  | name x => exact inStep_name x h hr
  | fn p body ih =>
    rw [Expr.infer, Expr.infer]
    refine (inStep_newTy h hr.sharing.session_lt hr.sharing.own).bind ?_
    rintro v v' t t' hadv ⟨rfl, hv, hg'⟩
    have hr₁ := (hr.later h hadv hg').bindFixed hadv.parallel p hv (.var r v)
    refine (ih hadv.parallel hr₁).bind fun b b' u u' hadv' hb => ?_
    exact (inStep_newFunc hadv'.parallel (.var r v) hb).mono fun _ _ _ _ _ hX => hX.1
  | app func arg ihf iha =>
    rw [Expr.infer, Expr.infer]
    refine ((ihf h hr).part h hr).bind ?_
    rintro f f' t₁ t₁' hadv₁ ⟨hff', hf, hg₁'⟩
    have hp₁ := hadv₁.parallel
    have hr₁ := hr.later h hadv₁ hg₁'
    refine ((iha hp₁ hr₁).part hp₁ hr₁).bind ?_
    rintro a a' t₂ t₂' hadv₂ ⟨haa', ha, hg₂'⟩
    have hp₂ := hadv₂.parallel
    have hr₂ := hr₁.later hp₁ hadv₂ hg₂'
    refine (inStep_newTy hp₂ hr₂.sharing.session_lt hr₂.sharing.own).bind ?_
    rintro v v' t₃ t₃' hadv₃ ⟨rfl, hv, -⟩
    have hp₃ := hadv₃.parallel
    refine (inStep_newFunc hp₃ haa' (.var r v)).bind ?_
    rintro w w' t₄ t₄' hadv₄ ⟨hww', hw⟩
    have hp₄ := hadv₄.parallel
    have hf₄ := hadv₄.stays.shows hp₃ (hadv₃.stays.shows hp₂ (hadv₂.stays.shows hp₁ hf))
    have ha₄ := hadv₄.stays.shows hp₃ (hadv₃.stays.shows hp₂ ha)
    have hw₄ := hw ha₄ (hadv₄.stays.shows hp₃ hv)
    refine (inStep_unify hp₄ hw₄ hf₄ hww' hff').bind fun _ _ t₅ t₅' hadv₅ _ => ?_
    exact .pure hadv₅.parallel (.var r v)
  | letIn x value body ihv ihb =>
    rw [Expr.infer, Expr.infer]
    refine ((ihv h hr).part h hr).bind ?_
    rintro u u' t t' hadv ⟨huu', hu, hg'⟩
    have hp₁ := hadv.parallel
    have hr₁ := hr.later h hadv hg'
    exact ihb hp₁ (hr₁.bindGeneric x hu.has (hp₁.has huu' hu.has) (hp₁.maps_last huu'))
  | letRec x value body ihv ihb =>
    rw [Expr.infer, Expr.infer]
    refine (inStep_newTy h hr.sharing.session_lt hr.sharing.own).bind ?_
    rintro v v' t₁ t₁' hadv₁ ⟨rfl, hv, hg₁'⟩
    have hp₁ := hadv₁.parallel
    have hr₁ := hr.later h hadv₁ hg₁'
    have hr₁' := hr₁.bindFixed hp₁ x hv (.var r v)
    refine ((ihv hp₁ hr₁').part hp₁ hr₁').bind ?_
    rintro u u' t₂ t₂' hadv₂ ⟨huu', hu, hg₂'⟩
    have hp₂ := hadv₂.parallel
    have hv₂ := hadv₂.stays.shows hp₁ hv
    refine (inStep_equate hp₂ hv₂ hu (.var r v) huu').bind fun _ _ t₃ t₃' hadv₃ hg₃' => ?_
    have hp₃ := hadv₃.parallel
    have hv₃ := (hadv₃.stays.shows hp₂ hv₂).has
    have hr₃ := (hr₁.later hp₁ hadv₂ hg₂').later hp₂ hadv₃ hg₃'
    exact ihb hp₃ (hr₃.bindGeneric x hv₃ (hp₃.has (.var r v) hv₃) (hp₃.last v))

/-! ## whole expressions -/

variable {scope : Scope Ty} {session : Option Nat}

structure Start (r : Renaming) (s : Store) (scope : Scope Ty) (session : Option Nat) : Prop where
  within : scope.Within s
  maps : ∀ x t, scope.get? x = some t → r.Maps t t
  session : ∀ i ∈ session, i < s.sessions.size ∧ i ∈ r.own

theorem Start.ready (h : Start r s scope session) (hp : Parallel r s s') (hi : i < s.sessions.size)
    (hown : i ∈ r.own) : Ready r s s' { scope } { scope } i :=
  .of_self hp h.within.context h.maps nofun nofun hi hown

theorem Start.later (h : Start r s scope session) (hadv : Advance r s t t') :
    Start r t scope session where
  within x u hx := hadv.stays.binds.grows.has (h.within x u hx)
  maps := h.maps
  session i hi := (h.session i hi).imp_left fun hlt =>
    hlt.trans_le hadv.stays.binds.grows.sessions

theorem inStep_ownSession (h : Parallel r s s') (hst : Start r s scope session) :
    InStep r out (ownSession session) s (ownSession (session.map r.session)) s' fun i i' t _ =>
      i' = r.session i ∧ i ∈ r.own ∧ i < t.sessions.size := by
  cases session with
  | some i => exact .pure h ⟨rfl, (hst.session i rfl).2, (hst.session i rfl).1⟩
  | none => exact inStep_newSession firstName h

theorem inStep_inferType (e : Expr) (h : Parallel r s s') (hst : Start r s scope session) :
    InStep r out (e.inferType scope session) s (e.inferType scope (session.map r.session)) s'
      fun ty ty' t _ => r.Maps ty ty' ∧ r.Shows t ty := by
  rw [inferType_eq, inferType_eq]
  refine (inStep_ownSession h hst).bind fun i i' t t' hadv ⟨hi', hown, hi⟩ => ?_
  subst hi'
  have hr := (hst.later hadv).ready hadv.parallel hi hown
  refine ((inStep_infer e hadv.parallel hr).part hadv.parallel hr).bind
    fun u u' w w' hadv' ⟨huu', hu, _⟩ => ?_
  refine (inStep_note hadv'.parallel fun hx => by rw [huu'.eq_of_exact hx]).bind
    fun _ _ y y' hadv'' _ => ?_
  exact .pure hadv''.parallel ⟨huu', hadv''.stays.shows hadv'.parallel hu⟩

end LetPoly
