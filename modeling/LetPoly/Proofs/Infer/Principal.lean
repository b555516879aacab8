import LetPoly.Proofs.Infer.Context
import LetPoly.Proofs.Store.Instance

/-!
# Inference finds principal types

`infers` says what `Expr.infer` does, by induction on the expression.  If it returns a type, the
type is derivable in the environment afterwards, and for every solution of the store before, all
types derivable under it come from solutions of the store afterwards (`Typed`).  If it fails, no
solution of the store before makes the expression typable (`Untyped`).  Either way only vars that
are free in the environment have been bound, besides new ones.

For each kind of expression, `Typed` and `Untyped` are put together from those of its parts.
-/

namespace LetPoly

open StoreM

/-- how inference may fail -/
def Rejection (f : Failure) (s' : Store) : Prop :=
  Ty.Refusal f s' ∨ ∃ x, f = .problem (.undefinedName x)

/-- `t` in `s'` is what there is to know of the types of `e` in `s` -/
structure Typed (Γ : Context) (e : Expr) (s : Store) (t : Ty) (s' : Store) : Prop where
  binds : Binds (Γ.env s).freeVars s s'
  result : Over (Γ.env s).freeVars s s' t
  derivable : HasType (Γ.env s') e (s'.resolve t)
  principal : ∀ σ u, s.Solution σ → HasType ((Γ.env s).replace σ) e u →
    ∃ σ', Agrees s σ σ' ∧ s'.Solution σ' ∧ t.term.subst σ' = u

/-- `e` has no type in `s`, whatever the unbound vars stand for -/
structure Untyped (Γ : Context) (e : Expr) (s : Store) (f : Failure) (s' : Store) : Prop where
  binds : Binds (Γ.env s).freeVars s s'
  underivable : ∀ σ u, s.Solution σ → ¬ HasType ((Γ.env s).replace σ) e u
  rejection : Rejection f s'

def Infers (Γ : Context) (e : Expr) (s : Store) (act : StoreM Ty) : Prop :=
  Ends act s (Typed Γ e s) (Untyped Γ e s)

variable {Γ : Context} {s s₁ s₂ s₃ s₄ s₅ : Store} {σ σ' : Var → Term Var} {u : Term Var}
  {f : Failure} {v : Var} {x : String}

/-! ## operators -/

theorem term_func (k : Nat) (a r : Ty) :
    (Ty.op k Ty.funcName [a, r]).term = Term.func a.term r.term := by
  rw [Ty.term_op]
  rfl

theorem resolve_func (s : Store) (k : Nat) (a r : Ty) :
    s.resolve (.op k Ty.funcName [a, r]) = Term.func (s.resolve a) (s.resolve r) := by
  rw [Store.resolve_op]
  rfl

theorem has_func {k : Nat} {a r : Ty} (ha : s.Has a) (hr : s.Has r) :
    s.Has (.op k Ty.funcName [a, r]) := by
  rw [Store.has_op]
  simp [ha, hr]

theorem Over.func {E : Set Var} {k : Nat} {a r : Ty} (ha : Over E s s₁ a) (hr : Over E s s₁ r) :
    Over E s s₁ (.op k Ty.funcName [a, r]) := by
  refine ⟨has_func ha.has hr.has, fun w hw => ?_⟩
  rw [resolve_func, Term.func, Term.mem_vars_op] at hw
  simp only [List.mem_cons, List.not_mem_nil, or_false, exists_eq_or_imp, exists_eq_left] at hw
  exact hw.elim (ha.vars w) (hr.vars w)

/-! ## names -/

theorem instance_resolve {N : Set Var} {t t' : Ty} {ρ : Var → Var} (h : Ty.Instance s N t t' s₁ ρ)
    (hs : s.Sound) : s₁.resolve t' = (s.resolve t).subst fun w => .var (ρ w) := by
  rw [Store.resolve, h.term_eq, Term.subst_subst]
  apply Term.subst_congr
  intro w hw
  rw [Term.subst_var, h.keeps.value_eq hs.acyclic]
  refine Store.value_of_unbound ?_
  by_cases hN : w ∈ N
  · rw [h.keep w hN]
    exact hs.acyclic.unbound_of_mem hw
  · exact Store.binding?_of_not_made (h.not_made w hw hN)

/-- any terms can be given to the new vars of an instance -/
theorem instance_agrees {N : Set Var} {t t' : Ty} {ρ : Var → Var} (h : Ty.Instance s N t t' s₁ ρ)
    (hs : s.Sound) (ht : s.Has t) (σ ρ' : Var → Term Var) :
    ∃ σ', Agrees s σ σ' ∧ t'.term.subst σ'
      = ((Scheme.close N (s.resolve t)).replace σ).instantiate ρ' := by
  classical
  let New : Var → Var → Prop := fun w w₀ => w₀ ∈ (s.resolve t).vars ∧ w₀ ∉ N ∧ ρ w₀ = w
  let σ' : Var → Term Var := fun w => if hw : ∃ w₀, New w w₀ then ρ' hw.choose else σ w
  have hold : Agrees s σ σ' := by
    intro w hw
    refine dif_neg ?_
    rintro ⟨w₀, hw₀, hN, rfl⟩
    exact h.not_made w₀ hw₀ hN hw
  refine ⟨σ', hold, ?_⟩
  rw [h.term_eq, Term.subst_subst, Scheme.instantiate_replace_close]
  apply Term.subst_congr
  intro w hw
  rw [Term.subst_var]
  by_cases hN : w ∈ N
  · rw [if_pos hN, h.keep w hN]
    exact hold w (hs.made_of_mem ht hw)
  · have hex : ∃ w₀, New (ρ w) w₀ := ⟨w, hw, hN, rfl⟩
    obtain ⟨hc, hcN, hceq⟩ := hex.choose_spec
    rw [if_neg hN]
    refine (dif_pos hex).trans ?_
    rw [h.inj _ hc w hw hcN hN hceq]

theorem Typed.name {t t' : Ty} {ρ : Var → Var} (hs : s.Sound) (hΓ : Γ.Within s)
    (hx : Γ.scope.get? x = some t) (h : Ty.Instance s (s.varsOf Γ.nonGeneric) t t' s₁ ρ) :
    Typed Γ (.name x) s t' s₁ where
  binds := .of_keeps h.keeps hs
  result := by
    refine ⟨h.has, fun w hw => ?_⟩
    rw [instance_resolve h hs, Term.mem_vars_subst] at hw
    obtain ⟨w₀, hw₀, hw⟩ := hw
    rw [Term.vars_var, List.mem_singleton] at hw
    subst hw
    by_cases hN : w₀ ∈ s.varsOf Γ.nonGeneric
    · rw [h.keep w₀ hN]
      exact Store.mem_orNew_of_mem (Context.mem_freeVars_env.2 ⟨hN, x, t, hx, hw₀⟩)
    · exact Store.mem_orNew_of_not_made (h.not_made w₀ hw₀ hN)
  derivable := by
    classical
    rw [Context.env_keeps h.keeps hs.acyclic]
    refine .name (Context.env_of_some hx) ⟨fun w => .var (ρ w), ?_⟩
    rw [Scheme.instantiate_close, instance_resolve h hs]
    apply Term.subst_congr
    intro w _
    by_cases hN : w ∈ s.varsOf Γ.nonGeneric
    · rw [if_pos hN, h.keep w hN]
    · rw [if_neg hN]
  principal := by
    intro σ u hσ hu
    have henv : (Γ.env s).replace σ x
        = some ((Scheme.close (s.varsOf Γ.nonGeneric) (s.resolve t)).replace σ) := by
      rw [Env.replace, Context.env_of_some hx, Option.map_some]
    cases hu with
    | name hτ ht =>
      rw [henv] at hτ
      cases hτ
      obtain ⟨ρ', rfl⟩ := ht
      obtain ⟨σ', ha, heq⟩ := instance_agrees h hs (hΓ.scope x t hx) σ ρ'
      exact ⟨σ', ha, (h.keeps.solution σ').2 (ha.solution hs hσ), heq⟩
    | numeral hnone _ =>
      rw [henv] at hnone
      cases hnone

theorem replace_env_none (hx : Γ.scope.get? x = none) (σ : Var → Term Var) :
    (Γ.env s).replace σ x = none := by
  rw [Env.replace, Context.env_of_none hx, Option.map_none]

theorem Typed.numeral (hs : s.Sound) (hx : Γ.scope.get? x = none) (hn : IsNumeral x) :
    Typed Γ (.name x) s .int s where
  binds := .refl hs
  result := ⟨⟨rfl, nofun⟩, nofun⟩
  derivable := .numeral (Context.env_of_none hx) hn
  principal := by
    intro σ u hσ hu
    cases hu with
    | name hτ _ =>
      rw [replace_env_none hx] at hτ
      cases hτ
    | numeral _ _ => exact ⟨σ, .refl s σ, hσ, rfl⟩

theorem Untyped.name (hs : s.Sound) (hx : Γ.scope.get? x = none) (hn : ¬ IsNumeral x)
    (hk : s.Keeps s₁) : Untyped Γ (.name x) s (.problem (.undefinedName x)) s₁ where
  binds := .of_keeps hk hs
  underivable := by
    intro σ u _ hu
    cases hu with
    | name hτ _ =>
      rw [replace_env_none hx] at hτ
      cases hτ
    | numeral _ hn' => exact hn hn'
  rejection := .inr ⟨x, rfl⟩

/-! ## functions -/

/-- a parameter may have any type `a`, which its var then stands for -/
theorem param_typable (hv : Fresh s s₁ v) (hs : s.Sound) (hΓ : Γ.Within s) (hσ : s.Solution σ)
    (x : String) (a : Term Var) :
    ∃ σ₁, Agrees s σ σ₁ ∧ s₁.Solution σ₁ ∧ σ₁ v = a ∧
      ((Γ.bindFixed x (.var v)).env s₁).replace σ₁
        = ((Γ.env s).replace σ).bind x (Scheme.mono a) := by
  have ha : Agrees s σ (Function.update σ v a) := .update hv.not_made σ a
  have hself : Function.update σ v a v = a := Function.update_self v a σ
  refine ⟨Function.update σ v a, ha, (hv.keeps.solution _).2 (ha.solution hs hσ), hself, ?_⟩
  rw [Context.env_bindFixed hΓ hs hv, Env.replace_bind, Scheme.replace_mono, Term.subst_var, hself,
    ha.env_eq hs hΓ]

theorem Typed.fn {body : Expr} {r : Ty} {k : Nat} (hs : s.Sound) (hΓ : Γ.Within s)
    (hv : Fresh s s₁ v) (h : Typed (Γ.bindFixed x (.var v)) body s₁ r s₂) (hq : s₂.Keeps s₃) :
    Typed Γ (.fn x body) s (.op k Ty.funcName [.var v, r]) s₃ := by
  have hE := hΓ.free_bindFixed_subset hs hv x
  have hs₁ : Binds (Γ.env s).freeVars s s₁ := .of_keeps hv.keeps hs
  have hb₂ : Binds (Γ.env s).freeVars s s₂ := hs₁.trans h.binds hE
  exact {
    binds := hb₂.keeps hq
    result := by
      have ho : Over (Γ.env s).freeVars s s₂ (.var v) :=
        (Over.of_fresh (.refl hs) hv).later hs₁ h.binds hE
      exact (ho.func (h.result.widen (hv.keeps.grows hs) hE)).keeps hq hb₂.sound
    derivable := by
      rw [Context.env_keeps hq hb₂.sound.acyclic, resolve_func, hq.resolve_eq hb₂.sound.acyclic,
        hq.resolve_eq hb₂.sound.acyclic]
      refine .fn ?_
      rw [Store.resolve_var, ← h.binds.env_bindFixed hb₂ hv hs hΓ]
      exact h.derivable
    principal := by
      intro σ u hσ hu
      cases hu with
      | @fn _ _ _ a t hbody =>
        obtain ⟨σ₁, ha₁, hσ₁, hva, henv⟩ := param_typable hv hs hΓ hσ x a
        obtain ⟨σ₂, ha₂, hσ₂, ht⟩ := h.principal σ₁ t hσ₁ (henv ▸ hbody)
        refine ⟨σ₂, ha₁.trans ha₂ hv.keeps.made, (hq.solution σ₂).2 hσ₂, ?_⟩
        rw [term_func, Term.subst_func, Ty.term_var, Term.subst_var, ha₂ v hv.made, hva, ht] }

theorem Untyped.fn {body : Expr} (hs : s.Sound) (hΓ : Γ.Within s) (hv : Fresh s s₁ v)
    (h : Untyped (Γ.bindFixed x (.var v)) body s₁ f s₂) : Untyped Γ (.fn x body) s f s₂ where
  binds := (Binds.of_keeps hv.keeps hs).trans h.binds (hΓ.free_bindFixed_subset hs hv x)
  underivable := by
    intro σ u hσ hu
    cases hu with
    | @fn _ _ _ a t hbody =>
      obtain ⟨σ₁, -, hσ₁, -, henv⟩ := param_typable hv hs hΓ hσ x a
      exact h.underivable σ₁ t hσ₁ (henv ▸ hbody)
  rejection := h.rejection

/-! ## applications -/

theorem Typed.solution_later {e e' : Expr} {t : Ty} {u' : Term Var} (hs : s.Sound) (hΓ : Γ.Within s)
    (h : Typed Γ e s t s₁) (hσ : s.Solution σ) (hu : HasType ((Γ.env s).replace σ) e u)
    (hu' : HasType ((Γ.env s).replace σ) e' u') :
    ∃ σ₁, Agrees s σ σ₁ ∧ s₁.Solution σ₁ ∧ t.term.subst σ₁ = u ∧
      HasType ((Γ.env s₁).replace σ₁) e' u' := by
  obtain ⟨σ₁, ha₁, hσ₁, ht⟩ := h.principal σ u hσ hu
  exact ⟨σ₁, ha₁, hσ₁, ht, (h.binds.replace_solution hs hΓ ha₁ hσ₁).symm ▸ hu'⟩

/-- a typable application solves its equation -/
theorem app_typable {func arg : Expr} {t a : Ty} (hs : s.Sound) (hΓ : Γ.Within s)
    (hf : Typed Γ func s t s₁) (ha : Typed Γ arg s₁ a s₂) (hv : Fresh s₂ s₃ v) (hσ : s.Solution σ)
    (hu : HasType ((Γ.env s).replace σ) (.app func arg) u) :
    ∃ σ', Agrees s σ σ' ∧ s₃.Solution σ' ∧ σ' v = u ∧
      Term.func (a.term.subst σ') (σ' v) = t.term.subst σ' := by
  cases hu with
  | @app _ _ _ a' _ hfunc harg =>
    obtain ⟨σ₁, ha₁, hσ₁, ht, harg₁⟩ := hf.solution_later hs hΓ hσ hfunc harg
    obtain ⟨σ₂, ha₂, hσ₂, haa⟩ := ha.principal σ₁ a' hσ₁ harg₁
    have ha₃ : Agrees s₂ σ₂ (Function.update σ₂ v u) := .update hv.not_made σ₂ u
    have hself : Function.update σ₂ v u v = u := Function.update_self v u σ₂
    have hg₂ := ha.binds.grows
    refine ⟨Function.update σ₂ v u, (ha₁.trans ha₂ hf.binds.grows.made).trans ha₃
      (hf.binds.grows.trans hg₂).made, ?_, hself, ?_⟩
    · exact (hv.keeps.solution _).2 (ha₃.solution ha.binds.sound hσ₂)
    · rw [ha₃.subst_eq ha.result.has, ha₃.subst_eq (hg₂.has hf.result.has), haa, hself,
        ha₂.subst_eq hf.result.has, ht]

/-- up to its equation, an application has done what its function and its argument do -/
theorem app_over {func arg : Expr} {t a : Ty} (k : Nat) (hs : s.Sound) (hΓ : Γ.Within s)
    (hf : Typed Γ func s t s₁) (ha : Typed Γ arg s₁ a s₂) (hv : Fresh s₂ s₃ v)
    (hq : s₃.Keeps s₄) :
    Binds (Γ.env s).freeVars s s₄ ∧ Over (Γ.env s).freeVars s s₄ t ∧
      Over (Γ.env s).freeVars s s₄ (.op k Ty.funcName [a, .var v]) := by
  have hE := hf.binds.free_subset hs hΓ
  have hb₂ := hf.binds.trans ha.binds hE
  have hk := hv.keeps.trans hq
  have ho : Over (Γ.env s).freeVars s s₃ (.var v) := .of_fresh hb₂.grows hv
  have hoa := (ha.result.widen hf.binds.grows hE).keeps hk hb₂.sound
  refine ⟨hb₂.keeps hk, (hf.result.later hf.binds ha.binds hE).keeps hk hb₂.sound, ?_⟩
  exact hoa.func (ho.keeps hq (hv.keeps.sound hb₂.sound))

theorem Typed.app {func arg : Expr} {t a : Ty} {k : Nat} (hs : s.Sound) (hΓ : Γ.Within s)
    (hf : Typed Γ func s t s₁) (ha : Typed Γ arg s₁ a s₂) (hv : Fresh s₂ s₃ v)
    (hq : s₃.Keeps s₄) (hu : Ty.Equated s₄ (.op k Ty.funcName [a, .var v]) t s₅) :
    Typed Γ (.app func arg) s (.var v) s₅ := by
  obtain ⟨hb₄, hot, hol⟩ := app_over k hs hΓ hf ha hv hq
  have hE := hol.varsOf_subset hot
  have hu₅ : Binds (s₄.varsOf [_, t]) s₄ s₅ := ⟨hu.grows, hu.touches⟩
  have hb₅ := hb₄.trans hu₅ hE
  have hb₂ := hf.binds.trans ha.binds (hf.binds.free_subset hs hΓ)
  have hg₂ : s₂.Grows s₅ := ((hv.keeps.trans hq).grows hb₂.sound).trans hu.grows
  have heq : Term.func (s₅.resolve a) (s₅.value v) = s₅.resolve t := by
    rw [← Store.resolve_var, ← resolve_func s₅ k]
    exact ((hu.solution _).1 hb₅.sound.acyclic.value_solution).2
  exact {
    binds := hb₅
    result := by
      have ho : Over (Γ.env s).freeVars s s₄ (.var v) :=
        (Over.of_fresh hb₂.grows hv).keeps hq (hv.keeps.sound hb₂.sound)
      exact ho.later hb₄ hu₅ hE
    derivable := by
      have hfunc := hf.derivable.later hs hΓ hf.binds hb₅ (ha.binds.grows.trans hg₂)
      have harg := ha.derivable.later hs hΓ hb₂ hb₅ hg₂
      rw [← heq] at hfunc
      exact .app hfunc harg
    principal := by
      intro σ u hσ hu'
      obtain ⟨σ', hag, hσ', hvu, heq'⟩ := app_typable hs hΓ hf ha hv hσ hu'
      refine ⟨σ', hag, (hu.solution σ').2 ⟨(hq.solution σ').2 hσ', ?_⟩, hvu⟩
      rw [term_func, Term.subst_func]
      exact heq' }

/-- the equation of an application has no solution -/
theorem Untyped.app {func arg : Expr} {t a : Ty} {k : Nat} (hs : s.Sound) (hΓ : Γ.Within s)
    (hf : Typed Γ func s t s₁) (ha : Typed Γ arg s₁ a s₂) (hv : Fresh s₂ s₃ v)
    (hq : s₃.Keeps s₄) (hu : Ty.Refused s₄ (.op k Ty.funcName [a, .var v]) t f s₅) :
    Untyped Γ (.app func arg) s f s₅ where
  binds := by
    obtain ⟨hb₄, hot, hol⟩ := app_over k hs hΓ hf ha hv hq
    exact hb₄.trans ⟨hu.grows, hu.touches⟩ (hol.varsOf_subset hot)
  underivable := by
    intro σ u hσ hu'
    obtain ⟨σ', -, hσ', -, heq⟩ := app_typable hs hΓ hf ha hv hσ hu'
    refine hu.unsolvable σ' ((hq.solution σ').2 hσ') ?_
    rw [term_func, Term.subst_func]
    exact heq
  rejection := .inl hu.refusal

theorem Untyped.app_func {func arg : Expr} (h : Untyped Γ func s f s₁) :
    Untyped Γ (.app func arg) s f s₁ where
  binds := h.binds
  underivable := by
    intro σ u hσ hu
    cases hu with
    | app hfunc _ => exact h.underivable σ _ hσ hfunc
  rejection := h.rejection

theorem Untyped.app_arg {func arg : Expr} {t : Ty} (hs : s.Sound) (hΓ : Γ.Within s)
    (hf : Typed Γ func s t s₁) (h : Untyped Γ arg s₁ f s₂) : Untyped Γ (.app func arg) s f s₂ where
  binds := hf.binds.trans h.binds (hf.binds.free_subset hs hΓ)
  underivable := by
    intro σ u hσ hu
    cases hu with
    | app hfunc harg =>
      obtain ⟨σ₁, -, hσ₁, -, harg₁⟩ := hf.solution_later hs hΓ hσ hfunc harg
      exact h.underivable σ₁ _ hσ₁ harg₁
  rejection := h.rejection

/-! ## local definitions -/

/-- in the body, a definition has all instances that the rules give it -/
theorem body_typable {body : Expr} {t : Ty} (hs : s.Sound) (hΓ : Γ.Within s)
    (hb : Binds (Γ.env s).freeVars s s₁) (ho : Over (Γ.env s).freeVars s s₁ t)
    (ha : Agrees s σ σ') (hσ' : s₁.Solution σ')
    (hu : HasType
      (((Γ.env s).replace σ).bind x (((Γ.env s).replace σ).generalise (t.term.subst σ'))) body u) :
    HasType (((Γ.bindGeneric x t).env s₁).replace σ') body u := by
  rw [hb.env_bindGeneric hs hΓ ho, Env.replace_bind, hb.replace_solution hs hΓ ha hσ']
  refine hu.of_below ((Env.Below.refl _).bind ?_ x)
  have h := Env.below_generalise (Γ.env s₁) σ' (s₁.resolve t)
  rwa [hb.replace_solution hs hΓ ha hσ', hσ'.subst_resolve hb.sound.acyclic] at h

theorem Typed.letIn {value body : Expr} {t r : Ty} (hs : s.Sound) (hΓ : Γ.Within s)
    (hv : Typed Γ value s t s₁) (hb : Typed (Γ.bindGeneric x t) body s₁ r s₂) :
    Typed Γ (.letIn x value body) s r s₂ := by
  have hE := hv.binds.free_bindGeneric_subset hs hΓ hv.result x
  have hb₂ := hv.binds.trans hb.binds hE
  exact {
    binds := hb₂
    result := hb.result.widen hv.binds.grows hE
    derivable := by
      have hbody := hb.derivable
      rw [hb₂.env_bindGeneric hs hΓ (hv.result.later hv.binds hb.binds hE)] at hbody
      exact .letIn (hv.derivable.later hs hΓ hv.binds hb₂ hb.binds.grows) hbody
    principal := by
      intro σ u hσ hu
      cases hu with
      | letIn hvalue hbody =>
        obtain ⟨σ₁, ha₁, hσ₁, rfl⟩ := hv.principal σ _ hσ hvalue
        have hbody₁ := body_typable hs hΓ hv.binds hv.result ha₁ hσ₁ hbody
        obtain ⟨σ₂, ha₂, hσ₂, hr⟩ := hb.principal σ₁ u hσ₁ hbody₁
        exact ⟨σ₂, ha₁.trans ha₂ hv.binds.grows.made, hσ₂, hr⟩ }

theorem Untyped.letIn_value {value body : Expr} (h : Untyped Γ value s f s₁) :
    Untyped Γ (.letIn x value body) s f s₁ where
  binds := h.binds
  underivable := by
    intro σ u hσ hu
    cases hu with
    | letIn hvalue _ => exact h.underivable σ _ hσ hvalue
  rejection := h.rejection

theorem Untyped.letIn_body {value body : Expr} {t : Ty} (hs : s.Sound) (hΓ : Γ.Within s)
    (hv : Typed Γ value s t s₁) (h : Untyped (Γ.bindGeneric x t) body s₁ f s₂) :
    Untyped Γ (.letIn x value body) s f s₂ where
  binds := hv.binds.trans h.binds (hv.binds.free_bindGeneric_subset hs hΓ hv.result x)
  underivable := by
    intro σ u hσ hu
    cases hu with
    | letIn hvalue hbody =>
      obtain ⟨σ₁, ha₁, hσ₁, rfl⟩ := hv.principal σ _ hσ hvalue
      exact h.underivable σ₁ u hσ₁ (body_typable hs hΓ hv.binds hv.result ha₁ hσ₁ hbody)
  rejection := h.rejection

/-! ## recursive definitions -/

/-- the value of a recursive definition and its target may be unified -/
theorem rec_binds {value : Expr} {t : Ty} (hs : s.Sound) (hv : Fresh s s₁ v)
    (h : Typed (Γ.bindFixed x (.var v)) value s₁ t s₂) (hn : Ty.Narrows s₂ (.var v) t s₃) :
    Binds ((Γ.bindFixed x (.var v)).env s₁).freeVars s₁ s₃ := by
  have hs₁ : s₁.Sound := hv.keeps.sound hs
  have hself : Over ((Γ.bindFixed x (.var v)).env s₁).freeVars s₁ s₁ (.var v) := by
    refine ⟨Store.has_var.2 hv.made, fun w hw => Store.mem_orNew_of_mem ?_⟩
    refine ⟨x, _, Context.env_bindFixed_self, ?_⟩
    rwa [Scheme.freeVars_mono]
  have hself₂ := hself.later (.refl hs₁) h.binds fun _ hw => Store.mem_orNew_of_mem hw
  exact h.binds.trans ⟨hn.grows, hn.touches⟩ (hself₂.varsOf_subset h.result)

/-- what is free in the body of a recursive definition is free in its value, or new -/
theorem rec_free_subset (hs : s.Sound) (hΓ : Γ.Within s) (hv : Fresh s s₁ v)
    (hb : Binds ((Γ.bindFixed x (.var v)).env s₁).freeVars s₁ s₂) :
    ((Γ.bindGeneric x (.var v)).env s₂).freeVars ⊆
      s₁.orNew ((Γ.bindFixed x (.var v)).env s₁).freeVars := by
  have hΓ₁ := (hΓ.mono hv.keeps.made).bindFixed x (Store.has_var.2 hv.made)
  exact (Γ.free_bindGeneric_subset_bindFixed s₂ x (.var v)).trans
    (hb.free_subset (hv.keeps.sound hs) hΓ₁)

/-- a typable recursive definition solves its equation -/
theorem rec_typable {value body : Expr} {t : Ty} (hs : s.Sound) (hΓ : Γ.Within s)
    (hv : Fresh s s₁ v) (h : Typed (Γ.bindFixed x (.var v)) value s₁ t s₂) (hσ : s.Solution σ)
    (hu : HasType ((Γ.env s).replace σ) (.letRec x value body) u) :
    ∃ σ', Agrees s σ σ' ∧ s₂.Solution σ' ∧ σ' v = t.term.subst σ' ∧
      HasType (((Γ.env s).replace σ).bind x (((Γ.env s).replace σ).generalise (σ' v))) body u := by
  cases hu with
  | @letRec _ _ _ _ t' _ hvalue hbody =>
    obtain ⟨σ₁, ha₁, hσ₁, hvt, henv⟩ := param_typable hv hs hΓ hσ x t'
    obtain ⟨σ₂, ha₂, hσ₂, ht⟩ := h.principal σ₁ t' hσ₁ (henv ▸ hvalue)
    have hvt₂ : σ₂ v = t' := (ha₂ v hv.made).trans hvt
    exact ⟨σ₂, ha₁.trans ha₂ hv.keeps.made, hσ₂, hvt₂.trans ht.symm, hvt₂.symm ▸ hbody⟩

theorem Typed.letRec {value body : Expr} {t r : Ty} (hs : s.Sound) (hΓ : Γ.Within s)
    (hv : Fresh s s₁ v) (h : Typed (Γ.bindFixed x (.var v)) value s₁ t s₂)
    (hu : Ty.Equated s₂ (.var v) t s₃) (hb : Typed (Γ.bindGeneric x (.var v)) body s₃ r s₄) :
    Typed Γ (.letRec x value body) s r s₄ := by
  have hs₁ : s₁.Sound := hv.keeps.sound hs
  have hΓ₁ := (hΓ.mono hv.keeps.made).bindFixed x (Store.has_var.2 hv.made)
  have hE := hΓ.free_bindFixed_subset hs hv x
  have hk : Binds (Γ.env s).freeVars s s₁ := .of_keeps hv.keeps hs
  -- seen from the store of the value, where the target is free
  have hin₃ := rec_binds hs hv h hu.toNarrows
  have hfree := rec_free_subset hs hΓ hv hin₃
  have hin₄ := hin₃.trans hb.binds hfree
  -- seen from the store at the start
  have hb₃ := hk.trans hin₃ hE
  have hb₄ := hk.trans hin₄ hE
  have hself : Over (Γ.env s).freeVars s s₁ (.var v) := .of_fresh (.refl hs) hv
  have heq : s₄.resolve t = s₄.value v := by
    have heq₃ : s₃.resolve (.var v) = s₃.resolve t :=
      ((hu.solution _).1 hin₃.sound.acyclic.value_solution).2
    rw [← Store.resolve_var]
    exact (hb.binds.grows.resolve_congr hin₃.sound.acyclic heq₃).symm
  exact {
    binds := hb₄
    result := (hb.result.widen hin₃.grows hfree).widen hk.grows hE
    derivable := by
      have hvalue := h.derivable.later hs₁ hΓ₁ h.binds hin₄ (hu.grows.trans hb.binds.grows)
      rw [hin₄.env_bindFixed hb₄ hv hs hΓ, heq] at hvalue
      have hbody := hb.derivable
      rw [hb₄.env_bindGeneric hs hΓ (hself.later hk hin₄ hE)] at hbody
      exact .letRec hvalue hbody
    principal := by
      intro σ u hσ hu'
      obtain ⟨σ₂, ha₂, hσ₂, hvt, hbody⟩ := rec_typable hs hΓ hv h hσ hu'
      have hσ₃ : s₃.Solution σ₂ := (hu.solution σ₂).2 ⟨hσ₂, hvt⟩
      have hbody₃ := body_typable hs hΓ hb₃ (hself.later hk hin₃ hE) ha₂ hσ₃ hbody
      obtain ⟨σ₄, ha₄, hσ₄, hr⟩ := hb.principal σ₂ u hσ₃ hbody₃
      exact ⟨σ₄, ha₂.trans ha₄ hb₃.grows.made, hσ₄, hr⟩ }

theorem Untyped.letRec_value {value body : Expr} (hs : s.Sound) (hΓ : Γ.Within s)
    (hv : Fresh s s₁ v) (h : Untyped (Γ.bindFixed x (.var v)) value s₁ f s₂) :
    Untyped Γ (.letRec x value body) s f s₂ where
  binds := (Binds.of_keeps hv.keeps hs).trans h.binds (hΓ.free_bindFixed_subset hs hv x)
  underivable := by
    intro σ u hσ hu
    cases hu with
    | @letRec _ _ _ _ t' _ hvalue _ =>
      obtain ⟨σ₁, -, hσ₁, -, henv⟩ := param_typable hv hs hΓ hσ x t'
      exact h.underivable σ₁ t' hσ₁ (henv ▸ hvalue)
  rejection := h.rejection

theorem Untyped.letRec {value body : Expr} {t : Ty} (hs : s.Sound) (hΓ : Γ.Within s)
    (hv : Fresh s s₁ v) (h : Typed (Γ.bindFixed x (.var v)) value s₁ t s₂)
    (hu : Ty.Refused s₂ (.var v) t f s₃) : Untyped Γ (.letRec x value body) s f s₃ where
  binds := (Binds.of_keeps hv.keeps hs).trans (rec_binds hs hv h hu.toNarrows)
    (hΓ.free_bindFixed_subset hs hv x)
  underivable := by
    intro σ u hσ hu'
    obtain ⟨σ₂, -, hσ₂, hvt, -⟩ := rec_typable hs hΓ hv h hσ hu'
    exact hu.unsolvable σ₂ hσ₂ hvt
  rejection := .inl hu.refusal

theorem Untyped.letRec_body {value body : Expr} {t : Ty} (hs : s.Sound) (hΓ : Γ.Within s)
    (hv : Fresh s s₁ v) (h : Typed (Γ.bindFixed x (.var v)) value s₁ t s₂)
    (hu : Ty.Equated s₂ (.var v) t s₃) (hb : Untyped (Γ.bindGeneric x (.var v)) body s₃ f s₄) :
    Untyped Γ (.letRec x value body) s f s₄ := by
  have hE := hΓ.free_bindFixed_subset hs hv x
  have hk : Binds (Γ.env s).freeVars s s₁ := .of_keeps hv.keeps hs
  have hin₃ := rec_binds hs hv h hu.toNarrows
  have hself : Over (Γ.env s).freeVars s s₁ (.var v) := .of_fresh (.refl hs) hv
  exact {
    binds := hk.trans (hin₃.trans hb.binds (rec_free_subset hs hΓ hv hin₃)) hE
    underivable := by
      intro σ u hσ hu'
      obtain ⟨σ₂, ha₂, hσ₂, hvt, hbody⟩ := rec_typable hs hΓ hv h hσ hu'
      have hσ₃ : s₃.Solution σ₂ := (hu.solution σ₂).2 ⟨hσ₂, hvt⟩
      refine hb.underivable σ₂ u hσ₃ ?_
      exact body_typable hs hΓ (hk.trans hin₃ hE) (hself.later hk hin₃ hE) ha₂ hσ₃ hbody
    rejection := hb.rejection }

/-! ## all expressions -/

theorem infers {session : Nat} (e : Expr) (hs : s.Sound) (hΓ : Γ.Within s)
    (hi : session < s.sessions.size) : Infers Γ e s (e.infer session Γ) := by
  induction e generalizing Γ s with
  | name x =>
    rw [Infers, Expr.infer]
    split
    · next t hx =>
      refine (Ty.ends_freshInstance hs hΓ.nonGeneric hi (hΓ.scope x t hx)).mono ?_ nofun
      rintro t' s' ⟨ρ, h⟩
      exact .name hs hΓ hx h
    · next hx =>
      by_cases hn : isInteger x
      · rw [if_pos hn]
        exact Typed.numeral hs hx (isInteger_iff.1 hn)
      · rw [if_neg hn]
        refine (ends_note (.undefinedName x)).safe.bind fun _ s₁ hq => ?_
        exact Untyped.name hs hx (fun h => hn (isInteger_iff.2 h)) hq.toKeeps
  | fn p body ih =>
    rw [Infers, Expr.infer]
    refine (ends_newVar hi).safe.bind fun v s₁ hv => ?_
    have hΓ₁ := (hΓ.mono hv.keeps.made).bindFixed p (Store.has_var.2 hv.made)
    have hbody := ih (hv.keeps.sound hs) hΓ₁ (hi.trans_le hv.keeps.sessions)
    refine (hbody.error_mono fun _ _ h => h.fn hs hΓ hv).bind fun r s₂ hr => ?_
    refine (ends_newOp Ty.funcName [.var v, r]).mono ?_ nofun
    rintro _ s₃ ⟨rfl, hq⟩
    exact .fn hs hΓ hv hr hq.toKeeps
  | app func arg ihf iha =>
    rw [Infers, Expr.infer]
    refine ((ihf hs hΓ hi).error_mono fun _ _ h => h.app_func).bind fun t s₁ hf => ?_
    have hg₁ := hf.binds.grows
    have harg := iha hg₁.sound (hΓ.mono hg₁.made) (hi.trans_le hg₁.sessions)
    refine (harg.error_mono fun _ _ h => h.app_arg hs hΓ hf).bind fun a s₂ ha => ?_
    have hg₂ := hg₁.trans ha.binds.grows
    refine (ends_newVar (hi.trans_le hg₂.sessions)).safe.bind fun v s₃ hv => ?_
    refine (ends_newOp Ty.funcName [a, .var v]).safe.bind fun l s₄ ⟨hl, hq⟩ => ?_
    subst hl
    obtain ⟨hb₄, hot, hol⟩ := app_over s₃.nextMark hs hΓ hf ha hv hq.toKeeps
    refine ((Ty.ends_unify hb₄.sound hol.has hot.has).error_mono fun _ _ h =>
      .app hs hΓ hf ha hv hq.toKeeps h).bind fun _ s₅ hu => ?_
    exact Typed.app hs hΓ hf ha hv hq.toKeeps hu
  | letIn x value body ihv ihb =>
    rw [Infers, Expr.infer]
    refine ((ihv hs hΓ hi).error_mono fun _ _ h => h.letIn_value).bind fun t s₁ hv => ?_
    have hg₁ := hv.binds.grows
    have hbody := ihb hg₁.sound ((hΓ.mono hg₁.made).bindGeneric x hv.result.has)
      (hi.trans_le hg₁.sessions)
    exact hbody.mono (fun _ _ h => .letIn hs hΓ hv h) fun _ _ h => .letIn_body hs hΓ hv h
  | letRec x value body ihv ihb =>
    rw [Infers, Expr.infer]
    refine (ends_newVar hi).safe.bind fun v s₁ hv => ?_
    have hΓ₁ := (hΓ.mono hv.keeps.made).bindFixed x (Store.has_var.2 hv.made)
    have hi₁ := hi.trans_le hv.keeps.sessions
    refine ((ihv (hv.keeps.sound hs) hΓ₁ hi₁).error_mono fun _ _ h =>
      .letRec_value hs hΓ hv h).bind fun t s₂ ht => ?_
    have hg₂ := ht.binds.grows
    have hself : s₂.Has (.var v) := Store.has_var.2 (hg₂.made v hv.made)
    refine ((Ty.ends_unify hg₂.sound hself ht.result.has).error_mono fun _ _ h =>
      .letRec hs hΓ hv ht h).bind fun _ s₃ hu => ?_
    have hg₃ := hg₂.trans hu.grows
    have hΓ₃ := (hΓ.mono fun w hw => hg₃.made w (hv.keeps.made w hw)).bindGeneric x
      (Store.has_var.2 (hg₃.made v hv.made))
    exact (ihb hg₃.sound hΓ₃ (hi₁.trans_le hg₃.sessions)).mono
      (fun _ _ h => .letRec hs hΓ hv ht hu h) fun _ _ h => .letRec_body hs hΓ hv ht hu h

theorem Context.Usable.infers {i : Nat} (h : Γ.Usable i s) (e : Expr) :
    Infers Γ e s (e.infer i Γ) :=
  LetPoly.infers e h.sound h.within h.session_lt

end LetPoly
