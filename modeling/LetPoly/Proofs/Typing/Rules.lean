import LetPoly.Infer
import LetPoly.Proofs.Typing.Scheme

/-!
# The typing rules

`HasType Γ e t` is derivable if `e` may have the type `t` in the environment `Γ`.  A parameter has
one type in its body; both local definitions are generalised for the body, and a recursive one has
one type in its own value.

* `HasType.of_below`   a more general environment gives an expression more types;
* `HasType.subst`      types stay types when vars are replaced, in the environment as well.
-/

namespace LetPoly

def IsNumeral (x : String) : Prop := x ≠ "" ∧ ∀ c ∈ x.toList, '0' ≤ c ∧ c ≤ '9'

theorem isInteger_iff {x : String} : isInteger x ↔ IsNumeral x := by
  simp [isInteger, IsNumeral]

namespace Term

def int : Term Var := .op "int" []

def func (arg result : Term Var) : Term Var := .op Ty.funcName [arg, result]

theorem subst_func (σ : Var → Term Var) (a r : Term Var) :
    (func a r).subst σ = func (a.subst σ) (r.subst σ) := by
  rw [func, subst_op]
  rfl

end Term

open Scheme

inductive HasType : Env → Expr → Term Var → Prop where
  /-- a name has every instance of its scheme -/
  | name {Γ : Env} {x : String} {τ : Scheme} {t : Term Var} (hx : Γ x = some τ)
      (ht : τ.HasInstance t) : HasType Γ (.name x) t
  | numeral {Γ : Env} {x : String} (hx : Γ x = none) (hn : IsNumeral x) :
      HasType Γ (.name x) Term.int
  | fn {Γ : Env} {p : String} {body : Expr} {a r : Term Var}
      (hbody : HasType (Γ.bind p (mono a)) body r) : HasType Γ (.fn p body) (Term.func a r)
  | app {Γ : Env} {f e : Expr} {a r : Term Var} (hf : HasType Γ f (Term.func a r))
      (he : HasType Γ e a) : HasType Γ (.app f e) r
  | letIn {Γ : Env} {x : String} {value body : Expr} {t u : Term Var} (hvalue : HasType Γ value t)
      (hbody : HasType (Γ.bind x (Γ.generalise t)) body u) : HasType Γ (.letIn x value body) u
  | letRec {Γ : Env} {x : String} {value body : Expr} {t u : Term Var}
      (hvalue : HasType (Γ.bind x (mono t)) value t)
      (hbody : HasType (Γ.bind x (Γ.generalise t)) body u) : HasType Γ (.letRec x value body) u

namespace HasType

variable {Γ Γ₁ Γ₂ : Env} {e : Expr} {t : Term Var} {σ : Var → Term Var}

theorem of_below (h : HasType Γ₁ e t) (hΓ : Γ₁.Below Γ₂) : HasType Γ₂ e t := by
  induction h generalizing Γ₂ with
  | name hx ht =>
    obtain ⟨τ₂, hx₂, hτ⟩ := hΓ.of_some hx
    exact .name hx₂ (hτ _ ht)
  | numeral hx hn => exact .numeral (hΓ.eq_none_iff.1 hx) hn
  | fn _ ih => exact .fn (ih (hΓ.bind (.refl _) _))
  | app _ _ ihf ihe => exact .app (ihf hΓ) (ihe hΓ)
  | letIn _ _ ihv ihb => exact .letIn (ihv hΓ) (ihb (hΓ.bind (hΓ.generalise _) _))
  | letRec _ _ ihv ihb =>
    exact .letRec (ihv (hΓ.bind (.refl _) _)) (ihb (hΓ.bind (hΓ.generalise _) _))

/-! ## replacing vars -/

/-- renaming by a shift leaves any finite set of vars -/
theorem exists_fresh {S : Set Var} (hS : S.Finite) :
    ∃ φ : Var → Var, Function.Injective φ ∧ ∀ v, φ v ∉ S := by
  obtain ⟨N, hN⟩ := (hS.image Var.id).bddAbove
  refine ⟨fun v => ⟨v.session, v.id + N + 1⟩, fun v w h => ?_, fun v hv => ?_⟩
  · obtain ⟨i, k⟩ := v
    obtain ⟨j, l⟩ := w
    simp only [Var.mk.injEq] at h ⊢
    omega
  · have := hN (Set.mem_image_of_mem Var.id hv)
    simp only at this
    omega

/-- a definition may be generalised after a replacement as well as before, over all vars but finitely
many, if its generalised vars are renamed apart first -/
theorem exists_close_below {S : Set Var} (t : Term Var) (hS : S.Finite)
    (hΓ : (Γ.replace σ).freeVars ⊆ S) :
    ∃ σ', Γ.replace σ' = Γ.replace σ ∧
      ((Γ.generalise t).replace σ).Below (close S (t.subst σ')) := by
  classical
  obtain ⟨φ, hφ, hfresh⟩ := exists_fresh hS
  let σ' : Var → Term Var := fun v => if v ∈ Γ.freeVars then σ v else .var (φ v)
  have hin : ∀ v ∈ Γ.freeVars, σ' v = σ v := fun v hv => if_pos hv
  have hout : ∀ v ∉ Γ.freeVars, σ' v = .var (φ v) := fun v hv => if_neg hv
  refine ⟨σ', Env.replace_congr hin, ?_⟩
  rintro u ⟨ρ, rfl⟩
  refine ⟨fun w => if h : ∃ v, φ v = w then ρ h.choose else .var w, ?_⟩
  rw [Env.generalise, instantiate_replace_close, instantiate_close, Term.subst_subst]
  apply Term.subst_congr
  intro v _
  by_cases hv : v ∈ Γ.freeVars
  · rw [if_pos hv, hin v hv]
    refine Term.subst_eq_self fun w hw => if_pos ?_
    exact hΓ (Env.mem_freeVars_replace.2 ⟨v, hv, hw⟩)
  · have hex : ∃ w, φ w = φ v := ⟨v, rfl⟩
    rw [if_neg hv, hout v hv, Term.subst_var, if_neg (hfresh v), dif_pos hex, hφ hex.choose_spec]

theorem exists_generalise_below (t : Term Var) (hfin : (Γ.replace σ).freeVars.Finite) :
    ∃ σ', Γ.replace σ' = Γ.replace σ ∧
      ((Γ.generalise t).replace σ).Below ((Γ.replace σ).generalise (t.subst σ')) :=
  exists_close_below t hfin subset_rfl

theorem finite_bind {x : String} {τ : Scheme} (hΓ : Γ.freeVars.Finite) (hτ : τ.freeVars.Finite) :
    (Γ.bind x τ).freeVars.Finite :=
  (hτ.union hΓ).subset fun _ hv => Env.mem_freeVars_bind hv

theorem finite_mono (t : Term Var) : (mono t).freeVars.Finite := by
  rw [freeVars_mono]
  exact t.vars.finite_toSet

theorem finite_generalise (x : String) (t : Term Var) (hfin : (Γ.replace σ).freeVars.Finite) :
    ((Γ.bind x (Γ.generalise t)).replace σ).freeVars.Finite := by
  rw [Env.replace_bind]
  refine finite_bind hfin (hfin.subset fun v hv => ?_)
  obtain ⟨w, hw, hvw⟩ := mem_freeVars_replace.1 hv
  exact Env.mem_freeVars_replace.2 ⟨w, Env.freeVars_generalise_subset hw, hvw⟩

theorem subst (h : HasType Γ e t) (hfin : (Γ.replace σ).freeVars.Finite) :
    HasType (Γ.replace σ) e (t.subst σ) := by
  induction h generalizing σ with
  | @name Γ x τ t hx ht =>
    obtain ⟨ρ, rfl⟩ := ht
    refine .name (τ := τ.replace σ) ?_ ⟨fun v => (ρ v).subst σ, ?_⟩
    · rw [Env.replace, hx, Option.map_some]
    · rw [instantiate_replace, instantiate, Term.subst_subst]
      apply Term.subst_congr
      intro y _
      cases y with
      | free v => rfl
      | quantified v => rfl
  | @numeral Γ x hx hn =>
    refine .numeral ?_ hn
    rw [Env.replace, hx, Option.map_none]
  | @fn Γ p body a r _ ih =>
    rw [Term.subst_func]
    have hΓ : (Γ.bind p (mono a)).replace σ = (Γ.replace σ).bind p (mono (a.subst σ)) := by
      rw [Env.replace_bind, replace_mono]
    exact .fn (hΓ ▸ ih (hΓ ▸ finite_bind hfin (finite_mono _)))
  | @app Γ f e a r _ _ ihf ihe =>
    have hf := ihf hfin
    rw [Term.subst_func] at hf
    exact .app hf (ihe hfin)
  | @letIn Γ x value body t u _ _ ihv ihb =>
    obtain ⟨σ', hΓ, hτ⟩ := exists_generalise_below t hfin
    have hv : HasType (Γ.replace σ) value (t.subst σ') := hΓ ▸ ihv (hΓ ▸ hfin)
    have hb := ihb (finite_generalise x t hfin)
    rw [Env.replace_bind] at hb
    exact .letIn hv (hb.of_below ((Env.Below.refl _).bind hτ x))
  | @letRec Γ x value body t u _ _ ihv ihb =>
    obtain ⟨σ', hΓ, hτ⟩ := exists_generalise_below t hfin
    have hΓx : (Γ.bind x (mono t)).replace σ' = (Γ.replace σ).bind x (mono (t.subst σ')) := by
      rw [Env.replace_bind, replace_mono, hΓ]
    have hv : HasType ((Γ.replace σ).bind x (mono (t.subst σ'))) value (t.subst σ') :=
      hΓx ▸ ihv (hΓx ▸ finite_bind hfin (finite_mono _))
    have hb := ihb (finite_generalise x t hfin)
    rw [Env.replace_bind] at hb
    exact .letRec hv (hb.of_below ((Env.Below.refl _).bind hτ x))

end HasType
end LetPoly
