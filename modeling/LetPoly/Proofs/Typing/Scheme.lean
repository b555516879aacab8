import Mathlib.Data.Set.Finite.Lattice
import LetPoly.Proofs.Term.Basic

/-!
# Schemes and environments

A scheme is a term in which every var is marked as free or as quantified; its instances put any
terms in place of the quantified ones.  An environment gives schemes to some names.

* `Scheme.close A t`    `t` quantified over its vars outside of `A`;
* `Scheme.Below`        every instance of the one scheme is an instance of the other;
* `Env.generalise`      a term quantified over its vars that are not free in an environment;
* `below_generalise`    generalising after a replacement gives less than replacing afterwards.
-/

namespace LetPoly

inductive SchemeVar where
  | free (v : Var)
  | quantified (v : Var)
  deriving DecidableEq

abbrev Scheme := Term SchemeVar

namespace Scheme

/-- `τ` with the terms of `ρ` in place of the quantified vars -/
def instantiate (τ : Scheme) (ρ : Var → Term Var) : Term Var :=
  Term.subst (fun | .free v => .var v | .quantified v => ρ v) τ

def HasInstance (τ : Scheme) (t : Term Var) : Prop := ∃ ρ, τ.instantiate ρ = t

/-- `t` where the vars outside of `A` are quantified -/
noncomputable def close (A : Set Var) (t : Term Var) : Scheme :=
  open Classical in t.subst fun v => .var (if v ∈ A then .free v else .quantified v)

def mono (t : Term Var) : Scheme := t.subst fun v => .var (.free v)

/-- the free vars replaced, where the terms of `σ` are not quantified over -/
def replace (σ : Var → Term Var) (τ : Scheme) : Scheme :=
  Term.subst (fun | .free v => mono (σ v) | .quantified v => .var (.quantified v)) τ

def freeVars (τ : Scheme) : Set Var := {v | .free v ∈ Term.vars τ}

/-- every instance of `τ₁` is an instance of `τ₂` -/
def Below (τ₁ τ₂ : Scheme) : Prop := ∀ t, τ₁.HasInstance t → τ₂.HasInstance t

variable {A B : Set Var} {t : Term Var} {τ τ₁ τ₂ : Scheme} {σ : Var → Term Var}

/-! ## closing a term -/

@[simp] theorem mem_freeVars_close {v : Var} : v ∈ (close A t).freeVars ↔ v ∈ A ∧ v ∈ t.vars := by
  simp only [freeVars, close, Set.mem_ofPred_eq, Term.mem_vars_subst, Term.vars_var,
    List.mem_singleton]
  constructor
  · rintro ⟨w, hw, h⟩
    split at h
    · next hA =>
      cases h
      exact ⟨hA, hw⟩
    · cases h
  · rintro ⟨hA, hv⟩
    exact ⟨v, hv, by rw [if_pos hA]⟩

@[simp] theorem freeVars_mono : (mono t).freeVars = {v | v ∈ t.vars} := by
  ext v
  simp [freeVars, mono, Term.mem_vars_subst]

theorem close_congr (h : ∀ v ∈ t.vars, v ∈ A ↔ v ∈ B) : close A t = close B t := by
  apply Term.subst_congr
  intro v hv
  by_cases hA : v ∈ A
  · rw [if_pos hA, if_pos ((h v hv).1 hA)]
  · rw [if_neg hA, if_neg fun hB => hA ((h v hv).2 hB)]

theorem close_eq_mono (h : ∀ v ∈ t.vars, v ∈ A) : close A t = mono t := by
  apply Term.subst_congr
  intro v hv
  rw [if_pos (h v hv)]

theorem instantiate_close (ρ : Var → Term Var) : (close A t).instantiate ρ =
    open Classical in t.subst fun v => if v ∈ A then .var v else ρ v := by
  rw [instantiate, close, Term.subst_subst]
  apply Term.subst_congr
  intro v _
  by_cases hA : v ∈ A
  · rw [if_pos hA, if_pos hA, Term.subst_var]
  · rw [if_neg hA, if_neg hA, Term.subst_var]

@[simp] theorem instantiate_mono (ρ : Var → Term Var) : (mono t).instantiate ρ = t := by
  rw [mono, instantiate, Term.subst_subst]
  exact Term.subst_id t

/-! ## replacing free vars -/

theorem replace_mono : (mono t).replace σ = mono (t.subst σ) := by
  rw [mono, replace, Term.subst_subst, mono, Term.subst_subst]
  rfl

theorem replace_var (τ : Scheme) : τ.replace .var = τ := by
  refine Term.subst_eq_self fun a _ => ?_
  cases a with
  | free v => rfl
  | quantified v => rfl

theorem replace_congr {σ' : Var → Term Var} (h : ∀ v ∈ τ.freeVars, σ v = σ' v) :
    τ.replace σ = τ.replace σ' := by
  apply Term.subst_congr
  intro x hx
  cases x with
  | free v =>
    show mono (σ v) = mono (σ' v)
    rw [h v hx]
  | quantified v => rfl

theorem replace_replace {σ' : Var → Term Var} :
    (τ.replace σ).replace σ' = τ.replace fun v => (σ v).subst σ' := by
  rw [replace, replace, Term.subst_subst]
  apply Term.subst_congr
  intro x _
  cases x with
  | free v => exact replace_mono
  | quantified v => rfl

theorem mem_freeVars_replace {v : Var} :
    v ∈ (τ.replace σ).freeVars ↔ ∃ u ∈ τ.freeVars, v ∈ (σ u).vars := by
  rw [freeVars, Set.mem_ofPred_eq, replace, Term.mem_vars_subst]
  constructor
  · rintro ⟨x, hx, hv⟩
    cases x with
    | free u =>
      have hv' : v ∈ (mono (σ u)).freeVars := hv
      rw [freeVars_mono] at hv'
      exact ⟨u, hx, hv'⟩
    | quantified u =>
      rw [Term.vars_var, List.mem_singleton] at hv
      cases hv
  · rintro ⟨u, hu, hv⟩
    have hv' : v ∈ (mono (σ u)).freeVars := by rwa [freeVars_mono]
    exact ⟨.free u, hu, hv'⟩

theorem instantiate_replace (ρ : Var → Term Var) :
    (τ.replace σ).instantiate ρ = Term.subst (fun | .free v => σ v | .quantified v => ρ v) τ := by
  rw [instantiate, replace, Term.subst_subst]
  apply Term.subst_congr
  intro x _
  cases x with
  | free v => exact instantiate_mono ρ
  | quantified v => rfl

/-- the instances of a closed term whose free vars are replaced -/
theorem instantiate_replace_close (ρ : Var → Term Var) : ((close A t).replace σ).instantiate ρ =
    open Classical in t.subst fun v => if v ∈ A then σ v else ρ v := by
  rw [instantiate_replace, close, Term.subst_subst]
  apply Term.subst_congr
  intro v _
  by_cases hA : v ∈ A
  · rw [if_pos hA, if_pos hA, Term.subst_var]
  · rw [if_neg hA, if_neg hA, Term.subst_var]

/-! ## generality -/

theorem Below.refl (τ : Scheme) : τ.Below τ := fun _ h => h

/-- the free vars of a scheme are in all its instances, and nothing else is in some -/
theorem Below.freeVars_subset (h : τ₁.Below τ₂) : τ₂.freeVars ⊆ τ₁.freeVars := by
  intro v hv
  obtain ⟨ρ, hρ⟩ := h _ ⟨fun _ => .op "" [], rfl⟩
  have hin : v ∈ (τ₁.instantiate fun _ => .op "" []).vars := by
    rw [← hρ, instantiate, Term.mem_vars_subst]
    exact ⟨.free v, hv, List.mem_singleton_self v⟩
  rw [instantiate, Term.mem_vars_subst] at hin
  obtain ⟨x, hx, hvx⟩ := hin
  cases x with
  | free w =>
    rw [Term.vars_var, List.mem_singleton] at hvx
    exact hvx ▸ hx
  | quantified w => exact absurd (Term.mem_vars_op.1 hvx) (by simp)

theorem close_below (h : B ⊆ A) : (close A t).Below (close B t) := by
  classical
  rintro u ⟨ρ, rfl⟩
  refine ⟨fun v => if v ∈ A then .var v else ρ v, ?_⟩
  rw [instantiate_close, instantiate_close]
  apply Term.subst_congr
  intro v _
  by_cases hB : v ∈ B
  · rw [if_pos hB, if_pos (h hB)]
  · rw [if_neg hB]

end Scheme

/-! ## environments -/

abbrev Env := String → Option Scheme

namespace Env

def bind (Γ : Env) (x : String) (τ : Scheme) : Env := fun y => if y = x then some τ else Γ y

def freeVars (Γ : Env) : Set Var := {v | ∃ x τ, Γ x = some τ ∧ v ∈ τ.freeVars}

def replace (σ : Var → Term Var) (Γ : Env) : Env :=
  fun x => (Γ x).map (Scheme.replace σ)

/-- a term quantified over the vars that are not free in the environment -/
noncomputable def generalise (Γ : Env) (t : Term Var) : Scheme := Scheme.close Γ.freeVars t

/-- the same names, with schemes that are more general -/
def Below (Γ₁ Γ₂ : Env) : Prop := ∀ x, Option.Rel Scheme.Below (Γ₁ x) (Γ₂ x)

variable {Γ Γ₁ Γ₂ : Env} {σ : Var → Term Var} {x : String} {τ τ₁ τ₂ : Scheme} {t : Term Var}

theorem bind_self : Γ.bind x τ x = some τ := if_pos rfl

theorem bind_of_ne {y : String} (h : y ≠ x) : Γ.bind x τ y = Γ y := if_neg h

theorem mem_freeVars_bind {v : Var} (h : v ∈ (Γ.bind x τ).freeVars) :
    v ∈ τ.freeVars ∨ v ∈ Γ.freeVars := by
  obtain ⟨y, τ', hy, hv⟩ := h
  by_cases hxy : y = x
  · subst hxy
    rw [bind_self] at hy
    cases hy
    exact .inl hv
  · rw [bind_of_ne hxy] at hy
    exact .inr ⟨y, τ', hy, hv⟩

theorem replace_bind : (Γ.bind x τ).replace σ = (Γ.replace σ).bind x (τ.replace σ) := by
  funext y
  by_cases hxy : y = x
  · subst hxy
    rw [replace, bind_self, bind_self, Option.map_some]
  · rw [replace, bind_of_ne hxy, bind_of_ne hxy, replace]

theorem replace_var (Γ : Env) : Γ.replace .var = Γ := by
  funext x
  have hid : (Scheme.replace .var : Scheme → Scheme) = id := funext Scheme.replace_var
  rw [replace, hid, Option.map_id_apply]

theorem replace_congr {σ' : Var → Term Var} (h : ∀ v ∈ Γ.freeVars, σ v = σ' v) :
    Γ.replace σ = Γ.replace σ' := by
  funext x
  cases hx : Γ x with
  | none => rw [replace, replace, hx]; rfl
  | some τ =>
    rw [replace, replace, hx, Option.map_some, Option.map_some,
      Scheme.replace_congr fun v hv => h v ⟨x, τ, hx, hv⟩]

theorem replace_replace {σ' : Var → Term Var} :
    (Γ.replace σ).replace σ' = Γ.replace fun v => (σ v).subst σ' := by
  funext x
  rw [replace, replace, replace, Option.map_map]
  congr 1
  funext τ
  exact Scheme.replace_replace

theorem mem_freeVars_replace {v : Var} :
    v ∈ (Γ.replace σ).freeVars ↔ ∃ u ∈ Γ.freeVars, v ∈ (σ u).vars := by
  constructor
  · rintro ⟨x, τ', hx, hv⟩
    obtain ⟨τ, hτ, rfl⟩ := Option.map_eq_some_iff.1 hx
    obtain ⟨u, hu, hv⟩ := Scheme.mem_freeVars_replace.1 hv
    exact ⟨u, ⟨x, τ, hτ, hu⟩, hv⟩
  · rintro ⟨u, ⟨x, τ, hx, hu⟩, hv⟩
    refine ⟨x, τ.replace σ, ?_, Scheme.mem_freeVars_replace.2 ⟨u, hu, hv⟩⟩
    rw [replace, hx, Option.map_some]

theorem freeVars_generalise_subset : (Γ.generalise t).freeVars ⊆ Γ.freeVars := by
  intro v hv
  exact (Scheme.mem_freeVars_close.1 hv).1

/-! ## generality -/

theorem Below.bind (h : Γ₁.Below Γ₂) (hτ : τ₁.Below τ₂) (x : String) :
    (Γ₁.bind x τ₁).Below (Γ₂.bind x τ₂) := by
  intro y
  by_cases hxy : y = x
  · subst hxy
    rw [bind_self, bind_self]
    exact .some hτ
  · rw [bind_of_ne hxy, bind_of_ne hxy]
    exact h y

theorem Below.refl (Γ : Env) : Γ.Below Γ := by
  intro x
  cases Γ x with
  | none => exact .none
  | some τ => exact .some (.refl τ)

theorem Below.of_some (h : Γ₁.Below Γ₂) (hx : Γ₁ x = some τ₁) :
    ∃ τ₂, Γ₂ x = some τ₂ ∧ τ₁.Below τ₂ := by
  have hrel := h x
  rw [hx] at hrel
  cases hx₂ : Γ₂ x with
  | none => rw [hx₂] at hrel; cases hrel
  | some τ₂ =>
    rw [hx₂] at hrel
    cases hrel with
    | some hτ => exact ⟨τ₂, rfl, hτ⟩

theorem Below.eq_none_iff (h : Γ₁.Below Γ₂) : Γ₁ x = none ↔ Γ₂ x = none := by
  have hrel := h x
  cases hx₁ : Γ₁ x with
  | none =>
    rw [hx₁] at hrel
    cases hx₂ : Γ₂ x with
    | none => exact iff_of_true rfl rfl
    | some τ₂ => rw [hx₂] at hrel; cases hrel
  | some τ₁ =>
    obtain ⟨τ₂, hx₂, -⟩ := h.of_some hx₁
    rw [hx₂]
    exact iff_of_false nofun nofun

theorem Below.freeVars_subset (h : Γ₁.Below Γ₂) : Γ₂.freeVars ⊆ Γ₁.freeVars := by
  rintro v ⟨x, τ₂, hx, hv⟩
  cases hx₁ : Γ₁ x with
  | none =>
    rw [h.eq_none_iff.1 hx₁] at hx
    cases hx
  | some τ₁ =>
    obtain ⟨τ₂', hx₂, hτ⟩ := h.of_some hx₁
    rw [hx] at hx₂
    cases hx₂
    exact ⟨x, τ₁, hx₁, hτ.freeVars_subset hv⟩

theorem Below.generalise (h : Γ₁.Below Γ₂) (t : Term Var) :
    (Γ₁.generalise t).Below (Γ₂.generalise t) :=
  Scheme.close_below h.freeVars_subset

/-- generalising after a replacement gives less than replacing afterwards -/
theorem below_generalise (Γ : Env) (σ : Var → Term Var) (t : Term Var) :
    ((Γ.replace σ).generalise (t.subst σ)).Below ((Γ.generalise t).replace σ) := by
  classical
  rintro u ⟨ρ, rfl⟩
  refine ⟨fun v => (σ v).subst fun w => if w ∈ (Γ.replace σ).freeVars then .var w else ρ w, ?_⟩
  rw [generalise, generalise, Scheme.instantiate_replace_close, Scheme.instantiate_close,
    Term.subst_subst]
  apply Term.subst_congr
  intro v _
  by_cases hv : v ∈ Γ.freeVars
  · rw [if_pos hv]
    refine (Term.subst_eq_self fun w hw => if_pos ?_).symm
    exact mem_freeVars_replace.2 ⟨v, hv, hw⟩
  · rw [if_neg hv]

end Env
end LetPoly
