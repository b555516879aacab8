import LetPoly.Proofs.Expr.Names
import LetPoly.Proofs.Typing.Rules

/-!
# Types depend on free names only

An expression has the same types in two environments that agree on its free names, although both
generalise over different vars (`hasType_congr`).  So an environment may always be cut down to these
names (`Env.only`).

Substitution keeps types in the same way: if every free name has in `Γ` just the types that the
expression in its place has in `Γ'` (`Fits`), then the expressions before and after have the same
types (`hasType_subst`).
-/

namespace LetPoly

open Scheme
open HasType (finite_bind finite_mono)
open LetPoly.Expr (binder binder_notMem freeNames mem_filter_ne mem_namesOf namesOf under
  under_of_ne under_self)

namespace Env

/-- the schemes of some names, and of no others -/
def only (Γ : Env) (names : List String) : Env := fun x => if x ∈ names then Γ x else none

def freeAt (Γ : Env) (x : String) : Set Var := {v | ∃ τ, Γ x = some τ ∧ v ∈ τ.freeVars}

variable {Γ Γ₁ Γ₂ : Env} {names : List String} {x y : String} {τ : Scheme} {v : Var}

theorem only_of_mem (hx : x ∈ names) : Γ.only names x = Γ x := if_pos hx

theorem freeAt_congr (h : Γ₁ x = Γ₂ y) : Γ₁.freeAt x = Γ₂.freeAt y := by
  rw [freeAt, freeAt, h]

theorem mem_freeVars_only : v ∈ (Γ.only names).freeVars ↔ ∃ x ∈ names, v ∈ Γ.freeAt x := by
  constructor
  · rintro ⟨x, τ, hx, hv⟩
    by_cases hmem : x ∈ names
    · rw [only_of_mem hmem] at hx
      exact ⟨x, hmem, τ, hx, hv⟩
    · rw [only, if_neg hmem] at hx
      cases hx
  · rintro ⟨x, hmem, τ, hx, hv⟩
    exact ⟨x, τ, by rwa [only_of_mem hmem], hv⟩

theorem freeVars_only_subset : (Γ.only names).freeVars ⊆ Γ.freeVars := by
  intro v hv
  obtain ⟨x, -, τ, hx, hv⟩ := mem_freeVars_only.1 hv
  exact ⟨x, τ, hx, hv⟩

theorem freeVars_only_subset_of_agree (h : ∀ x ∈ names, Γ₁ x = Γ₂ x) :
    (Γ₂.only names).freeVars ⊆ Γ₁.freeVars := by
  intro v hv
  obtain ⟨x, hmem, hv⟩ := mem_freeVars_only.1 hv
  rw [← freeAt_congr (h x hmem)] at hv
  exact ⟨x, hv⟩

theorem agree_bind (h : ∀ y ∈ names.filter (· ≠ x), Γ₁ y = Γ₂ y) (τ : Scheme) :
    ∀ y ∈ names, Γ₁.bind x τ y = Γ₂.bind x τ y := by
  intro y hy
  by_cases hxy : y = x
  · subst hxy
    rw [bind_self, bind_self]
  · rw [bind_of_ne hxy, bind_of_ne hxy]
    exact h y (mem_filter_ne.2 ⟨hy, hxy⟩)

/-- a term may be generalised in another environment as well, if the vars that are not free in what
the two have in common are renamed first -/
theorem exists_generalise_below {Γ₀ : Env} (h₁ : Γ₀.freeVars ⊆ Γ₁.freeVars)
    (h₂ : Γ₀.freeVars ⊆ Γ₂.freeVars) (hfin : Γ₂.freeVars.Finite) (t : Term Var) :
    ∃ σ, Γ₀.replace σ = Γ₀ ∧ (Γ₁.generalise t).Below (Γ₂.generalise (t.subst σ)) := by
  obtain ⟨σ, hσ, hbelow⟩ := HasType.exists_close_below t hfin ((replace_var Γ₀).symm ▸ h₂)
  rw [replace_var] at hσ
  rw [Scheme.replace_var] at hbelow
  exact ⟨σ, hσ, fun u hu => hbelow u (close_below h₁ u hu)⟩

end Env

variable {Γ Γ' Γ₁ Γ₂ : Env} {ρ : String → Expr} {e : Expr} {t u : Term Var} {names : List String}
  {x p : String} {τ : Scheme}

/-! ## agreement on the free names -/

theorem hasType_name_of_some (hx : Γ x = some τ) : HasType Γ (.name x) u ↔ τ.HasInstance u := by
  constructor
  · intro h
    cases h with
    | name hx' hu =>
      rw [hx] at hx'
      cases hx'
      exact hu
    | numeral hx' _ =>
      rw [hx] at hx'
      cases hx'
  · exact .name hx

theorem HasType.of_agree (h : HasType Γ₁ e t) (hfin : Γ₂.freeVars.Finite)
    (hagree : ∀ x ∈ e.freeNames, Γ₁ x = Γ₂ x) : HasType Γ₂ e t := by
  induction e generalizing Γ₁ Γ₂ t with
  | name x =>
    have hx := hagree x (List.mem_singleton_self x)
    cases h with
    | name hτ ht => exact .name (hx ▸ hτ) ht
    | numeral hnone hn => exact .numeral (hx ▸ hnone) hn
  | fn p body ih =>
    cases h with
    | fn hbody => exact .fn (ih hbody (finite_bind hfin (finite_mono _)) (Env.agree_bind hagree _))
  | app f a ihf iha =>
    rw [freeNames, List.forall_mem_append] at hagree
    cases h with
    | app hf ha => exact .app (ihf hf hfin hagree.1) (iha ha hfin hagree.2)
  | letIn x value body ihv ihb =>
    rw [freeNames, List.forall_mem_append] at hagree
    cases h with
    | @letIn _ _ _ _ t _ hvalue hbody =>
      -- the value is typed with the free names alone, where its generalised vars can be renamed
      have h₀ : (Γ₂.only value.freeNames).freeVars.Finite := hfin.subset Env.freeVars_only_subset
      obtain ⟨σ, hσ, hbelow⟩ := Env.exists_generalise_below
        (Env.freeVars_only_subset_of_agree hagree.1) Env.freeVars_only_subset hfin t
      have hvalue₀ : HasType (Γ₂.only value.freeNames) value t := by
        refine ihv hvalue h₀ fun y hy => ?_
        rw [Env.only_of_mem hy, hagree.1 y hy]
      have hvalue₂ : HasType Γ₂ value (t.subst σ) := by
        refine ihv (hvalue₀.subst (hσ.symm ▸ h₀)) hfin fun y hy => ?_
        rw [hσ, Env.only_of_mem hy]
      refine .letIn hvalue₂ (ihb (hbody.of_below ((Env.Below.refl Γ₁).bind hbelow x)) ?_ ?_)
      · exact finite_bind hfin (hfin.subset Env.freeVars_generalise_subset)
      · exact Env.agree_bind hagree.2 _
  | letRec x value body ihv ihb =>
    rw [freeNames, List.filter_append, List.forall_mem_append] at hagree
    cases h with
    | @letRec _ _ _ _ t _ hvalue hbody =>
      have h₀ : (Γ₂.only (value.freeNames.filter (· ≠ x))).freeVars.Finite :=
        hfin.subset Env.freeVars_only_subset
      obtain ⟨σ, hσ, hbelow⟩ := Env.exists_generalise_below
        (Env.freeVars_only_subset_of_agree hagree.1) Env.freeVars_only_subset hfin t
      have hvalue₀ := ihv hvalue (finite_bind h₀ (finite_mono t)) <|
        Env.agree_bind (fun y hy => (hagree.1 y hy).trans (Env.only_of_mem hy).symm) (mono t)
      have hbind : ((Γ₂.only (value.freeNames.filter (· ≠ x))).bind x (mono t)).replace σ
          = (Γ₂.only (value.freeNames.filter (· ≠ x))).bind x (mono (t.subst σ)) := by
        rw [Env.replace_bind, replace_mono, hσ]
      have hrenamed := hvalue₀.subst (hbind ▸ finite_bind h₀ (finite_mono _))
      rw [hbind] at hrenamed
      have hvalue₂ := ihv hrenamed (finite_bind hfin (finite_mono _)) <|
        Env.agree_bind (fun y hy => Env.only_of_mem hy) (mono (t.subst σ))
      refine .letRec hvalue₂ (ihb (hbody.of_below ((Env.Below.refl Γ₁).bind hbelow x)) ?_ ?_)
      · exact finite_bind hfin (hfin.subset Env.freeVars_generalise_subset)
      · exact Env.agree_bind hagree.2 _

/-- environments that agree on the free names give an expression the same types -/
theorem hasType_congr (h₁ : Γ₁.freeVars.Finite) (h₂ : Γ₂.freeVars.Finite)
    (hagree : ∀ x ∈ e.freeNames, Γ₁ x = Γ₂ x) : HasType Γ₁ e t ↔ HasType Γ₂ e t :=
  ⟨fun h => h.of_agree h₂ hagree, fun h => h.of_agree h₁ fun x hx => (hagree x hx).symm⟩

theorem hasType_only (hfin : Γ.freeVars.Finite) (hnames : ∀ x ∈ e.freeNames, x ∈ names) :
    HasType (Γ.only names) e t ↔ HasType Γ e t :=
  hasType_congr (hfin.subset Env.freeVars_only_subset) hfin fun x hx => Env.only_of_mem (hnames x hx)

/-! ## the rules read backwards -/

theorem hasType_fn {body : Expr} : HasType Γ (.fn p body) t ↔
    ∃ a r, Term.func a r = t ∧ HasType (Γ.bind p (mono a)) body r := by
  constructor
  · intro h
    cases h with
    | fn hbody => exact ⟨_, _, rfl, hbody⟩
  · rintro ⟨a, r, rfl, hbody⟩
    exact .fn hbody

theorem hasType_app {f a : Expr} :
    HasType Γ (.app f a) t ↔ ∃ u, HasType Γ f (Term.func u t) ∧ HasType Γ a u := by
  constructor
  · intro h
    cases h with
    | app hf ha => exact ⟨_, hf, ha⟩
  · rintro ⟨u, hf, ha⟩
    exact .app hf ha

theorem hasType_letIn {value body : Expr} : HasType Γ (.letIn x value body) t ↔
    ∃ u, HasType Γ value u ∧ HasType (Γ.bind x (Γ.generalise u)) body t := by
  constructor
  · intro h
    cases h with
    | letIn hvalue hbody => exact ⟨_, hvalue, hbody⟩
  · rintro ⟨u, hvalue, hbody⟩
    exact .letIn hvalue hbody

theorem hasType_letRec {value body : Expr} : HasType Γ (.letRec x value body) t ↔
    ∃ u, HasType (Γ.bind x (mono u)) value u ∧ HasType (Γ.bind x (Γ.generalise u)) body t := by
  constructor
  · intro h
    cases h with
    | letRec hvalue hbody => exact ⟨_, hvalue, hbody⟩
  · rintro ⟨u, hvalue, hbody⟩
    exact .letRec hvalue hbody

/-! ## substitution -/

/-- what `ρ` puts in place of some names has just their types, over the same free vars -/
structure Fits (ρ : String → Expr) (names : List String) (Γ Γ' : Env) : Prop where
  types : ∀ x ∈ names, ∀ u, HasType Γ (.name x) u ↔ HasType Γ' (ρ x) u
  free : ∀ x ∈ names, ∀ v, v ∈ Γ.freeAt x ↔ ∃ z ∈ (ρ x).freeNames, v ∈ Γ'.freeAt z

namespace Fits

theorem mono (h : Fits ρ names Γ Γ') {xs : List String} (hxs : ∀ x ∈ xs, x ∈ names) :
    Fits ρ xs Γ Γ' where
  types x hx := h.types x (hxs x hx)
  free x hx := h.free x (hxs x hx)

theorem left {xs ys : List String} (h : Fits ρ (xs ++ ys) Γ Γ') : Fits ρ xs Γ Γ' :=
  h.mono fun _ => List.mem_append_left ys

theorem right {xs ys : List String} (h : Fits ρ (xs ++ ys) Γ Γ') : Fits ρ ys Γ Γ' :=
  h.mono fun _ => List.mem_append_right xs

theorem bind (h : Fits ρ (names.filter (· ≠ p)) Γ Γ') (hΓ : Γ.freeVars.Finite)
    (hΓ' : Γ'.freeVars.Finite) (hτ : τ.freeVars.Finite) :
    Fits (under ρ p (binder ρ p names)) names (Γ.bind p τ) (Γ'.bind (binder ρ p names) τ) := by
  have hagree : ∀ x ∈ names, x ≠ p → ∀ z ∈ (ρ x).freeNames,
      Γ'.bind (binder ρ p names) τ z = Γ' z := by
    intro x hx hp z hz
    refine Env.bind_of_ne ?_
    rintro rfl
    exact binder_notMem hx hp hz
  constructor
  · intro x hx u
    by_cases hp : x = p
    · subst hp
      rw [under_self, hasType_name_of_some Env.bind_self, hasType_name_of_some Env.bind_self]
    · have hname : ∀ z ∈ (Expr.name x).freeNames, Γ.bind p τ z = Γ z := by
        intro z hz
        rw [List.mem_singleton.1 hz, Env.bind_of_ne hp]
      rw [under_of_ne hp, hasType_congr (finite_bind hΓ hτ) hΓ hname,
        hasType_congr (finite_bind hΓ' hτ) hΓ' (hagree x hx hp)]
      exact h.types x (mem_filter_ne.2 ⟨hx, hp⟩) u
  · intro x hx v
    by_cases hp : x = p
    · subst hp
      have hfree : (Γ.bind x τ).freeAt x = (Γ'.bind (binder ρ x names) τ).freeAt (binder ρ x names) :=
        Env.freeAt_congr (Env.bind_self.trans Env.bind_self.symm)
      simp only [under_self, freeNames, List.mem_singleton, exists_eq_left, hfree]
    · rw [under_of_ne hp, Env.freeAt_congr (Env.bind_of_ne hp), h.free x (mem_filter_ne.2 ⟨hx, hp⟩)]
      refine exists_congr fun z => and_congr_right fun hz => ?_
      rw [Env.freeAt_congr (hagree x hx hp z hz)]

/-- both environments cut down to the names that matter -/
theorem only (h : Fits ρ names Γ Γ') (hΓ : Γ.freeVars.Finite) (hΓ' : Γ'.freeVars.Finite) :
    Fits ρ names (Γ.only names) (Γ'.only (namesOf ρ names)) := by
  have hmem : ∀ x ∈ names, ∀ z ∈ (ρ x).freeNames, z ∈ namesOf ρ names :=
    fun x hx z hz => mem_namesOf.2 ⟨x, hx, hz⟩
  constructor
  · intro x hx u
    have hname : ∀ z ∈ (Expr.name x).freeNames, z ∈ names := by
      intro z hz
      rwa [List.mem_singleton.1 hz]
    rw [hasType_only hΓ hname, hasType_only hΓ' (hmem x hx)]
    exact h.types x hx u
  · intro x hx v
    rw [Env.freeAt_congr (Env.only_of_mem hx), h.free x hx]
    refine exists_congr fun z => and_congr_right fun hz => ?_
    rw [Env.freeAt_congr (Env.only_of_mem (hmem x hx z hz))]

/-- then the same vars are free in both -/
theorem freeVars_only (h : Fits ρ names Γ Γ') :
    (Γ.only names).freeVars = (Γ'.only (namesOf ρ names)).freeVars := by
  ext v
  rw [Env.mem_freeVars_only, Env.mem_freeVars_only]
  constructor
  · rintro ⟨x, hx, hv⟩
    obtain ⟨z, hz, hv⟩ := (h.free x hx v).1 hv
    exact ⟨z, mem_namesOf.2 ⟨x, hx, hz⟩, hv⟩
  · rintro ⟨z, hz, hv⟩
    obtain ⟨x, hx, hz⟩ := mem_namesOf.1 hz
    exact ⟨x, hx, (h.free x hx v).2 ⟨z, hz, hv⟩⟩

end Fits

/-- definitions are generalised over the same vars once both environments are cut down -/
theorem Fits.generalise_only (h : Fits ρ names Γ Γ') (t : Term Var) :
    (Γ.only names).generalise t = (Γ'.only (namesOf ρ names)).generalise t := by
  rw [Env.generalise, Env.generalise, h.freeVars_only]

theorem hasType_subst_only (hΓ' : Γ'.freeVars.Finite) :
    HasType (Γ'.only (namesOf ρ e.freeNames)) (e.subst ρ) t ↔ HasType Γ' (e.subst ρ) t :=
  hasType_only hΓ' fun _ hz => mem_namesOf.2 (Expr.mem_freeNames_subst.1 hz)

/-- an expression keeps its types if its names are replaced by expressions of the same types -/
theorem hasType_subst (h : Fits ρ e.freeNames Γ Γ') (hΓ : Γ.freeVars.Finite)
    (hΓ' : Γ'.freeVars.Finite) : HasType Γ e t ↔ HasType Γ' (e.subst ρ) t := by
  induction e generalizing ρ Γ Γ' t with
  | name x => exact h.types x (List.mem_singleton_self x) t
  | fn p body ih =>
    rw [Expr.subst, hasType_fn, hasType_fn]
    refine exists₂_congr fun a r => and_congr_right fun _ => ?_
    have ha := finite_mono a
    exact ih (h.bind hΓ hΓ' ha) (finite_bind hΓ ha) (finite_bind hΓ' ha)
  | app f a ihf iha =>
    rw [Expr.subst, hasType_app, hasType_app]
    exact exists_congr fun u => and_congr (ihf h.left hΓ hΓ') (iha h.right hΓ hΓ')
  | letIn x value body ihv ihb =>
    have hcut := h.only hΓ hΓ'
    have h₀ : (Γ.only (Expr.letIn x value body).freeNames).freeVars.Finite :=
      hΓ.subset Env.freeVars_only_subset
    have h₀' : (Γ'.only (namesOf ρ (Expr.letIn x value body).freeNames)).freeVars.Finite :=
      hΓ'.subset Env.freeVars_only_subset
    rw [← hasType_only hΓ fun _ hx => hx, ← hasType_subst_only hΓ', Expr.subst, hasType_letIn,
      hasType_letIn]
    refine exists_congr fun u => and_congr (ihv hcut.left h₀ h₀') ?_
    have hu := h₀'.subset (Env.freeVars_generalise_subset (t := u))
    rw [h.generalise_only u]
    exact ihb (hcut.right.bind h₀ h₀' hu) (finite_bind h₀ hu) (finite_bind h₀' hu)
  | letRec x value body ihv ihb =>
    have hcut := h.only hΓ hΓ'
    have h₀ : (Γ.only (Expr.letRec x value body).freeNames).freeVars.Finite :=
      hΓ.subset Env.freeVars_only_subset
    have h₀' : (Γ'.only (namesOf ρ (Expr.letRec x value body).freeNames)).freeVars.Finite :=
      hΓ'.subset Env.freeVars_only_subset
    rw [← hasType_only hΓ fun _ hx => hx, ← hasType_subst_only hΓ', Expr.subst, hasType_letRec,
      hasType_letRec]
    refine exists_congr fun u => and_congr ?_ ?_
    · have hu := finite_mono u
      exact ihv (hcut.bind h₀ h₀' hu).left (finite_bind h₀ hu) (finite_bind h₀' hu)
    · have hu := h₀'.subset (Env.freeVars_generalise_subset (t := u))
      rw [h.generalise_only u]
      exact ihb (hcut.bind h₀ h₀' hu).right (finite_bind h₀ hu) (finite_bind h₀' hu)

end LetPoly
