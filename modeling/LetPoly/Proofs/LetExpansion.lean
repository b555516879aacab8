import LetPoly.Proofs.Binding
import LetPoly.Proofs.Term.Print
import LetPoly.Proofs.Typing.Names

/-!
# A definition may be expanded

Using a local definition is the same as writing its value at every use: both ways the same
expressions have types, and the types are the same up to the names of their vars
(`Expr.let_expansion`).  The value has to have a type of its own, as a definition that is never used
is still inferred.

That is so for the typing rules (`hasType_letIn_iff`), as a name whose scheme is the generalised
principal type of the value has just the types that the value has.  Inference finds principal types
on both sides, and two principal types are instances of each other.
-/

namespace LetPoly

open StoreM
open LetPoly.Expr (AlphaEq)
open Store (chainStore)

/-! ## instances of each other -/

namespace Term

variable {α β : Type}

theorem subst_inj {σ τ : α → Term β} {t : Term α} (h : t.subst σ = t.subst τ) :
    ∀ a ∈ t.vars, σ a = τ a := by
  induction t with
  | var b =>
    intro a ha
    rw [List.mem_singleton.1 ha]
    exact h
  | op n as ih =>
    intro a ha
    obtain ⟨u, hu, ha⟩ := mem_vars_op.1 ha
    rw [subst_op, subst_op, op.injEq, List.map_inj_left] at h
    exact ih u hu (h.2 u hu) a ha

/-- a replacement of vars that can be undone replaces them by other vars, one by one -/
theorem exists_rename [Nonempty β] {t : Term α} {u : Term β} {σ : α → Term β} {τ : β → Term α}
    (h : t.subst σ = u) (h' : u.subst τ = t) :
    ∃ ρ : α → β, Set.InjOn ρ {a | a ∈ t.vars} ∧ u = t.rename ρ := by
  have hback : ∀ a ∈ t.vars, (σ a).subst τ = var a := by
    refine subst_inj ?_
    rw [subst_id, ← subst_subst, h, h']
  have hvar : ∀ a, ∃ b, a ∈ t.vars → σ a = var b := by
    intro a
    by_cases ha : a ∈ t.vars
    · cases hσ : σ a with
      | var b => exact ⟨b, fun _ => rfl⟩
      | op n as =>
        have hop := hback a ha
        rw [hσ, subst_op] at hop
        cases hop
    · exact ⟨Classical.arbitrary β, fun h => absurd h ha⟩
  choose ρ hρ using hvar
  refine ⟨ρ, fun a ha b hb hab => ?_, ?_⟩
  · have hab' : σ a = σ b := by rw [hρ a ha, hρ b hb, hab]
    have hvars : (var a : Term α) = var b := by rw [← hback a ha, ← hback b hb, hab']
    exact Term.var.inj hvars
  · rw [← h, rename]
    exact subst_congr hρ

end Term

/-! ## the typing rules -/

variable {Γ : Env} {value body body' e : Expr} {t u : Term Var} {x : String}

theorem generalise_hasInstance (hΓ : Γ.freeVars = ∅) :
    (Γ.generalise t).HasInstance u ↔ ∃ σ, t.subst σ = u := by
  refine exists_congr fun σ => ?_
  rw [Env.generalise, hΓ, Scheme.instantiate_close]
  simp only [Set.mem_empty_iff_false, if_false]

theorem Env.replace_closed (hΓ : Γ.freeVars = ∅) (σ : Var → Term Var) : Γ.replace σ = Γ := by
  have hvar : Γ.replace σ = Γ.replace .var := by
    refine Env.replace_congr fun v hv => ?_
    rw [hΓ] at hv
    exact hv.elim
  rw [hvar, Env.replace_var]

/-- without free vars around, all instances of a type are types -/
theorem HasType.of_instance (h : HasType Γ e t) (hΓ : Γ.freeVars = ∅) (σ : Var → Term Var) :
    HasType Γ e (t.subst σ) := by
  have hself := Env.replace_closed hΓ σ
  have hfin : (Γ.replace σ).freeVars.Finite := by
    rw [hself, hΓ]
    exact Set.finite_empty
  exact hself ▸ h.subst hfin

/-- the name of a definition has just the types of its value -/
theorem fits_definition (hΓ : Γ.freeVars = ∅) (ht : HasType Γ value t)
    (hmost : ∀ u, HasType Γ value u → ∃ σ, t.subst σ = u) (names : List String) :
    Fits (Function.update Expr.name x value) names (Γ.bind x (Γ.generalise t)) Γ := by
  have hclosed : (Γ.bind x (Γ.generalise t)).freeVars = ∅ := by
    refine Set.subset_eq_empty (fun v hv => ?_) hΓ
    exact (Env.mem_freeVars_bind hv).elim (fun hv => Env.freeVars_generalise_subset hv) id
  have hfin : Γ.freeVars.Finite := hΓ ▸ Set.finite_empty
  constructor
  · intro y _ u
    by_cases hy : y = x
    · subst hy
      rw [Function.update_self, hasType_name_of_some Env.bind_self, generalise_hasInstance hΓ]
      constructor
      · rintro ⟨σ, rfl⟩
        exact ht.of_instance hΓ σ
      · exact hmost u
    · rw [Function.update_of_ne hy]
      refine hasType_congr (hclosed ▸ Set.finite_empty) hfin fun z hz => ?_
      rw [List.mem_singleton.1 hz, Env.bind_of_ne hy]
  · intro y _ v
    refine iff_of_false (fun hv => ?_) ?_
    · exact Set.notMem_empty v (hclosed ▸ ⟨y, hv⟩)
    · rintro ⟨z, -, hv⟩
      exact Set.notMem_empty v (hΓ ▸ ⟨z, hv⟩)

/-- a definition is generalised best by the principal type of its value -/
theorem hasType_letIn_of_principal (hΓ : Γ.freeVars = ∅) (ht : HasType Γ value t)
    (hmost : ∀ u, HasType Γ value u → ∃ σ, t.subst σ = u) :
    HasType Γ (.letIn x value body) u ↔ HasType (Γ.bind x (Γ.generalise t)) body u := by
  constructor
  · intro h
    obtain ⟨t', ht', hbody⟩ := hasType_letIn.1 h
    obtain ⟨σ, rfl⟩ := hmost t' ht'
    refine hbody.of_below ((Env.Below.refl Γ).bind (fun u hu => ?_) x)
    obtain ⟨ρ, rfl⟩ := (generalise_hasInstance hΓ).1 hu
    exact (generalise_hasInstance hΓ).2 ⟨_, (Term.subst_subst σ ρ t).symm⟩
  · exact .letIn ht

/-- a typable definition may be written out at every use -/
theorem hasType_letIn_iff (hΓ : Γ.freeVars = ∅) (ht : HasType Γ value t)
    (hmost : ∀ u, HasType Γ value u → ∃ σ, t.subst σ = u) :
    HasType Γ (.letIn x value body) u ↔ HasType Γ (body.substName x value) u := by
  have hfin : Γ.freeVars.Finite := hΓ ▸ Set.finite_empty
  have hgen : (Γ.generalise t).freeVars.Finite := hfin.subset Env.freeVars_generalise_subset
  rw [hasType_letIn_of_principal hΓ ht hmost]
  exact hasType_subst (fits_definition hΓ ht hmost _) (HasType.finite_bind hfin hgen) hfin

/-! ## inference -/

variable {s s' : Store} {scope : Scope Ty} {session i j k : Option Nat}

/-- inference returns exactly if there is a type to return -/
theorem returns_iff (hs : s.Sound) (hscope : scope.Within s)
    (hi : ∀ i ∈ session, i < s.sessions.size) :
    (∃ t s', e.inferType scope session s = .ok t s') ↔ ∃ u, HasType (.ofScope scope s) e u := by
  have h := ends_inferType (e := e) hs hscope hi
  cases hrun : e.inferType scope session s with
  | ok t s' =>
    obtain ⟨-, -, htyp, -⟩ := h.ok hrun
    exact iff_of_true ⟨t, s', rfl⟩ ⟨_, htyp⟩
  | error f s' =>
    obtain ⟨-, -, hno⟩ := h.error hrun
    exact iff_of_false nofun hno

theorem exists_principal (hs : s.Sound) (hscope : scope.Within s)
    (h : ∃ u, HasType (.ofScope scope s) e u) :
    ∃ t, HasType (.ofScope scope s) e t ∧
      ∀ u, HasType (.ofScope scope s) e u → ∃ σ, t.subst σ = u := by
  have hnone : ∀ n ∈ (none : Option Nat), n < s.sessions.size := nofun
  obtain ⟨ty, s', hrun⟩ := (returns_iff hs hscope hnone).2 h
  obtain ⟨-, -, htyp, hmost⟩ := (ends_inferType hs hscope hnone).ok hrun
  exact ⟨s'.resolve ty, htyp, hmost⟩

theorem hasType_letIn_iff_of_scope (hs : s.Sound) (hscope : scope.Within s)
    (h : ∃ u, HasType (.ofScope scope s) value u) :
    HasType (.ofScope scope s) (.letIn x value body) u ↔
      HasType (.ofScope scope s) (body.substName x value) u := by
  obtain ⟨t, ht, hmost⟩ := exists_principal hs hscope h
  exact hasType_letIn_iff (Env.freeVars_ofScope scope s) ht hmost

namespace Expr

/-- a local definition is its expansion: it is inferred exactly if its value and its expansion are,
and then to the type of the expansion, up to the names of vars -/
theorem let_expansion (hs : s.Sound) (hscope : scope.Within s)
    (hi : ∀ n ∈ i, n < s.sessions.size) (hj : ∀ n ∈ j, n < s.sessions.size)
    (hk : ∀ n ∈ k, n < s.sessions.size) (hbody : AlphaEq [] (body.substName x value) body') :
    ((∃ ty s', (letIn x value body).inferType scope i s = .ok ty s') ↔
        (∃ ty s', value.inferType scope j s = .ok ty s') ∧
          ∃ ty s', body'.inferType scope k s = .ok ty s') ∧
      ∀ ty s₁ ty' s₂, (letIn x value body).inferType scope i s = .ok ty s₁ →
        body'.inferType scope k s = .ok ty' s₂ →
          ∃ ρ : Var → Var, Set.InjOn ρ {w | w ∈ (s₁.resolve ty).vars} ∧
            s₂.resolve ty' = (s₁.resolve ty).rename ρ := by
  rw [hbody.inferType_congr, returns_iff hs hscope hi, returns_iff hs hscope hj,
    returns_iff hs hscope hk]
  constructor
  · constructor
    · rintro ⟨u, hu⟩
      obtain ⟨t, ht, -⟩ := hasType_letIn.1 hu
      exact ⟨⟨t, ht⟩, u, (hasType_letIn_iff_of_scope hs hscope ⟨t, ht⟩).1 hu⟩
    · rintro ⟨ht, u, hu⟩
      exact ⟨u, (hasType_letIn_iff_of_scope hs hscope ht).2 hu⟩
  · intro ty s₁ ty' s₂ hrun hrun'
    obtain ⟨-, -, htyp, hmost⟩ := (ends_inferType hs hscope hi).ok hrun
    obtain ⟨-, -, htyp', hmost'⟩ := (ends_inferType hs hscope hk).ok hrun'
    obtain ⟨t, ht, -⟩ := hasType_letIn.1 htyp
    have hsame : ∀ u, HasType (.ofScope scope s) (letIn x value body) u ↔
        HasType (.ofScope scope s) (body.substName x value) u :=
      fun u => hasType_letIn_iff_of_scope hs hscope ⟨t, ht⟩
    -- each of the two types is an instance of the other one
    obtain ⟨σ, hσ⟩ := hmost _ ((hsame _).2 htyp')
    obtain ⟨τ, hτ⟩ := hmost' _ ((hsame _).1 htyp)
    exact Term.exists_rename hσ hτ

def callsId : Expr := fn "x" (app (name "id") (name "x"))

/-- the definition is used at two types, below a parameter that has that name as well -/
def usesTwice : Expr :=
  fn "id" (app (app (name "f") (name "f")) (name "id"))

def writtenOut : Expr :=
  fn "y" (app (app callsId callsId) (name "y"))

theorem alphaEq_writtenOut : AlphaEq [] (usesTwice.substName "f" callsId) writtenOut := by
  have hsubst : usesTwice.substName "f" callsId =
      fn "id_____" (app (app callsId callsId) (name "id_____")) := by decide +kernel
  have hid : AlphaEq [("id_____", "y")] callsId callsId := by
    refine .fn (.app (.name ?_) (.name (.here _ _)))
    exact .there (by decide) (by decide) (.there (by decide) (by decide) (.free _))
  rw [hsubst]
  exact .fn (.app (.app hid hid) (.name (.here _ _)))

/-- a definition that is used at two types has the type of its expansion -/
theorem let_expansion_of_two_uses : ∃ ty s₁ ty' s₂ ρ,
    (letIn "f" callsId usesTwice).inferType identityScope (some 0) chainStore = .ok ty s₁ ∧
      writtenOut.inferType identityScope none chainStore = .ok ty' s₂ ∧
      Set.InjOn ρ {w | w ∈ (s₁.resolve ty).vars} ∧ s₂.resolve ty' = (s₁.resolve ty).rename ρ := by
  have hlet : Ends ((letIn "f" callsId usesTwice).inferType identityScope (some 0)) chainStore
      (fun _ _ => True) never := by decide +kernel
  obtain ⟨ty, s₁, hrun, -⟩ := hlet.exists_ok
  have hall := let_expansion Store.sound_chainStore within_identityScope (i := some 0) (j := none)
    (k := none) (by decide) nofun nofun alphaEq_writtenOut
  obtain ⟨-, ty', s₂, hrun'⟩ := hall.1.1 ⟨ty, s₁, hrun⟩
  obtain ⟨ρ, hρ, heq⟩ := hall.2 ty s₁ ty' s₂ hrun hrun'
  exact ⟨ty, s₁, ty', s₂, ρ, hrun, hrun', hρ, heq⟩

end Expr
end LetPoly
