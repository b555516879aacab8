import LetPoly.Proofs.Infer.Principal

/-!
# Soundness and completeness of inference

A scope at the start of inference has no non-generic types around it, so each of its names stands
for all instances of its resolved type.  `Expr.inferType_sound` says that the type of an expression
is derivable, `Expr.inferType_principal` that there is no other way to type it: whatever type is
derivable is an instance of the one returned, and if inference fails, none is.
-/

namespace LetPoly

open StoreM
open Store (chainStore)

/-- every name of a scope with its resolved type, all vars quantified -/
noncomputable def Env.ofScope (scope : Scope Ty) (s : Store) : Env := fun x =>
  (scope.get? x).map fun t => Scheme.close ∅ (s.resolve t)

def Scope.Within (scope : Scope Ty) (s : Store) : Prop := ∀ x t, scope.get? x = some t → s.Has t

variable {s s' s₁ : Store} {scope : Scope Ty} {session : Option Nat} {e : Expr} {t : Ty}

theorem Context.env_ofScope (scope : Scope Ty) (s : Store) :
    ({ scope } : Context).env s = Env.ofScope scope s := by
  have hnone : s.varsOf ({ scope } : Context).nonGeneric = ∅ := by
    ext v
    simp [Store.varsOf]
  funext x
  rw [Context.env, hnone]
  rfl

theorem Env.freeVars_ofScope (scope : Scope Ty) (s : Store) : (ofScope scope s).freeVars = ∅ := by
  ext v
  simp only [Set.mem_empty_iff_false, iff_false]
  rintro ⟨x, τ, hx, hv⟩
  obtain ⟨t, -, rfl⟩ := Option.map_eq_some_iff.1 hx
  exact (Scheme.mem_freeVars_close.1 hv).1

theorem Env.replace_ofScope (scope : Scope Ty) (s : Store) (σ : Var → Term Var) :
    (ofScope scope s).replace σ = ofScope scope s := by
  funext x
  cases hx : scope.get? x with
  | none => rw [replace, ofScope, hx, Option.map_none, Option.map_none]
  | some t =>
    rw [replace, ofScope, hx, Option.map_some, Option.map_some, Scheme.close, Scheme.replace,
      Term.subst_subst]
    congr 1
    exact Term.subst_congr fun v _ => by rw [if_neg (Set.notMem_empty v)]; rfl

theorem Scope.Within.context (h : scope.Within s) : ({ scope } : Context).Within s := ⟨h, nofun⟩

def ownSession : Option Nat → StoreM Nat
  | some i => pure i
  | none => newSession firstName

theorem inferType_eq (e : Expr) (scope : Scope Ty) (session : Option Nat) :
    e.inferType scope session = do
      let t ← e.infer (← ownSession session) { scope }
      note (.inferred t)
      return t := by
  cases session <;> rfl

theorem ends_ownSession (hi : ∀ i ∈ session, i < s.sessions.size) :
    Ends (ownSession session) s (fun i s₁ => s.Keeps s₁ ∧ i < s₁.sessions.size) never := by
  cases session with
  | some i => exact ⟨.refl s, hi i rfl⟩
  | none => exact ⟨s.keeps_pushSession 'α'.toNat, by simp⟩

/-- what there is to say of inferring the type of a whole expression -/
theorem ends_inferType (hs : s.Sound) (hscope : scope.Within s)
    (hi : ∀ i ∈ session, i < s.sessions.size) :
    Ends (e.inferType scope session) s
      (fun t s' => Binds ∅ s s' ∧ s'.Has t ∧ HasType (.ofScope scope s) e (s'.resolve t) ∧
        ∀ u, HasType (.ofScope scope s) e u → ∃ σ, (s'.resolve t).subst σ = u)
      fun f s' => Binds ∅ s s' ∧ Rejection f s' ∧ ¬ ∃ u, HasType (.ofScope scope s) e u := by
  rw [inferType_eq]
  refine (ends_ownSession hi).safe.bind fun i s₁ ⟨hk, hi₁⟩ => ?_
  have hs₁ := hk.sound hs
  have hΓ₁ : ({ scope } : Context).Within s₁ := hscope.context.mono hk.made
  have henv : ({ scope } : Context).env s₁ = .ofScope scope s := by
    rw [Context.env_keeps hk hs.acyclic, Context.env_ofScope]
  have hbinds : ∀ s', Binds (({ scope } : Context).env s₁).freeVars s₁ s' → Binds ∅ s s' := by
    intro s' hb
    rw [henv, Env.freeVars_ofScope] at hb
    exact (Binds.of_keeps hk hs).trans hb fun _ hw => nomatch hw
  refine ((infers e hs₁ hΓ₁ hi₁).error_mono fun f s' h => ?_).bind fun t s₂ h => ?_
  · refine ⟨hbinds s' h.binds, h.rejection, fun ⟨u, hu⟩ => ?_⟩
    refine h.underivable s₁.value u hs₁.acyclic.value_solution ?_
    rwa [henv, Env.replace_ofScope]
  · have hs₂ := h.binds.sound
    refine (ends_note (.inferred t)).safe.bind fun _ s₃ hq => ?_
    refine ⟨(hbinds s₂ h.binds).keeps hq.toKeeps, hq.has_of_has h.result.has, ?_, fun u hu => ?_⟩
    · have hd := h.derivable
      rw [h.binds.env_eq hs₁ hΓ₁, henv, Env.replace_ofScope] at hd
      rwa [hq.resolve_eq hs₂.acyclic]
    · have hu₁ : HasType ((({ scope } : Context).env s₁).replace s₁.value) e u := by
        rwa [henv, Env.replace_ofScope]
      obtain ⟨σ, -, hσ, ht⟩ := h.principal s₁.value u hs₁.acyclic.value_solution hu₁
      refine ⟨σ, ?_⟩
      rw [hq.resolve_eq hs₂.acyclic, hσ.subst_resolve hs₂.acyclic, ht]

/-- the identity, between a var and the one that it is bound to -/
def identityScope : Scope Ty := .ofList [("id", .op 2 Ty.funcName [.var ⟨0, 0⟩, .var ⟨0, 1⟩])]

theorem within_identityScope : identityScope.Within chainStore := by
  intro x t hx
  have hid : identityScope.get? = fun x =>
      if x = "id" then some (.op 2 Ty.funcName [.var ⟨0, 0⟩, .var ⟨0, 1⟩]) else none := by
    funext y
    exact Scope.get?_extend .empty "id" y _
  rw [hid] at hx
  simp only at hx
  split at hx
  · cases hx
    exact ⟨by decide, by decide⟩
  · cases hx

namespace Expr

/-- the type of an expression is derivable -/
theorem inferType_sound (hs : s.Sound) (hscope : scope.Within s)
    (hi : ∀ i ∈ session, i < s.sessions.size) (h : e.inferType scope session s = .ok t s') :
    s'.Acyclic ∧ HasType (.ofScope scope s) e (s'.resolve t) := by
  obtain ⟨hb, -, hd, -⟩ := (ends_inferType hs hscope hi).ok h
  exact ⟨hb.sound.acyclic, hd⟩

/-- a definition that calls `id`, and is called itself -/
def calls : Expr := letIn "f" (fn "x" (app (name "id") (name "x"))) (app (name "f") (name "5"))

/-- an expression whose type comes from a scope over a store with a bound var -/
theorem inferType_sound_of_scope :
    ∃ t s', calls.inferType identityScope (some 0) chainStore = .ok t s' ∧
      HasType (.ofScope identityScope chainStore) calls (s'.resolve t) := by
  have hrun : Ends (calls.inferType identityScope (some 0)) chainStore (fun _ _ => True) never := by
    decide +kernel
  obtain ⟨t, s', h, -⟩ := hrun.exists_ok
  obtain ⟨-, htyp⟩ := inferType_sound Store.sound_chainStore within_identityScope (by decide) h
  exact ⟨t, s', h, htyp⟩

/-- the type of an expression is the most general one that is derivable, and only expressions
without a type fail -/
theorem inferType_principal (hs : s.Sound) (hscope : scope.Within s)
    (hi : ∀ i ∈ session, i < s.sessions.size) :
    ((∃ u, HasType (.ofScope scope s) e u) →
      ∃ t s', e.inferType scope session s = .ok t s' ∧ s'.Acyclic ∧
        ∀ u, HasType (.ofScope scope s) e u → ∃ σ, (s'.resolve t).subst σ = u) ∧
      ∀ f s', e.inferType scope session s = .error f s' →
        Rejection f s' ∧ ¬ ∃ u, HasType (.ofScope scope s) e u := by
  have h := ends_inferType (e := e) hs hscope hi
  constructor
  · intro htyp
    cases hrun : e.inferType scope session s with
    | ok t s' =>
      obtain ⟨hb, -, -, hmost⟩ := h.ok hrun
      exact ⟨t, s', rfl, hb.sound.acyclic, hmost⟩
    | error f s' =>
      obtain ⟨-, -, hno⟩ := h.error hrun
      exact absurd htyp hno
  · intro f s' hrun
    obtain ⟨-, hrej, hno⟩ := h.error hrun
    exact ⟨hrej, hno⟩

/-- a definition that is used for one of its instances -/
theorem inferType_principal_of_let :
    ∃ t s', (letIn "f" (fn "x" (name "x")) (app (name "f") (name "5"))).inferType
        Scope.empty none chainStore = .ok t s' ∧ ∃ σ, (s'.resolve t).subst σ = Term.int := by
  let a : Term Var := .var ⟨0, 1⟩
  have hfn : HasType (.ofScope .empty chainStore) (fn "x" (name "x")) (Term.func a a) :=
    .fn (.name Env.bind_self ⟨.var, Scheme.instantiate_mono _⟩)
  have hf : (Env.generalise (.ofScope .empty chainStore) (Term.func a a)).HasInstance
      (Term.func Term.int Term.int) := by
    refine ⟨fun _ => Term.int, ?_⟩
    rw [Env.generalise, Env.freeVars_ofScope, Scheme.instantiate_close]
    simp [Term.func, a]
  have hnone : ((Env.ofScope .empty chainStore).bind "f"
      (Env.generalise (.ofScope .empty chainStore) (Term.func a a))) "5" = none :=
    Env.bind_of_ne (by decide)
  have htyp := HasType.letIn hfn
    (.app (.name Env.bind_self hf) (.numeral hnone (isInteger_iff.1 (by decide))))
  have hscope : (Scope.empty : Scope Ty).Within chainStore := by
    intro x t hx
    cases hx
  have hi : ∀ i ∈ (none : Option Nat), i < chainStore.sessions.size := by
    intro i hi
    cases hi
  obtain ⟨t, s', hrun, -, hmost⟩ :=
    (inferType_principal Store.sound_chainStore hscope hi).1 ⟨_, htyp⟩
  exact ⟨t, s', hrun, hmost _ htyp⟩

end Expr
end LetPoly
