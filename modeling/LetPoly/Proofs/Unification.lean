import LetPoly.Proofs.Store.Unify

/-!
# Most general unifiers

`Ty.unify` returns exactly if the resolved forms of the two types have a unifier, and what it has
bound then is the most general one: every unifier is an instance of it (`unify_most_general`).  If
there is no unifier, the failure is a circle or a clash, unless the clash found no names left to be
shown with.
-/

namespace LetPoly

open StoreM

namespace Store

/-- `σ` makes `l` and `r` equal, in place of the unbound vars that they stand for -/
def Unifier (s : Store) (l r : Ty) (σ : Var → Term Var) : Prop :=
  (s.resolve l).subst σ = (s.resolve r).subst σ

variable {s : Store}

theorem Solution.unifier_iff {σ : Var → Term Var} (hσ : s.Solution σ) (hs : s.Acyclic) (l r : Ty) :
    s.Unifier l r σ ↔ l.term.subst σ = r.term.subst σ := by
  rw [Unifier, hσ.subst_resolve hs, hσ.subst_resolve hs]

theorem unifier_iff_comp (l r : Ty) (σ : Var → Term Var) :
    s.Unifier l r σ ↔
      l.term.subst (fun v => (s.value v).subst σ) = r.term.subst fun v => (s.value v).subst σ := by
  rw [Unifier, resolve_subst_comp, resolve_subst_comp]

end Store

namespace Ty

open Store (chainStore)

variable {s s' : Store} {l r : Ty}

/-- `s'` makes `l` and `r` equal, and identifies nothing that a unifier in `s` keeps apart -/
structure MostGeneral (s : Store) (l r : Ty) (s' : Store) : Prop where
  sound : s'.Sound
  equal : s'.resolve l = s'.resolve r
  factors : ∀ σ, s.Unifier l r σ → ∀ v, s.binding? v = none → σ v = (s'.value v).subst σ

theorem Equated.mostGeneral (h : Equated s l r s') (hs : s.Acyclic) : MostGeneral s l r s' where
  sound := h.grows.sound
  equal := h.resolve_eq
  factors := by
    intro σ hσ v hv
    have hsol : s'.Solution fun w => (s.value w).subst σ :=
      (h.solution _).2 ⟨hs.solution_comp σ, (Store.unifier_iff_comp l r σ).1 hσ⟩
    -- on the vars that are unbound in `s'` the solution and `σ` are the same
    have hfree : ∀ w ∈ (s'.value v).vars, (s.value w).subst σ = σ w := by
      intro w hw
      rw [Store.value_of_unbound (h.grows.unbound w (h.grows.acyclic.unbound_of_mem_value hw)),
        Term.subst_var]
    calc σ v = (s.value v).subst σ := by rw [Store.value_of_unbound hv, Term.subst_var]
      _ = (s'.value v).subst fun w => (s.value w).subst σ :=
        (hsol.subst_value h.grows.acyclic v).symm
      _ = (s'.value v).subst σ := Term.subst_congr hfree

theorem Refused.no_unifier {f : Failure} (h : Refused s l r f s') (hs : s.Acyclic) :
    ¬ ∃ σ, s.Unifier l r σ := by
  rintro ⟨σ, hσ⟩
  exact h.unsolvable _ (hs.solution_comp σ) ((Store.unifier_iff_comp l r σ).1 hσ)

/-- unification computes a most general unifier, or there is none -/
theorem unify_most_general (hs : s.Sound) (hl : s.Has l) (hr : s.Has r) :
    ((∃ s', unify l r s = .ok ⟨⟩ s') ↔ ∃ σ, s.Unifier l r σ) ∧
      (∀ s', unify l r s = .ok ⟨⟩ s' → MostGeneral s l r s') ∧
      ((¬ ∃ σ, s.Unifier l r σ) → ∃ f s', unify l r s = .error f s' ∧ Refusal f s') := by
  have h := ends_unify hs hl hr
  have hok : ∀ s', unify l r s = .ok ⟨⟩ s' → Equated s l r s' := fun s' hu => h.ok hu
  have hunifier : ∀ s', unify l r s = .ok ⟨⟩ s' → ∃ σ, s.Unifier l r σ := by
    intro s' hu
    have hval := (hok s' hu).grows.acyclic.value_solution
    obtain ⟨hsol, heq⟩ := ((hok s' hu).solution _).1 hval
    exact ⟨s'.value, (hsol.unifier_iff hs.acyclic l r).2 heq⟩
  cases hu : unify l r s with
  | ok u s' =>
    refine ⟨⟨fun _ => hunifier s' hu, fun _ => ⟨s', rfl⟩⟩, fun s'' heq => ?_, fun hno => ?_⟩
    · rw [← hu] at heq
      exact (hok s'' heq).mostGeneral hs.acyclic
    · exact absurd (hunifier s' hu) hno
  | error f s' =>
    have hf := h.error hu
    refine ⟨⟨nofun, fun hσ => absurd hσ (hf.no_unifier hs.acyclic)⟩, nofun, fun _ => ?_⟩
    exact ⟨f, s', rfl, hf.refusal⟩

/-- a var behind a chain is unified with an operator over another var, and the two vars at the ends
are found equal no more than they have to be -/
theorem unify_most_general_of_chain :
    ∃ s', unify (var ⟨0, 0⟩) (op 2 funcName [int, var ⟨0, 2⟩]) chainStore = .ok ⟨⟩ s' ∧
      MostGeneral chainStore (var ⟨0, 0⟩) (op 2 funcName [int, var ⟨0, 2⟩]) s' := by
  have hl : chainStore.Has (var ⟨0, 0⟩) := ⟨by decide, by decide⟩
  have hr : chainStore.Has (op 2 funcName [int, var ⟨0, 2⟩]) := ⟨by decide, by decide⟩
  obtain ⟨hiff, hmost, -⟩ := unify_most_general Store.sound_chainStore hl hr
  obtain ⟨s', hs'⟩ := hiff.2 ⟨fun v => if v.id = 1 then .op funcName [.op "int" [], .var ⟨0, 2⟩]
    else .var v, rfl⟩
  exact ⟨s', hs', hmost s' hs'⟩

end Ty
end LetPoly
