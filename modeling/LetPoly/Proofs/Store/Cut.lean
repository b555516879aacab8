import LetPoly.Proofs.Store.Frame
import LetPoly.Proofs.Store.Prune

/-!
# Chains cut short

A look-up that returns has found the end of a chain, and the store it leaves differs from the one
before only in chains that have been cut short (`Store.Cuts`).  That is so on any store, and it goes
for all operations that search and show types, also when they fail (`closed_cuts`).
-/

namespace LetPoly

open StoreM

namespace Store

/-- `s'` is `s` but for chains of bindings that have been cut short -/
structure Cuts (s s' : Store) : Prop where
  made : ∀ v, s'.Made v ↔ s.Made v
  unbound : ∀ v, s'.binding? v = none ↔ s.binding? v = none
  along : ∀ v u, s'.binding? v = some u → ∃ t, s.binding? v = some t ∧ s.Leads t u

variable {s s₁ s₂ : Store} {t u : Ty} {v : Var}

namespace Cuts

theorem of_binding?_eq (hm : ∀ v, s₁.Made v ↔ s.Made v)
    (hb : ∀ v, s₁.binding? v = s.binding? v) : s.Cuts s₁ where
  made := hm
  unbound v := by rw [hb]
  along v u hu := ⟨u, hb v ▸ hu, .refl⟩

theorem refl (s : Store) : s.Cuts s := .of_binding?_eq (fun _ => Iff.rfl) fun _ => rfl

theorem leads (h : s.Cuts s₁) (hl : s₁.Leads t u) : s.Leads t u := by
  induction hl with
  | refl => exact .refl
  | tail _ hstep ih =>
    obtain ⟨v, rfl, hv⟩ := hstep
    obtain ⟨w, hw, hl⟩ := h.along v _ hv
    exact ih.trans (leads_var hw hl)

theorem trans (h : s.Cuts s₁) (h' : s₁.Cuts s₂) : s.Cuts s₂ where
  made v := (h'.made v).trans (h.made v)
  unbound v := (h'.unbound v).trans (h.unbound v)
  along v u hu := by
    obtain ⟨w, hw, hl⟩ := h'.along v u hu
    obtain ⟨t, ht, hl'⟩ := h.along v w hw
    exact ⟨t, ht, hl'.trans (h.leads hl)⟩

theorem ended (h : s.Cuts s₁) : s₁.Ended t ↔ s.Ended t :=
  forall₂_congr fun v _ => h.unbound v

theorem shortened (h : s.Cuts s₁) (hv : s.binding? v = some t) (hl : s.Leads t u) :
    s.Cuts (s₁.shortened [v] u) := by
  have hmade : ∀ w ∈ [v], s₁.Made w := by
    intro w hw
    rw [List.mem_singleton] at hw
    exact hw ▸ (h.made v).2 (made_of_binding? hv)
  refine ⟨fun w => ?_, fun w => ?_, fun w x hx => ?_⟩
  · rw [Made, madeBy_shortened]
    exact h.made w
  · rw [binding?_shortened u hmade]
    split
    · next hin => rw [List.mem_singleton.1 hin.2, hv]; simp
    · exact h.unbound w
  · rw [binding?_shortened u hmade] at hx
    split at hx
    · next hin =>
      cases hx
      exact ⟨t, List.mem_singleton.1 hin.2 ▸ hv, hl⟩
    · exact h.along w x hx

end Cuts

instance : IsPreorder Store Cuts where
  refl := .refl
  trans _ _ _ h h' := h.trans h'

end Store

namespace Ty

open Store (Cuts)

variable {s : Store} {t : Ty}

theorem prune_ended (h : s.Ended t) : prune t s = .ok t s := pruneWithin_ended h

/-- a look-up that fails has come back to where it was, and has changed nothing -/
theorem ends_pruneWithin (fuel : Nat) (t : Ty) (s : Store) :
    Ends (pruneWithin fuel t) s (fun u s' => s.Cuts s' ∧ s.Leads t u ∧ s.Ended u)
      fun f s' => f = .endlessChain ∧ s' = s := by
  induction fuel generalizing t with
  | zero =>
    rcases s.ended_or_bound t with ht | ⟨v, w, rfl, hb⟩
    · exact (ends_of_ok (pruneWithin_ended ht)).2 ⟨.refl s, .refl, ht⟩
    · rw [pruneWithin.eq_def]
      dsimp only
      rw [ends_get, hb]
      exact ⟨rfl, rfl⟩
  | succ fuel ih =>
    rcases s.ended_or_bound t with ht | ⟨v, w, rfl, hb⟩
    · exact (ends_of_ok (pruneWithin_ended ht)).2 ⟨.refl s, .refl, ht⟩
    · rw [pruneWithin.eq_def]
      dsimp only
      rw [ends_get, hb]
      refine (ih w).bind fun last s₁ h => ?_
      obtain ⟨hcuts, hl, hend⟩ := h
      refine ends_bind_iff.2 ((ends_of_ok (shorten_eq s₁ v last)).2 ?_)
      exact ⟨hcuts.shortened hb hl, Store.leads_var hb hl, hend⟩

theorem ends_prune_or (t : Ty) (s : Store) :
    Ends (prune t) s (fun u s' => s'.Ended u) fun f _ => f = .endlessChain :=
  (ends_pruneWithin s.varCount t s).mono (fun _ _ h => h.1.ended.2 h.2.2) fun _ _ h => h.1

/-- searching and showing types cut chains short, and do nothing else to bindings -/
theorem closed_cuts : Closed.Render fun _ act => Preserves Cuts act where
  toSteps := steps_preserves
  prune t s := (ends_pruneWithin s.varCount t s).mono (fun _ _ h => h.1) fun _ _ h => h.2 ▸ .refl s
  nameOf := preserves_nameOf
    (fun s i => .of_binding?_eq (s.made_modifySession i fun _ => rfl)
      (s.binding?_modifySession i fun _ => rfl))
    fun s v code => .of_binding?_eq (s.made_modifyCell v _) fun w => s.binding?_named v w code

end Ty
end LetPoly
