import Mathlib.Data.Set.Basic
import LetPoly.Proofs.Store.Chain

/-!
# How a store changes

Relations between the store before some steps and the store after them:

* `Store.Keeps s s'`      no var of `s` is bound or freed, and every type keeps its resolved form:
                          only chains get shorter, and unbound vars are made or named;
* `Store.Quiet s s'`      the same, and no var is made;
* `Store.Grows s s'`      bound vars stay bound and every solution of `s'` is one of `s`, so every
                          resolved form of `s'` is an instance of the one of `s`;
* `Store.Touches E s s'`  vars that were made before are bound only if they are in `E`, and then to
                          types over `E` and new vars.

Each is closed under composition, so what holds of the steps holds of the run.
-/

namespace LetPoly.Store

structure Keeps (s s' : Store) : Prop where
  sessions : s.sessions.size ≤ s'.sessions.size
  made : ∀ v, s.Made v → s'.Made v
  bound : ∀ v, s'.binding? v = none ↔ s.binding? v = none
  leads : ∀ t u, s.Leads t u → s.Ended u → s'.Leads t u
  solution : ∀ σ, s'.Solution σ ↔ s.Solution σ
  ranked : ∀ rank, s.Ranked rank → s'.Ranked rank
  has : (∀ v t, s.binding? v = some t → s.Has t) → ∀ v t, s'.binding? v = some t → s'.Has t

structure Quiet (s s' : Store) : Prop extends Keeps s s' where
  only : ∀ v, s'.Made v → s.Made v

structure Grows (s s' : Store) : Prop where
  sound : s'.Sound
  sessions : s.sessions.size ≤ s'.sessions.size
  made : ∀ v, s.Made v → s'.Made v
  unbound : ∀ v, s'.binding? v = none → s.binding? v = none
  last : ∀ t, s'.last t = s'.last (s.last t)
  solution : ∀ σ, s'.Solution σ → s.Solution σ

/-- the vars in the resolved forms of some types -/
def varsOf (s : Store) (ts : List Ty) : Set Var := {v | ∃ t ∈ ts, v ∈ (s.resolve t).vars}

/-- the vars of `E` and all vars that are still to be made -/
def orNew (s : Store) (E : Set Var) : Set Var := {w | s.Made w → w ∈ E}

def Touches (E : Set Var) (s s' : Store) : Prop :=
  ∀ v, s.Made v → s.binding? v = none →
    (v ∉ E → s'.binding? v = none) ∧ (v ∈ E → ∀ w ∈ (s'.value v).vars, w ∈ s.orNew E)

variable {s s₁ s₂ : Store} {t : Ty}

theorem Has.mono (h : s.Has t) (hmade : ∀ v, s.Made v → s₁.Made v) : s₁.Has t :=
  ⟨h.whole, fun v hv => hmade v (h.made v hv)⟩

/-! ## same meaning -/

namespace Keeps

theorem ended (h : s.Keeps s₁) (ht : s.Ended t) : s₁.Ended t := fun v hv => (h.bound v).2 (ht v hv)

theorem refl (s : Store) : s.Keeps s where
  sessions := Nat.le_refl _
  made _ h := h
  bound _ := Iff.rfl
  leads _ _ h _ := h
  solution _ := Iff.rfl
  ranked _ h := h
  has h := h

theorem trans (h : s.Keeps s₁) (h' : s₁.Keeps s₂) : s.Keeps s₂ where
  sessions := Nat.le_trans h.sessions h'.sessions
  made v hv := h'.made v (h.made v hv)
  bound v := (h'.bound v).trans (h.bound v)
  leads t u hl hu := h'.leads t u (h.leads t u hl hu) (h.ended hu)
  solution σ := (h'.solution σ).trans (h.solution σ)
  ranked rank hr := h'.ranked rank (h.ranked rank hr)
  has hs := h'.has (h.has hs)

theorem acyclic (h : s.Keeps s₁) (hs : s.Acyclic) : s₁.Acyclic := by
  obtain ⟨rank, hr, -⟩ := hs.exists_rank
  exact (h.ranked rank hr).acyclic

theorem sound (h : s.Keeps s₁) (hs : s.Sound) : s₁.Sound := ⟨h.acyclic hs.acyclic, h.has hs.has⟩

theorem has_of_has (h : s.Keeps s₁) (ht : s.Has t) : s₁.Has t := ht.mono h.made

theorem last_eq (h : s.Keeps s₁) (hs : s.Acyclic) (t : Ty) : s₁.last t = s.last t :=
  (h.acyclic hs).last_of_leads (h.leads t _ (s.leads_last t) (hs.ended_last t))
    (h.ended (hs.ended_last t))

theorem grows (h : s.Keeps s₁) (hs : s.Sound) : s.Grows s₁ where
  sound := h.sound hs
  sessions := h.sessions
  made := h.made
  unbound v hv := (h.bound v).1 hv
  last t := by rw [h.last_eq hs.acyclic, (h.ended (hs.acyclic.ended_last t)).last_eq]
  solution σ hσ := (h.solution σ).1 hσ

theorem of_binding?_eq (hs : s.sessions.size ≤ s₁.sessions.size) (hm : ∀ v, s.Made v → s₁.Made v)
    (hb : ∀ v, s₁.binding? v = s.binding? v) : s.Keeps s₁ where
  sessions := hs
  made := hm
  bound v := by rw [hb]
  leads _ _ hl _ := hl.mono fun v w hv => (hb v).trans hv
  solution σ := by simp only [Solution, hb]
  ranked rank hr := by simpa only [Ranked, hb] using hr
  has hs v t ht := (hs v t (hb v ▸ ht)).mono hm

/-- each of the two values solves the other store, and both leave its unbound vars alone -/
theorem value_eq (h : s.Keeps s₁) (hs : s.Acyclic) : s₁.value = s.value := by
  have hs₁ := h.acyclic hs
  funext v
  have hval : (s₁.value v).subst s.value = s.value v :=
    ((h.solution _).2 hs.value_solution).subst_value hs₁ v
  rw [← hval]
  refine (Term.subst_eq_self fun w hw => ?_).symm
  exact value_of_unbound ((h.bound w).1 (hs₁.unbound_of_mem_value hw))

theorem resolve_eq (h : s.Keeps s₁) (hs : s.Acyclic) (t : Ty) : s₁.resolve t = s.resolve t := by
  rw [resolve, resolve, h.value_eq hs]

theorem varsOf_eq (h : s.Keeps s₁) (hs : s.Acyclic) (ts : List Ty) :
    s₁.varsOf ts = s.varsOf ts := by
  simp only [varsOf, h.resolve_eq hs]

theorem touches (h : s.Keeps s₁) (hs : s.Acyclic) (E : Set Var) : Touches E s s₁ := by
  intro v _ hv
  refine ⟨fun _ => (h.bound v).2 hv, fun hE w hw _ => ?_⟩
  rw [h.value_eq hs, value_of_unbound hv, Term.vars_var, List.mem_singleton] at hw
  exact hw ▸ hE

end Keeps

namespace Quiet

theorem refl (s : Store) : s.Quiet s := ⟨.refl s, fun _ h => h⟩

theorem trans (h : s.Quiet s₁) (h' : s₁.Quiet s₂) : s.Quiet s₂ :=
  ⟨h.toKeeps.trans h'.toKeeps, fun v hv => h.only v (h'.only v hv)⟩

theorem of_binding?_eq (hs : s.sessions.size ≤ s₁.sessions.size) (hm : ∀ v, s₁.Made v ↔ s.Made v)
    (hb : ∀ v, s₁.binding? v = s.binding? v) : s.Quiet s₁ :=
  ⟨.of_binding?_eq hs (fun v hv => (hm v).2 hv) hb, fun v hv => (hm v).1 hv⟩

end Quiet

/-! ## more bindings -/

namespace Grows

theorem refl (hs : s.Sound) : s.Grows s := (Keeps.refl s).grows hs

theorem trans (h : s.Grows s₁) (h' : s₁.Grows s₂) : s.Grows s₂ where
  sound := h'.sound
  sessions := Nat.le_trans h.sessions h'.sessions
  made v hv := h'.made v (h.made v hv)
  unbound v hv := h.unbound v (h'.unbound v hv)
  last t := by rw [h'.last t, h.last t, ← h'.last (s.last t)]
  solution σ hσ := h.solution σ (h'.solution σ hσ)

theorem acyclic (h : s.Grows s₁) : s₁.Acyclic := h.sound.acyclic

theorem has (h : s.Grows s₁) (ht : s.Has t) : s₁.Has t := ht.mono h.made

theorem value_eq (h : s.Grows s₁) (hs : s.Acyclic) (v : Var) :
    s₁.value v = (s.value v).subst s₁.value :=
  ((h.solution _ h.acyclic.value_solution).subst_value hs v).symm

theorem resolve_eq (h : s.Grows s₁) (hs : s.Acyclic) (t : Ty) :
    s₁.resolve t = (s.resolve t).subst s₁.value :=
  ((h.solution _ h.acyclic.value_solution).subst_resolve hs t).symm

theorem resolve_congr (h : s.Grows s₁) (hs : s.Acyclic) {t u : Ty}
    (htu : s.resolve t = s.resolve u) : s₁.resolve t = s₁.resolve u := by
  rw [h.resolve_eq hs, h.resolve_eq hs, htu]

end Grows

/-! ## few bindings -/

theorem mem_orNew_of_mem {E : Set Var} {w : Var} (h : w ∈ E) : w ∈ s.orNew E := fun _ => h

theorem mem_orNew_of_not_made {E : Set Var} {w : Var} (h : ¬ s.Made w) : w ∈ s.orNew E :=
  fun hw => absurd hw h

theorem Grows.orNew_subset (h : s.Grows s₁) {E E' : Set Var} (hE : E ⊆ s.orNew E') :
    s₁.orNew E ⊆ s.orNew E' := fun w hw hm => hE (hw (h.made w hm)) hm

namespace Touches

variable {E E₁ : Set Var}

/-- types over `A` stay types over `A`, if `A` has all that is touched and all that is new -/
theorem mem_resolve (h : Touches E s s₁) (g : s.Grows s₁) (hs : s.Sound) (ht : s.Has t)
    {A : Set Var} (hE : s.orNew E ⊆ A) (hA : ∀ w ∈ (s.resolve t).vars, w ∈ A) :
    ∀ w ∈ (s₁.resolve t).vars, w ∈ A := by
  intro w hw
  rw [g.resolve_eq hs.acyclic, Term.mem_vars_subst] at hw
  obtain ⟨v, hv, hw⟩ := hw
  obtain ⟨hfree, hin⟩ := h v (hs.made_of_mem ht hv) (hs.acyclic.unbound_of_mem hv)
  by_cases hvE : v ∈ E
  · exact hE (hin hvE w hw)
  · rw [value_of_unbound (hfree hvE), Term.vars_var, List.mem_singleton] at hw
    exact hw ▸ hA v hv

theorem trans (h : Touches E s s₁) (h' : Touches E₁ s₁ s₂) (g : s.Grows s₁) (g' : s₁.Grows s₂)
    (hE : E₁ ⊆ s.orNew E) : Touches E s s₂ := by
  intro v hm hv
  obtain ⟨hfree, hin⟩ := h v hm hv
  constructor
  · intro hvE
    exact (h' v (g.made v hm) (hfree hvE)).1 fun hv₁ => hvE (hE hv₁ hm)
  · intro hvE
    refine h'.mem_resolve g' g.sound (t := .var v) (has_var.2 (g.made v hm)) ?_ (hin hvE)
    exact g.orNew_subset hE

theorem mono (h : Touches E s s₁) (hE : E ⊆ E₁) : Touches E₁ s s₁ := by
  intro v hm hv
  obtain ⟨hfree, hin⟩ := h v hm hv
  refine ⟨fun hv₁ => hfree fun hvE => hv₁ (hE hvE), fun hv₁ w hw => ?_⟩
  by_cases hvE : v ∈ E
  · exact fun hm => hE (hin hvE w hw hm)
  · rw [value_of_unbound (hfree hvE), Term.vars_var, List.mem_singleton] at hw
    exact mem_orNew_of_mem (hw ▸ hv₁)

end Touches
end LetPoly.Store
