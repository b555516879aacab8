import LetPoly.Proofs.Store.Resolve
import LetPoly.Store.LookUp

/-!
# Chains of bindings

Following the binding of a var again and again leads to the end of its chain, an unbound var or an
operator: `Store.last`.  A chain has one end, and everything on it stands for the same term.
-/

namespace LetPoly.Store

/-- `u` is reached from `t` by following bindings -/
def Leads (s : Store) : Ty → Ty → Prop :=
  Relation.ReflTransGen fun t u => ∃ v, t = .var v ∧ s.binding? v = some u

def Ended (s : Store) (t : Ty) : Prop := ∀ v, t = .var v → s.binding? v = none

variable {s s' : Store} {rank : Var → Nat} {σ : Var → Term Var}

/-! ## chains -/

theorem leads_var {v : Var} {t u : Ty} (hv : s.binding? v = some t) (h : s.Leads t u) :
    s.Leads (.var v) u := .head ⟨v, rfl, hv⟩ h

theorem ended_var {v : Var} : s.Ended (.var v) ↔ s.binding? v = none :=
  ⟨fun h => h v rfl, fun h w hw => by cases hw; exact h⟩

theorem ended_of_ne_var {t : Ty} (h : ∀ v, t ≠ .var v) : s.Ended t := fun v hv => absurd hv (h v)

theorem ended_op {k : Nat} {n : String} {as : List Ty} : s.Ended (.op k n as) :=
  ended_of_ne_var Ty.op_ne_var

theorem ended_hole : s.Ended .hole := ended_of_ne_var Ty.hole_ne_var

theorem Ended.eq_of_leads {t u : Ty} (ht : s.Ended t) (h : s.Leads t u) : t = u := by
  rcases Relation.ReflTransGen.cases_head h with h | ⟨_, ⟨v, hv, hb⟩, -⟩
  · exact h
  · rw [ht v hv] at hb
    cases hb

theorem Leads.unique {t u w : Ty} (h : s.Leads t u) (hu : s.Ended u) (h' : s.Leads t w)
    (hw : s.Ended w) : u = w := by
  induction h using Relation.ReflTransGen.head_induction_on with
  | refl => exact hu.eq_of_leads h'
  | head hstep _ ih =>
    obtain ⟨v, rfl, hb⟩ := hstep
    rcases Relation.ReflTransGen.cases_head h' with rfl | ⟨_, ⟨v', hv', hb'⟩, hrest⟩
    · rw [hw v rfl] at hb
      cases hb
    · cases hv'
      rw [hb, Option.some.injEq] at hb'
      exact ih (hb' ▸ hrest)

theorem Solution.subst_of_leads (hσ : s.Solution σ) {t u : Ty} (h : s.Leads t u) :
    t.term.subst σ = u.term.subst σ := by
  induction h using Relation.ReflTransGen.head_induction_on with
  | refl => rfl
  | head hstep _ ih =>
    obtain ⟨v, rfl, hb⟩ := hstep
    rw [← ih, Ty.term_var, Term.subst_var, hσ v _ hb]

theorem Acyclic.resolve_of_leads (h : s.Acyclic) {t u : Ty} (hl : s.Leads t u) :
    s.resolve t = s.resolve u := h.value_solution.subst_of_leads hl

theorem Ranked.lt_of_leads (hr : s.Ranked rank) {v : Var} {t u : Ty} (hv : s.binding? v = some t)
    (h : s.Leads t u) : ∀ w ∈ u.term.vars, rank w < rank v := by
  induction h with
  | refl => exact (hr v t hv).2
  | tail _ hstep ih =>
    obtain ⟨x, rfl, hx⟩ := hstep
    intro w hw
    have hxv := ih x (List.mem_singleton_self x)
    exact Nat.lt_trans ((hr x _ hx).2 w hw) hxv

theorem Leads.has {t u : Ty} (h : s.Leads t u)
    (hs : ∀ v t, s.binding? v = some t → s.Has t) (ht : s.Has t) : s.Has u := by
  induction h with
  | refl => exact ht
  | tail _ hstep _ =>
    obtain ⟨x, -, hx⟩ := hstep
    exact hs x _ hx

/-! ## the end that a look-up finds -/

theorem ended_or_bound (s : Store) (t : Ty) :
    s.Ended t ∨ ∃ v u, t = .var v ∧ s.binding? v = some u := by
  cases t with
  | var v =>
    cases hb : s.binding? v with
    | none =>
      left
      intro w hw
      cases hw
      exact hb
    | some u => exact .inr ⟨v, u, rfl, hb⟩
  | op k n as => exact .inl ended_op
  | hole => exact .inl ended_hole

theorem lastWithin_bound {fuel : Nat} {v : Var} {t : Ty} (h : s.binding? v = some t) :
    s.lastWithin (fuel + 1) (.var v) = s.lastWithin fuel t := by
  rw [lastWithin.eq_def]
  simp only [h]

theorem lastWithin_zero (t : Ty) : s.lastWithin 0 t = t := by
  cases t with
  | var v =>
    rw [lastWithin.eq_def]
    cases hb : s.binding? v <;> simp only [hb]
  | op k n as => simp [lastWithin]
  | hole => simp [lastWithin]

theorem lastWithin_ended {fuel : Nat} {t : Ty} (h : s.Ended t) : s.lastWithin fuel t = t := by
  cases t with
  | var v =>
    rw [lastWithin.eq_def]
    simp only [h v rfl]
  | op k n as => simp [lastWithin]
  | hole => simp [lastWithin]

theorem leads_lastWithin (s : Store) (fuel : Nat) (t : Ty) : s.Leads t (s.lastWithin fuel t) := by
  induction fuel generalizing t with
  | zero =>
    rw [lastWithin_zero]
    exact .refl
  | succ fuel ih =>
    rcases s.ended_or_bound t with ht | ⟨v, u, rfl, hb⟩
    · rw [lastWithin_ended ht]
      exact .refl
    · rw [lastWithin_bound hb]
      exact leads_var hb (ih u)

theorem leads_last (s : Store) (t : Ty) : s.Leads t (s.last t) := s.leads_lastWithin _ t

/-- the rank of what a bound var is bound to leaves fuel for the rest of the chain -/
theorem Ranked.le_of_bound (hr : s.Ranked rank) {fuel : Nat} {v : Var} {t : Ty}
    (hb : s.binding? v = some t) (hv : rank v ≤ fuel + 1) {w : Var} (hw : w ∈ t.term.vars) :
    rank w ≤ fuel := by
  have := (hr v t hb).2 w hw
  omega

theorem Ranked.ended_lastWithin (hr : s.Ranked rank) {fuel : Nat} {t : Ty}
    (h : ∀ v, t = .var v → rank v ≤ fuel) : s.Ended (s.lastWithin fuel t) := by
  induction fuel generalizing t with
  | zero =>
    rcases s.ended_or_bound t with ht | ⟨v, u, rfl, hb⟩
    · rwa [lastWithin_ended ht]
    · have := hr.pos hb
      have := h v rfl
      omega
  | succ fuel ih =>
    rcases s.ended_or_bound t with ht | ⟨v, u, rfl, hb⟩
    · rwa [lastWithin_ended ht]
    · rw [lastWithin_bound hb]
      refine ih fun w hw => hr.le_of_bound hb (h v rfl) ?_
      rw [hw]
      exact List.mem_singleton_self w

theorem Acyclic.ended_last (h : s.Acyclic) (t : Ty) : s.Ended (s.last t) := by
  obtain ⟨rank, hr, hle⟩ := h.exists_rank
  exact hr.ended_lastWithin fun v _ => hle v

theorem Ended.last_eq {t : Ty} (h : s.Ended t) : s.last t = t := lastWithin_ended h

theorem Acyclic.last_of_leads (h : s.Acyclic) {t u : Ty} (hl : s.Leads t u) (hu : s.Ended u) :
    s.last t = u :=
  (s.leads_last t).unique (h.ended_last t) hl hu

theorem Acyclic.last_eq (h : s.Acyclic) {t u : Ty} (hl : s.Leads t u) : s.last t = s.last u :=
  h.last_of_leads (hl.trans (s.leads_last u)) (h.ended_last u)

theorem Leads.mono {t u : Ty} (h : s.Leads t u)
    (hb : ∀ v w, s.binding? v = some w → s'.binding? v = some w) : s'.Leads t u :=
  h.lift id fun _ _ ⟨v, hv, hw⟩ => ⟨v, hv, hb v _ hw⟩

theorem Sound.has_last (hs : s.Sound) {t : Ty} (ht : s.Has t) : s.Has (s.last t) :=
  (s.leads_last t).has hs.has ht

theorem Ranked.lt_of_mem_last (hr : s.Ranked rank) (hs : s.Acyclic) {v : Var} {u : Ty}
    (hb : s.binding? v = some u) {w : Var} (hw : w ∈ (s.last (.var v)).term.vars) :
    rank w < rank v := by
  rcases Relation.ReflTransGen.cases_head (s.leads_last (.var v)) with h | ⟨_, ⟨_, hv', hb'⟩, hl⟩
  · have := hs.ended_last (.var v) v h.symm
    rw [hb] at this
    cases this
  · cases hv'
    exact hr.lt_of_leads hb' hl w hw

theorem Acyclic.resolve_last (h : s.Acyclic) (t : Ty) : s.resolve (s.last t) = s.resolve t :=
  (h.resolve_of_leads (s.leads_last t)).symm

end LetPoly.Store
