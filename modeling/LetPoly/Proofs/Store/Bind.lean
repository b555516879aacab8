import LetPoly.Proofs.Store.Growth
import LetPoly.Store.Basic

/-!
# Binding one var

Binding an unbound var to a type that it does not occur in adds one equation to the store and keeps
it acyclic.  The occurs check sees the resolved form, so it is exactly what acyclicity asks for:
every var that leads to `v` ranks above everything that `v` is bound to.
-/

namespace LetPoly.Store

variable {s : Store} {v : Var} {t : Ty}

def bindTo (s : Store) (v : Var) (t : Ty) : Store :=
  s.modifyCell v fun c => { c with binding := some t }

theorem binding?_bindTo (hv : s.Made v) (w : Var) :
    (s.bindTo v t).binding? w = if v = w then some t else s.binding? w := by
  by_cases h : v = w
  · subst h
    rw [if_pos rfl]
    exact binding?_assigned _ _ _ (isSome_cell?.2 hv)
  · rw [if_neg h]
    exact binding?_modifyCell_of_ne _ h _

theorem made_bindTo (w : Var) : (s.bindTo v t).Made w ↔ s.Made w := by
  rw [Made, bindTo, madeBy_modifyCell, Made]

theorem solution_bindTo (hv : s.Made v) (hb : s.binding? v = none) (σ : Var → Term Var) :
    (s.bindTo v t).Solution σ ↔ s.Solution σ ∧ σ v = t.term.subst σ := by
  constructor
  · intro h
    refine ⟨fun w u hw => h w u ?_, h v t ?_⟩
    · rw [binding?_bindTo hv, if_neg, hw]
      rintro rfl
      rw [hb] at hw
      cases hw
    · rw [binding?_bindTo hv, if_pos rfl]
  · rintro ⟨h, hvt⟩ w u hw
    rw [binding?_bindTo hv] at hw
    split at hw
    · next heq =>
      cases hw
      exact heq ▸ hvt
    · exact h w u hw

/-- `v` and all that leads to it, lifted above the rest -/
def lifted (s : Store) (rank : Var → Nat) (v w : Var) : Nat :=
  if v ∈ (s.value w).vars then rank w + s.varCount + 1 else rank w

theorem lifted_of_mem {rank : Var → Nat} {w : Var} (h : v ∈ (s.value w).vars) :
    s.lifted rank v w = rank w + s.varCount + 1 := if_pos h

theorem lifted_of_not_mem {rank : Var → Nat} {w : Var} (h : v ∉ (s.value w).vars) :
    s.lifted rank v w = rank w := if_neg h

/-- along the bindings that are there already, what leads to a lifted var is lifted too -/
theorem lifted_lt {rank : Var → Nat} (hs : s.Acyclic) (hr : s.Ranked rank) {w x : Var} {u : Ty}
    (hw : s.binding? w = some u) (hx : x ∈ u.term.vars) :
    s.lifted rank v x < s.lifted rank v w := by
  have hlt := (hr w u hw).2 x hx
  by_cases hxv : v ∈ (s.value x).vars
  · have hwv : v ∈ (s.value w).vars := by
      rw [hs.value_of_bound hw]
      exact mem_vars_resolve.2 ⟨x, hx, hxv⟩
    rw [lifted_of_mem hxv, lifted_of_mem hwv]
    omega
  · rw [lifted_of_not_mem hxv, lifted]
    split
    · omega
    · exact hlt

theorem acyclic_bindTo (hs : s.Acyclic) (hv : s.Made v) (hb : s.binding? v = none)
    (ho : v ∉ (s.resolve t).vars) : (s.bindTo v t).Acyclic := by
  obtain ⟨rank, hr, hle⟩ := hs.exists_rank
  suffices h : (s.bindTo v t).Ranked (s.lifted rank v) from h.acyclic
  intro w u hw
  rw [binding?_bindTo hv] at hw
  split at hw
  · next heq =>
    cases hw
    subst heq
    have hself : v ∈ (s.value v).vars := by
      rw [value_of_unbound hb]
      exact List.mem_singleton_self v
    rw [lifted_of_mem hself]
    refine ⟨Nat.succ_pos _, fun x hx => ?_⟩
    have hxv : v ∉ (s.value x).vars := fun h => ho (mem_vars_resolve.2 ⟨x, hx, h⟩)
    have := hle x
    rw [lifted_of_not_mem hxv]
    omega
  · refine ⟨?_, fun x hx => lifted_lt hs hr hw hx⟩
    have := hr.pos hw
    unfold lifted
    split <;> omega

theorem leads_bindTo (hv : s.Made v) (hb : s.binding? v = none) {u w : Ty} (h : s.Leads u w) :
    (s.bindTo v t).Leads u w := by
  refine h.mono fun x y hx => ?_
  rw [binding?_bindTo hv, if_neg, hx]
  rintro rfl
  rw [hb] at hx
  cases hx

theorem unbound_bindTo (hv : s.Made v) {w : Var} (hw : w ≠ v) (h : s.binding? w = none) :
    (s.bindTo v t).binding? w = none := by
  rw [binding?_bindTo hv, if_neg (Ne.symm hw), h]

/-- chains that ended at `v` go on to what it is bound to now -/
theorem last_bindTo_self (hs : s.Acyclic) (hv : s.Made v) (hb : s.binding? v = none)
    (ho : v ∉ (s.resolve t).vars) (he : s.Ended t) {u : Ty} (hu : s.last u = .var v) :
    (s.bindTo v t).last u = t := by
  have hl := leads_bindTo (t := t) hv hb (s.leads_last u)
  rw [hu] at hl
  have hstep : (s.bindTo v t).binding? v = some t := by rw [binding?_bindTo hv, if_pos rfl]
  refine (acyclic_bindTo hs hv hb ho).last_of_leads (hl.tail ⟨v, rfl, hstep⟩) ?_
  rintro w rfl
  refine unbound_bindTo hv ?_ (he w rfl)
  rintro rfl
  rw [resolve_var, value_of_unbound hb] at ho
  exact ho (List.mem_singleton_self w)

theorem last_bindTo_of_ne (hs : s.Acyclic) (hv : s.Made v) (hb : s.binding? v = none)
    (ho : v ∉ (s.resolve t).vars) {u : Ty} (hu : s.last u ≠ .var v) :
    (s.bindTo v t).last u = s.last u := by
  refine (acyclic_bindTo hs hv hb ho).last_of_leads (leads_bindTo hv hb (s.leads_last u))
    fun w hw => unbound_bindTo hv ?_ (hs.ended_last u w hw)
  rintro rfl
  exact hu hw

theorem grows_bindTo (hs : s.Sound) (hv : s.Made v) (hb : s.binding? v = none) (ht : s.Has t)
    (ho : v ∉ (s.resolve t).vars) : s.Grows (s.bindTo v t) where
  sound := by
    refine ⟨acyclic_bindTo hs.acyclic hv hb ho, fun w u hw => ?_⟩
    have hmade : ∀ x, s.Made x → (s.bindTo v t).Made x := fun x hx => (made_bindTo x).2 hx
    rw [binding?_bindTo hv] at hw
    split at hw
    · cases hw
      exact ht.mono hmade
    · exact (hs.has w u hw).mono hmade
  sessions := Array.size_modify.ge
  made w hw := (made_bindTo w).2 hw
  unbound w hw := by
    rw [binding?_bindTo hv] at hw
    split at hw
    · cases hw
    · exact hw
  last u := (acyclic_bindTo hs.acyclic hv hb ho).last_eq (leads_bindTo hv hb (s.leads_last u))
  solution σ hσ := ((solution_bindTo hv hb σ).1 hσ).1

theorem touches_bindTo (hs : s.Sound) (hv : s.Made v) (hb : s.binding? v = none) (ht : s.Has t)
    (ho : v ∉ (s.resolve t).vars) {E : Set Var} (hvE : v ∈ E)
    (htE : ∀ w ∈ (s.resolve t).vars, w ∈ E) : Touches E s (s.bindTo v t) := by
  have hg := grows_bindTo hs hv hb ht ho
  have hfree : ∀ w, v ≠ w → s.binding? w = none → (s.bindTo v t).binding? w = none := by
    intro w hw h
    rw [binding?_bindTo hv, if_neg hw, h]
  intro w _ hw
  refine ⟨fun hwE => hfree w (fun h => hwE (h ▸ hvE)) hw, fun hwE x hx => ?_⟩
  by_cases hwv : v = w
  · -- what `v` is bound to has kept its resolved form
    have hval : (s.bindTo v t).value w = s.resolve t := by
      rw [hg.acyclic.value_of_bound (t := t) (by rw [binding?_bindTo hv, if_pos hwv]),
        hg.resolve_eq hs.acyclic]
      apply Term.subst_eq_self
      intro u hu
      have hvu : v ≠ u := by
        rintro rfl
        exact ho hu
      exact value_of_unbound (hfree u hvu (hs.acyclic.unbound_of_mem hu))
    rw [hval] at hx
    exact mem_orNew_of_mem (htE x hx)
  · rw [value_of_unbound (hfree w hwv hw), Term.vars_var, List.mem_singleton] at hx
    exact mem_orNew_of_mem (hx ▸ hwE)

end LetPoly.Store
