import LetPoly.Proofs.Store.Growth
import LetPoly.Proofs.Store.Outcome

/-!
# A look-up finds the end of a chain

`Ty.prune` returns the end of the chain of bindings of a type, and points every bound var of the
chain straight at it: `prune_eq` gives the result and the store afterwards in closed form.  Since
the vars of a chain and its end stand for the same term, the store keeps its meaning
(`quiet_prune`).
-/

namespace LetPoly

open StoreM

namespace Store

/-- the bound vars on the chain of a type -/
def chainWithin (s : Store) : Nat → Ty → List Var
  | fuel + 1, .var v =>
    match s.binding? v with
    | some t => v :: s.chainWithin fuel t
    | none => []
  | _, _ => []

def chain (s : Store) (t : Ty) : List Var := s.chainWithin s.varCount t

def pointAll (s : Store) (vs : List Var) (t : Ty) : Store :=
  vs.foldr (fun v s => s.modifyCell v fun c => { c with binding := some t }) s

/-- all of `vs` bound to `t`, if the store shortens chains at all -/
def shortened (s : Store) (vs : List Var) (t : Ty) : Store :=
  if s.compress then s.pointAll vs t else s

variable {s s' : Store}

theorem chainWithin_bound {fuel : Nat} {v : Var} {t : Ty} (h : s.binding? v = some t) :
    s.chainWithin (fuel + 1) (.var v) = v :: s.chainWithin fuel t := by
  rw [chainWithin, h]

theorem chainWithin_ended {fuel : Nat} {t : Ty} (h : s.Ended t) : s.chainWithin fuel t = [] := by
  cases fuel with
  | zero => rfl
  | succ fuel =>
    cases t with
    | var v => rw [chainWithin, h v rfl]
    | op k n as => rfl
    | hole => rfl

/-- every var that a look-up passes is bound and leads to the same end -/
theorem mem_chainWithin {fuel : Nat} {t : Ty} {v : Var} (h : v ∈ s.chainWithin fuel t) :
    ∃ u, s.binding? v = some u ∧ s.Leads u (s.lastWithin fuel t) := by
  induction fuel generalizing t with
  | zero => simp [chainWithin] at h
  | succ fuel ih =>
    rcases s.ended_or_bound t with ht | ⟨w, u, rfl, hb⟩
    · rw [chainWithin_ended ht] at h
      cases h
    · rw [chainWithin_bound hb] at h
      rw [lastWithin_bound hb]
      rcases List.mem_cons.1 h with rfl | h
      · exact ⟨u, hb, s.leads_lastWithin fuel u⟩
      · exact ih h

/-! ## shorter chains -/

theorem madeBy_pointAll (s : Store) (vs : List Var) (t : Ty) (i : Nat) :
    (s.pointAll vs t).madeBy i = s.madeBy i := by
  induction vs with
  | nil => rfl
  | cons v vs ih => rw [← ih]; exact madeBy_modifyCell _ _ _ _

theorem compress_pointAll (s : Store) (vs : List Var) (t : Ty) :
    (s.pointAll vs t).compress = s.compress := by
  induction vs with
  | nil => rfl
  | cons v vs ih => rw [← ih]; rfl

theorem binding?_pointAll {vs : List Var} (t : Ty) (h : ∀ v ∈ vs, s.Made v) (w : Var) :
    (s.pointAll vs t).binding? w = if w ∈ vs then some t else s.binding? w := by
  induction vs with
  | nil => simp [pointAll]
  | cons v vs ih =>
    have ih := ih fun u hu => h u (List.mem_cons_of_mem v hu)
    have hv : s.Made v := h v List.mem_cons_self
    show ((s.pointAll vs t).modifyCell v _).binding? w = _
    by_cases hw : v = w
    · subst hw
      rw [binding?_assigned _ _ _ (isSome_cell?.2 _), if_pos List.mem_cons_self]
      rwa [Made, madeBy_pointAll]
    · rw [binding?_modifyCell_of_ne _ hw, ih]
      simp [Ne.symm hw]

theorem size_pointAll (s : Store) (vs : List Var) (t : Ty) :
    (s.pointAll vs t).sessions.size = s.sessions.size := by
  induction vs with
  | nil => rfl
  | cons v vs ih => rw [← ih]; exact Array.size_modify

theorem compress_shortened (s : Store) (vs : List Var) (t : Ty) :
    (s.shortened vs t).compress = s.compress := by
  unfold shortened
  split
  · exact s.compress_pointAll vs t
  · rfl

theorem madeBy_shortened (s : Store) (vs : List Var) (t : Ty) (i : Nat) :
    (s.shortened vs t).madeBy i = s.madeBy i := by
  unfold shortened
  split
  · exact s.madeBy_pointAll vs t i
  · rfl

theorem shortened_nil (s : Store) (t : Ty) : s.shortened [] t = s := by
  unfold shortened
  split <;> rfl

theorem shortened_shortened (s : Store) (v : Var) (vs : List Var) (t : Ty) :
    (s.shortened vs t).shortened [v] t = s.shortened (v :: vs) t := by
  conv_lhs => rw [shortened, compress_shortened]
  unfold shortened
  split <;> rfl

theorem binding?_shortened {vs : List Var} (t : Ty) (h : ∀ v ∈ vs, s.Made v) (w : Var) :
    (s.shortened vs t).binding? w = if s.compress ∧ w ∈ vs then some t else s.binding? w := by
  unfold shortened
  by_cases hc : s.compress
  · simp only [hc, if_true, true_and]
    exact binding?_pointAll t h w
  · simp only [hc, Bool.false_eq_true, if_false, false_and]

/-- `s'` is `s` with the vars of `vs` pointed straight at the end `u` of their chain -/
structure Pointed (s s' : Store) (vs : List Var) (u : Ty) : Prop where
  ended : s.Ended u
  chain : ∀ v ∈ vs, ∃ t, s.binding? v = some t ∧ s.Leads t u
  binding : ∀ v, s'.binding? v = if v ∈ vs then some u else s.binding? v

namespace Pointed

variable {vs : List Var} {u : Ty}

theorem leads (h : Pointed s s' vs u) {t w : Ty} (hl : s.Leads t w) (hw : s.Ended w) :
    s'.Leads t w := by
  induction hl using Relation.ReflTransGen.head_induction_on with
  | refl => exact .refl
  | @head _ y hstep hrest ih =>
    obtain ⟨v, rfl, hv⟩ := hstep
    have hb := h.binding v
    split at hb
    · next hin =>
      obtain ⟨t, ht, hlt⟩ := h.chain v hin
      rw [hv, Option.some.injEq] at ht
      rw [hlt.unique h.ended (ht ▸ hrest) hw] at hb
      exact .single ⟨v, rfl, hb⟩
    · exact leads_var (hb.trans hv) ih

theorem bound (h : Pointed s s' vs u) (v : Var) : s'.binding? v = none ↔ s.binding? v = none := by
  rw [h.binding]
  split
  · next hin =>
    obtain ⟨t, ht, -⟩ := h.chain v hin
    simp [ht]
  · exact Iff.rfl

/-- what a var is bound to now has been on its chain before -/
theorem stems (h : Pointed s s' vs u) {v : Var} {t : Ty} (ht : s'.binding? v = some t) :
    ∃ t₀, s.binding? v = some t₀ ∧ s.Leads t₀ t := by
  rw [h.binding] at ht
  split at ht
  · next hin =>
    cases ht
    exact h.chain v hin
  · exact ⟨t, ht, .refl⟩

theorem solution (h : Pointed s s' vs u) (σ : Var → Term Var) : s'.Solution σ ↔ s.Solution σ := by
  constructor
  · intro hσ v t ht
    have hb := h.binding v
    split at hb
    · next hin =>
      obtain ⟨t', ht', hl⟩ := h.chain v hin
      rw [ht, Option.some.injEq] at ht'
      rw [hσ v u hb, ht', hσ.subst_of_leads (h.leads hl h.ended)]
    · exact hσ v t (hb.trans ht)
  · intro hσ v t ht
    obtain ⟨t₀, ht₀, hl⟩ := h.stems ht
    rw [hσ v t₀ ht₀, hσ.subst_of_leads hl]

theorem ranked (h : Pointed s s' vs u) {rank : Var → Nat} (hr : s.Ranked rank) :
    s'.Ranked rank := by
  intro v t ht
  obtain ⟨t₀, ht₀, hl⟩ := h.stems ht
  exact ⟨hr.pos ht₀, hr.lt_of_leads ht₀ hl⟩

end Pointed

theorem keeps_shortened {vs : List Var} {u : Ty} (hu : s.Ended u)
    (hvs : ∀ v ∈ vs, ∃ t, s.binding? v = some t ∧ s.Leads t u) : s.Keeps (s.shortened vs u) := by
  unfold shortened
  split
  case isFalse => exact .refl s
  have hvmade : ∀ v ∈ vs, s.Made v := fun v hv => made_of_binding? (hvs v hv).choose_spec.1
  have hmade : ∀ v, s.Made v → (s.pointAll vs u).Made v := fun v hv => by
    rwa [Made, madeBy_pointAll]
  have h : Pointed s (s.pointAll vs u) vs u := ⟨hu, hvs, binding?_pointAll u hvmade⟩
  exact {
    sessions := (size_pointAll s vs u).ge
    made := hmade
    bound := h.bound
    leads := fun _ _ hl hw => h.leads hl hw
    solution := h.solution
    ranked := fun _ hr => h.ranked hr
    has := by
      intro hs v t ht
      obtain ⟨t₀, ht₀, hl⟩ := h.stems ht
      exact (hl.has hs (hs v t₀ ht₀)).mono hmade }

end Store

/-! ## the look-up -/

namespace Ty

variable {s : Store} {rank : Var → Nat}

theorem shorten_eq (s : Store) (v : Var) (t : Ty) : shorten v t s = .ok ⟨⟩ (s.shortened [v] t) := by
  show (if s.compress then StoreM.assign v (some t) else pure ⟨⟩) s = _
  unfold Store.shortened
  split <;> rfl

theorem pruneWithin_ended {fuel : Nat} {t : Ty} (h : s.Ended t) :
    pruneWithin fuel t s = .ok t s := by
  cases t with
  | var v =>
    rw [pruneWithin.eq_def]
    dsimp only
    rw [get_bind, h v rfl]
    rfl
  | op k n as => cases fuel <;> rfl
  | hole => cases fuel <;> rfl

theorem pruneWithin_bound {fuel : Nat} {v : Var} {t : Ty} (h : s.binding? v = some t) :
    pruneWithin (fuel + 1) (var v) s
      = (do let last ← pruneWithin fuel t; shorten v last; return last : StoreM Ty) s := by
  rw [pruneWithin.eq_def]
  dsimp only
  rw [get_bind, h]

theorem pruneWithin_eq (hr : s.Ranked rank) {fuel : Nat} {t : Ty}
    (h : ∀ v, t = var v → rank v ≤ fuel) :
    pruneWithin fuel t s = .ok (s.lastWithin fuel t)
      (s.shortened (s.chainWithin fuel t) (s.lastWithin fuel t)) := by
  induction fuel generalizing t with
  | zero =>
    rcases s.ended_or_bound t with ht | ⟨v, u, rfl, hb⟩
    · rw [pruneWithin_ended ht, Store.lastWithin_ended ht, Store.chainWithin_ended ht,
        Store.shortened_nil]
    · have := hr.pos hb
      have := h v rfl
      omega
  | succ fuel ih =>
    rcases s.ended_or_bound t with ht | ⟨v, u, rfl, hb⟩
    · rw [pruneWithin_ended ht, Store.lastWithin_ended ht, Store.chainWithin_ended ht,
        Store.shortened_nil]
    · have hu : ∀ w, u = var w → rank w ≤ fuel := by
        intro w hw
        refine hr.le_of_bound hb (h v rfl) ?_
        rw [hw]
        exact List.mem_singleton_self w
      rw [pruneWithin_bound hb, bind_of_ok (ih hu), bind_of_ok (shorten_eq _ _ _),
        Store.lastWithin_bound hb, Store.chainWithin_bound hb, Store.shortened_shortened]
      rfl

/-- the end of the chain, and the store with the chain shortened -/
theorem prune_eq (hs : s.Acyclic) (t : Ty) :
    prune t s = .ok (s.last t) (s.shortened (s.chain t) (s.last t)) := by
  obtain ⟨rank, hr, hle⟩ := hs.exists_rank
  exact pruneWithin_eq hr fun v _ => hle v

theorem quiet_prune (hs : s.Acyclic) (t : Ty) :
    s.Quiet (s.shortened (s.chain t) (s.last t)) where
  toKeeps := Store.keeps_shortened (hs.ended_last t) fun _ hv => Store.mem_chainWithin hv
  only v hv := by rwa [Store.Made, Store.madeBy_shortened] at hv

theorem ends_prune (hs : s.Acyclic) (t : Ty) :
    Ends (prune t) s (fun u s' => u = s.last t ∧ s.Quiet s') never :=
  (ends_of_ok (prune_eq hs t)).2 ⟨rfl, quiet_prune hs t⟩

end Ty

end LetPoly
