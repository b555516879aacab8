import LetPoly.Proofs.Store.Acyclic

/-!
# What a type stands for

In an acyclic store every type stands for one finite term, its resolved form: every bound var is
replaced by what it is bound to, all the way down.

* `Store.value`, `Store.resolve`   the term that a var or a type stands for;
* `Store.Solution`   finite terms for all vars that satisfy every binding as an equation;
* `value_solution`, `Solution.subst_value`   `value` is a solution, and every other solution is an
  instance of it;
* `Store.Sound`   what holds of every store that operations have built.

A solution sees a store as a set of equations, and no equation is ever solved for: two stores with
the same bound vars and the same solutions give every type the same resolved form.
-/

namespace LetPoly.Store

/-- terms for all vars that satisfy every binding -/
def Solution (s : Store) (σ : Var → Term Var) : Prop :=
  ∀ v t, s.binding? v = some t → σ v = t.term.subst σ

/-- nothing is missing in `t`, and all its vars have been made -/
structure Has (s : Store) (t : Ty) : Prop where
  whole : t.whole
  made : ∀ v ∈ t.term.vars, s.Made v

structure Sound (s : Store) : Prop where
  acyclic : s.Acyclic
  has : ∀ v t, s.binding? v = some t → s.Has t

/-- the fuel counts the bound vars that are passed -/
def valueWithin (s : Store) : Nat → Var → Term Var
  | 0, v => .var v
  | fuel + 1, v =>
    match s.binding? v with
    | none => .var v
    | some t => t.term.subst (s.valueWithin fuel)

def value (s : Store) : Var → Term Var := s.valueWithin s.varCount

def resolve (s : Store) (t : Ty) : Term Var := t.term.subst s.value

variable {s : Store} {rank : Var → Nat} {σ : Var → Term Var}

@[simp] theorem resolve_var (v : Var) : s.resolve (.var v) = s.value v := rfl

@[simp] theorem resolve_op (k : Nat) (n : String) (as : List Ty) :
    s.resolve (.op k n as) = .op n (as.map s.resolve) := by
  rw [resolve, Ty.term_op, Term.subst_op, List.map_map]
  rfl

/-! ## types that a store has -/

theorem has_var {v : Var} : s.Has (.var v) ↔ s.Made v := by
  constructor
  · intro h
    exact h.made v (List.mem_singleton_self v)
  · intro h
    refine ⟨rfl, fun w hw => ?_⟩
    rw [Ty.term_var, Term.vars_var, List.mem_singleton] at hw
    exact hw ▸ h

theorem has_op {k : Nat} {n : String} {as : List Ty} : s.Has (.op k n as) ↔ ∀ a ∈ as, s.Has a := by
  constructor
  · intro h a ha
    exact ⟨Ty.whole_op.1 h.whole a ha, fun v hv => h.made v (Ty.mem_vars_of_arg ha hv)⟩
  · intro h
    refine ⟨Ty.whole_op.2 fun a ha => (h a ha).whole, fun v hv => ?_⟩
    rw [Ty.term_op, Term.mem_vars_op] at hv
    obtain ⟨t, ht, hv⟩ := hv
    obtain ⟨a, ha, rfl⟩ := List.mem_map.1 ht
    exact (h a ha).made v hv

theorem not_has_hole : ¬ s.Has .hole := fun h => by simpa [Ty.whole] using h.whole

/-! ## the value of a var -/

theorem Ranked.pos (h : s.Ranked rank) {v : Var} {t : Ty} (ht : s.binding? v = some t) :
    0 < rank v := (h v t ht).1

theorem valueWithin_of_unbound {v : Var} (h : s.binding? v = none) (fuel : Nat) :
    s.valueWithin fuel v = .var v := by
  cases fuel with
  | zero => rfl
  | succ fuel => rw [valueWithin, h]

theorem value_of_unbound {v : Var} (h : s.binding? v = none) : s.value v = .var v :=
  valueWithin_of_unbound h _

theorem Ranked.valueWithin_eq (h : s.Ranked rank) {fuel fuel' : Nat} {v : Var}
    (hv : rank v ≤ fuel) (hv' : rank v ≤ fuel') : s.valueWithin fuel v = s.valueWithin fuel' v := by
  induction fuel generalizing fuel' v with
  | zero =>
    cases hb : s.binding? v with
    | none => rw [valueWithin_of_unbound hb, valueWithin_of_unbound hb]
    | some t =>
      have := h.pos hb
      omega
  | succ fuel ih =>
    cases hb : s.binding? v with
    | none => rw [valueWithin_of_unbound hb, valueWithin_of_unbound hb]
    | some t =>
      obtain ⟨hpos, hlt⟩ := h v t hb
      cases fuel' with
      | zero => omega
      | succ fuel' =>
        rw [valueWithin, valueWithin, hb]
        apply Term.subst_congr
        intro w hw
        have := hlt w hw
        exact ih (by omega) (by omega)

theorem Acyclic.value_of_bound (h : s.Acyclic) {v : Var} {t : Ty} (ht : s.binding? v = some t) :
    s.value v = s.resolve t := by
  obtain ⟨rank, hr, hle⟩ := h.exists_rank
  have hv := hr.valueWithin_eq (hle v) (Nat.le_succ_of_le (hle v))
  rw [value, hv, valueWithin, ht]
  rfl

/-- induction along the bindings -/
theorem Acyclic.induction (h : s.Acyclic) {motive : Var → Prop}
    (unbound : ∀ v, s.binding? v = none → motive v)
    (bound : ∀ v t, s.binding? v = some t → (∀ w ∈ t.term.vars, motive w) → motive v) :
    ∀ v, motive v := by
  obtain ⟨rank, hr, -⟩ := h.exists_rank
  have key : ∀ n v, rank v < n → motive v := by
    intro n
    induction n with
    | zero => intro v hv; omega
    | succ n ih =>
      intro v hv
      cases hb : s.binding? v with
      | none => exact unbound v hb
      | some t =>
        refine bound v t hb fun w hw => ih w ?_
        have := (hr v t hb).2 w hw
        omega
  exact fun v => key (rank v + 1) v (Nat.lt_succ_self _)

/-! ## solutions -/

theorem Acyclic.value_solution (h : s.Acyclic) : s.Solution s.value :=
  fun _ _ ht => h.value_of_bound ht

theorem Solution.subst_value (hσ : s.Solution σ) (h : s.Acyclic) (v : Var) :
    (s.value v).subst σ = σ v := by
  refine h.induction (motive := fun v => (s.value v).subst σ = σ v) (fun v hv => ?_)
    (fun v t ht ih => ?_) v
  · rw [value_of_unbound hv, Term.subst_var]
  · rw [h.value_of_bound ht, resolve, Term.subst_subst, hσ v t ht]
    exact Term.subst_congr ih

theorem Solution.subst_resolve (hσ : s.Solution σ) (h : s.Acyclic) (t : Ty) :
    (s.resolve t).subst σ = t.term.subst σ := by
  rw [resolve, Term.subst_subst]
  exact Term.subst_congr fun v _ => hσ.subst_value h v

/-- types with the same resolved forms are equal in the same solutions -/
theorem Solution.subst_congr (hσ : s.Solution σ) (hs : s.Acyclic) {t u : Ty}
    (h : s.resolve t = s.resolve u) : t.term.subst σ = u.term.subst σ := by
  rw [← hσ.subst_resolve hs t, h, hσ.subst_resolve hs]

/-- any terms for the unbound vars make a solution -/
theorem Acyclic.solution_comp (h : s.Acyclic) (σ : Var → Term Var) :
    s.Solution fun v => (s.value v).subst σ := by
  intro v t ht
  show (s.value v).subst σ = _
  rw [h.value_of_bound ht, resolve, Term.subst_subst]

/-- what a solution gives to a type depends on the resolved form only -/
theorem resolve_subst_comp (t : Ty) (σ : Var → Term Var) :
    t.term.subst (fun v => (s.value v).subst σ) = (s.resolve t).subst σ := by
  rw [resolve, Term.subst_subst]

/-! ## the vars of a resolved form -/

theorem mem_vars_resolve {t : Ty} {w : Var} :
    w ∈ (s.resolve t).vars ↔ ∃ v ∈ t.term.vars, w ∈ (s.value v).vars :=
  Term.mem_vars_subst

theorem Acyclic.unbound_of_mem_value (h : s.Acyclic) {v w : Var} (hw : w ∈ (s.value v).vars) :
    s.binding? w = none := by
  revert hw
  refine h.induction (motive := fun v => w ∈ (s.value v).vars → s.binding? w = none)
    (fun v hv hw => ?_) (fun v t ht ih hw => ?_) v
  · rw [value_of_unbound hv, Term.vars_var, List.mem_singleton] at hw
    exact hw ▸ hv
  · rw [h.value_of_bound ht, mem_vars_resolve] at hw
    obtain ⟨u, hu, hw⟩ := hw
    exact ih u hu hw

theorem Acyclic.unbound_of_mem (h : s.Acyclic) {t : Ty} {w : Var} (hw : w ∈ (s.resolve t).vars) :
    s.binding? w = none := by
  obtain ⟨v, -, hw⟩ := mem_vars_resolve.1 hw
  exact h.unbound_of_mem_value hw

theorem Sound.made_of_mem_value (hs : s.Sound) {v w : Var} (hv : s.Made v)
    (hw : w ∈ (s.value v).vars) : s.Made w := by
  revert hv hw
  refine hs.acyclic.induction (motive := fun v => s.Made v → w ∈ (s.value v).vars → s.Made w)
    (fun v hb hv hw => ?_) (fun v t ht ih _ hw => ?_) v
  · rw [value_of_unbound hb, Term.vars_var, List.mem_singleton] at hw
    exact hw ▸ hv
  · rw [hs.acyclic.value_of_bound ht, mem_vars_resolve] at hw
    obtain ⟨u, hu, hw⟩ := hw
    exact ih u hu ((hs.has v t ht).made u hu) hw

theorem Sound.made_of_mem (hs : s.Sound) {t : Ty} (ht : s.Has t) {w : Var}
    (hw : w ∈ (s.resolve t).vars) : s.Made w := by
  obtain ⟨v, hv, hw⟩ := mem_vars_resolve.1 hw
  exact hs.made_of_mem_value (ht.made v hv) hw

/-! ## checking a store -/

/-- soundness can be checked var by var, against a rank -/
theorem Sound.of_rank (rank : Var → Nat) (h : ∀ v ∈ s.allVars, ∀ t ∈ s.binding? v,
    0 < rank v ∧ (∀ w ∈ t.term.vars, rank w < rank v ∧ s.Made w) ∧ t.whole) : s.Sound := by
  have hall : ∀ v t, s.binding? v = some t →
      0 < rank v ∧ (∀ w ∈ t.term.vars, rank w < rank v ∧ s.Made w) ∧ t.whole :=
    fun v t ht => h v (mem_allVars.2 (made_of_binding? ht)) t ht
  have hrank : s.Ranked rank := by
    intro v t ht
    obtain ⟨hpos, hvars, -⟩ := hall v t ht
    exact ⟨hpos, fun w hw => (hvars w hw).1⟩
  refine ⟨hrank.acyclic, fun v t ht => ?_⟩
  obtain ⟨-, hvars, hwhole⟩ := hall v t ht
  exact ⟨hwhole, fun w hw => (hvars w hw).2⟩

def chainStore : Store where
  sessions := #[{ cells := #[{ binding := some (.var ⟨0, 1⟩) }, {}, {}], cursor := 945 }]

theorem sound_chainStore : chainStore.Sound := .of_rank (fun v => 1 - v.id) (by decide)

end LetPoly.Store
