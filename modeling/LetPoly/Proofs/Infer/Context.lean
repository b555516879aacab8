import LetPoly.Proofs.Store.Unify
import LetPoly.Proofs.Typing.Rules
import LetPoly.Scope

/-!
# What a context means in a store

`Context.env` reads a context as an environment: a name has its resolved type, quantified over the
vars that occur in no non-generic type.  The non-generic types may have more vars than the schemes,
for the types of hidden parameters are still among them.

* `Binds E s s'`      the steps from `s` to `s'` bind no vars of `s` outside of `E`;
* `Over E s s' t`     `t` is a type of `s'` over `E` and vars that are new since `s`;
* `Binds.env_eq`      such steps act on the environment like a replacement of its free vars;
* `Binds.env_bindGeneric`   what a definition may be generalised over is exactly what occurs in no
  non-generic type: a var of a hidden parameter never gets into the type of a definition.
-/

namespace LetPoly

open Store (Touches varsOf)
open StoreM (Fresh)

noncomputable def Context.env (Γ : Context) (s : Store) : Env := fun x =>
  (Γ.scope.get? x).map fun t => Scheme.close (s.varsOf Γ.nonGeneric) (s.resolve t)

structure Context.Within (Γ : Context) (s : Store) : Prop where
  scope : ∀ x t, Γ.scope.get? x = some t → s.Has t
  nonGeneric : ∀ t ∈ Γ.nonGeneric, s.Has t

/-- inference may start in `s`, in the context `Γ` and for the session `i` -/
structure Context.Usable (Γ : Context) (i : Nat) (s : Store) : Prop where
  sound : s.Sound
  within : Γ.Within s
  session_lt : i < s.sessions.size

structure Binds (E : Set Var) (s s' : Store) : Prop where
  grows : s.Grows s'
  touches : Touches E s s'

structure Over (E : Set Var) (s s' : Store) (t : Ty) : Prop where
  has : s'.Has t
  vars : ∀ w ∈ (s'.resolve t).vars, w ∈ s.orNew E

/-- `σ'` gives the same terms as `σ` to all vars of `s` -/
def Agrees (s : Store) (σ σ' : Var → Term Var) : Prop := ∀ v, s.Made v → σ' v = σ v

variable {Γ : Context} {E A : Set Var} {s s₁ s₂ : Store} {t : Ty} {σ σ' : Var → Term Var}

/-! ## few bindings and types over few vars -/

namespace Binds

theorem of_keeps (h : s.Keeps s₁) (hs : s.Sound) : Binds E s s₁ :=
  ⟨h.grows hs, h.touches hs.acyclic E⟩

theorem refl (hs : s.Sound) : Binds E s s := .of_keeps (.refl s) hs

theorem trans (h : Binds E s s₁) (h' : Binds A s₁ s₂) (hA : A ⊆ s.orNew E) : Binds E s s₂ :=
  ⟨h.grows.trans h'.grows, h.touches.trans h'.touches h.grows h'.grows hA⟩

theorem sound (h : Binds E s s₁) : s₁.Sound := h.grows.sound

theorem keeps (h : Binds E s s₁) (hk : s₁.Keeps s₂) : Binds E s s₂ :=
  h.trans (of_keeps (E := ∅) hk h.sound) fun _ hw => nomatch hw

end Binds

namespace Over

theorem later (ho : Over E s s₁ t) (h : Binds E s s₁) (h' : Binds A s₁ s₂) (hA : A ⊆ s.orNew E) :
    Over E s s₂ t :=
  ⟨h'.grows.has ho.has, h'.touches.mem_resolve h'.grows h.sound ho.has
    (h.grows.orNew_subset hA) ho.vars⟩

theorem keeps (ho : Over E s s₁ t) (hk : s₁.Keeps s₂) (hs : s₁.Sound) : Over E s s₂ t :=
  ⟨hk.has_of_has ho.has, fun w hw => ho.vars w (hk.resolve_eq hs.acyclic t ▸ hw)⟩

theorem widen (ho : Over A s₁ s₂ t) (hg : s.Grows s₁) (hA : A ⊆ s.orNew E) : Over E s s₂ t :=
  ⟨ho.has, fun w hw => hg.orNew_subset hA (ho.vars w hw)⟩

theorem of_fresh {v : Var} (hg : s.Grows s₁) (hv : Fresh s₁ s₂ v) : Over E s s₂ (.var v) := by
  refine ⟨Store.has_var.2 hv.made, fun w hw => ?_⟩
  rw [Store.resolve_var, Store.value_of_unbound hv.unbound, Term.vars_var, List.mem_singleton] at hw
  subst hw
  exact Store.mem_orNew_of_not_made fun hm => hv.not_made (hg.made w hm)

theorem varsOf_subset {l r : Ty} (hl : Over E s s₁ l) (hr : Over E s s₁ r) :
    s₁.varsOf [l, r] ⊆ s.orNew E := by
  intro w hw
  rcases Store.mem_varsOf_pair.1 hw with hw | hw
  · exact hl.vars w hw
  · exact hr.vars w hw

end Over

/-! ## environments of a context -/

namespace Context

theorem env_of_some {x : String} (h : Γ.scope.get? x = some t) :
    Γ.env s x = some (Scheme.close (s.varsOf Γ.nonGeneric) (s.resolve t)) := by
  rw [env, h, Option.map_some]

theorem env_of_none {x : String} (h : Γ.scope.get? x = none) : Γ.env s x = none := by
  rw [env, h, Option.map_none]

theorem mem_freeVars_env {v : Var} : v ∈ (Γ.env s).freeVars ↔
    v ∈ s.varsOf Γ.nonGeneric ∧ ∃ x t, Γ.scope.get? x = some t ∧ v ∈ (s.resolve t).vars := by
  constructor
  · rintro ⟨x, τ, hx, hv⟩
    obtain ⟨t, ht, rfl⟩ := Option.map_eq_some_iff.1 hx
    obtain ⟨hA, hv⟩ := Scheme.mem_freeVars_close.1 hv
    exact ⟨hA, x, t, ht, hv⟩
  · rintro ⟨hA, x, t, ht, hv⟩
    exact ⟨x, _, env_of_some ht, Scheme.mem_freeVars_close.2 ⟨hA, hv⟩⟩

theorem freeVars_env_subset : (Γ.env s).freeVars ⊆ s.varsOf Γ.nonGeneric :=
  fun _ hv => (mem_freeVars_env.1 hv).1

theorem Within.mono (h : Γ.Within s) (hmade : ∀ v, s.Made v → s₁.Made v) : Γ.Within s₁ :=
  ⟨fun x t ht => (h.scope x t ht).mono hmade, fun t ht => (h.nonGeneric t ht).mono hmade⟩

theorem Within.made_of_free (h : Γ.Within s) (hs : s.Sound) {v : Var}
    (hv : v ∈ (Γ.env s).freeVars) : s.Made v := by
  obtain ⟨-, x, t, ht, hv⟩ := mem_freeVars_env.1 hv
  exact hs.made_of_mem (h.scope x t ht) hv

theorem Within.finite_free (h : Γ.Within s) (hs : s.Sound) : (Γ.env s).freeVars.Finite := by
  refine s.allVars.finite_toSet.subset fun v hv => ?_
  exact Store.mem_allVars.2 (h.made_of_free hs hv)

theorem env_keeps (h : s.Keeps s₁) (hs : s.Acyclic) : Γ.env s₁ = Γ.env s := by
  funext x
  simp only [env, h.varsOf_eq hs, h.resolve_eq hs]

theorem Within.bindGeneric (h : Γ.Within s) (x : String) (ht : s.Has t) :
    (Γ.bindGeneric x t).Within s := by
  refine ⟨fun y u hy => ?_, h.nonGeneric⟩
  rw [Context.bindGeneric, Scope.get?_extend] at hy
  split at hy
  · cases hy
    exact ht
  · exact h.scope y u hy

theorem Within.bindFixed (h : Γ.Within s) (x : String) (ht : s.Has t) :
    (Γ.bindFixed x t).Within s :=
  ⟨(h.bindGeneric x ht).scope, List.forall_mem_cons.2 ⟨ht, h.nonGeneric⟩⟩

namespace Usable

variable {i : Nat}

theorem later (h : Γ.Usable i s) (hg : s.Grows s₁) : Γ.Usable i s₁ :=
  ⟨hg.sound, h.within.mono hg.made, h.session_lt.trans_le hg.sessions⟩

theorem bindGeneric (h : Γ.Usable i s) (x : String) (ht : s.Has t) :
    (Γ.bindGeneric x t).Usable i s := { h with within := h.within.bindGeneric x ht }

theorem bindFixed {v : Var} (h : Γ.Usable i s) (x : String) (hv : Fresh s s₁ v) :
    (Γ.bindFixed x (.var v)).Usable i s₁ :=
  have h₁ := h.later (hv.keeps.grows h.sound)
  { h₁ with within := h₁.within.bindFixed x (Store.has_var.2 hv.made) }

end Usable

theorem env_bindFixed_self {x : String} :
    (Γ.bindFixed x t).env s x = some (Scheme.mono (s.resolve t)) := by
  have hx : (Γ.bindFixed x t).scope.get? x = some t := by
    rw [bindFixed, Scope.get?_extend, if_pos rfl]
  rw [env_of_some hx, Scheme.close_eq_mono]
  exact fun v hv => ⟨t, List.mem_cons_self, hv⟩

/-- a new var is not free anywhere yet -/
theorem env_bindFixed (h : Γ.Within s) (hs : s.Sound) {v : Var} (hv : Fresh s s₁ v) (x : String) :
    (Γ.bindFixed x (.var v)).env s₁ = (Γ.env s).bind x (Scheme.mono (.var v)) := by
  funext y
  by_cases hy : y = x
  · subst hy
    rw [env_bindFixed_self, Env.bind_self, Store.resolve_var, Store.value_of_unbound hv.unbound]
  · have hget : (Γ.bindFixed x (.var v)).scope.get? y = Γ.scope.get? y := by
      rw [bindFixed, Scope.get?_extend, if_neg hy]
    rw [Env.bind_of_ne hy, ← env_keeps hv.keeps hs.acyclic]
    cases ht : Γ.scope.get? y with
    | none => rw [env_of_none (hget.trans ht), env_of_none ht]
    | some t =>
      rw [env_of_some (hget.trans ht), env_of_some ht]
      congr 1
      apply Scheme.close_congr
      intro w hw
      rw [hv.keeps.resolve_eq hs.acyclic] at hw
      have hwv : w ≠ v := by
        rintro rfl
        exact hv.not_made (hs.made_of_mem (h.scope y t ht) hw)
      simp [varsOf, bindFixed, Store.value_of_unbound hv.unbound, hwv]

end Context

/-! ## what steps do to the environment -/

namespace Binds

/-- outside of `E` nothing happens to the vars of the store -/
theorem value_of_not_mem (h : Binds E s s₁) {v : Var} (hm : s.Made v) (hb : s.binding? v = none)
    (hv : v ∉ E) : s₁.value v = .var v :=
  Store.value_of_unbound ((h.touches v hm hb).1 hv)

theorem mem_varsOf_later (h : Binds E s s₁) (hs : s.Sound) {ts : List Ty} {v : Var} :
    v ∈ s₁.varsOf ts ↔ ∃ u ∈ s.varsOf ts, v ∈ (s₁.value u).vars := by
  simp only [varsOf, Set.mem_ofPred_eq, h.grows.resolve_eq hs.acyclic, Term.mem_vars_subst]
  constructor
  · rintro ⟨t, ht, u, hu, hv⟩
    exact ⟨u, ⟨t, ht, hu⟩, hv⟩
  · rintro ⟨u, ⟨t, ht, hu⟩, hv⟩
    exact ⟨t, ht, u, hu, hv⟩

/-- a var that occurs in a non-generic type now stems from a free one, or nothing happened to it -/
theorem stem (h : Binds E s s₁) (hs : s.Sound) (hΓ : Γ.Within s) {v : Var}
    (hv : v ∈ s₁.varsOf Γ.nonGeneric) :
    (∃ u ∈ E, v ∈ (s₁.value u).vars) ∨ (s.Made v ∧ v ∈ s.varsOf Γ.nonGeneric ∧ v ∉ E) := by
  obtain ⟨u, hu, hvu⟩ := (h.mem_varsOf_later hs).1 hv
  obtain ⟨t, ht, hut⟩ := id hu
  have hm := hs.made_of_mem (hΓ.nonGeneric t ht) hut
  by_cases huE : u ∈ E
  · exact .inl ⟨u, huE, hvu⟩
  · rw [h.value_of_not_mem hm (hs.acyclic.unbound_of_mem hut) huE, Term.vars_var,
      List.mem_singleton] at hvu
    subst hvu
    exact .inr ⟨hm, hu, huE⟩

theorem env_eq (h : Binds (Γ.env s).freeVars s s₁) (hs : s.Sound) (hΓ : Γ.Within s) :
    Γ.env s₁ = (Γ.env s).replace s₁.value := by
  funext x
  cases ht : Γ.scope.get? x with
  | none => rw [Env.replace, Context.env_of_none ht, Context.env_of_none ht, Option.map_none]
  | some t =>
    rw [Env.replace, Context.env_of_some ht, Context.env_of_some ht, Option.map_some]
    congr 1
    rw [h.grows.resolve_eq hs.acyclic, Scheme.close, Scheme.replace, Scheme.close, Term.subst_subst,
      Term.subst_subst]
    apply Term.subst_congr
    intro v hv
    have hm := hs.made_of_mem (hΓ.scope x t ht) hv
    have hb := hs.acyclic.unbound_of_mem hv
    by_cases hN : v ∈ s.varsOf Γ.nonGeneric
    · rw [if_pos hN]
      exact Scheme.close_eq_mono fun w hw => (h.mem_varsOf_later hs).2 ⟨v, hN, hw⟩
    · have hfree : v ∉ (Γ.env s).freeVars := fun hv => hN (Context.freeVars_env_subset hv)
      have hN₁ : v ∉ s₁.varsOf Γ.nonGeneric := by
        intro hv₁
        rcases h.stem hs hΓ hv₁ with ⟨u, hu, hvu⟩ | ⟨-, hv, -⟩
        · obtain ⟨-, y, t', ht', hut⟩ := Context.mem_freeVars_env.1 hu
          have humade := hs.made_of_mem (hΓ.scope y t' ht') hut
          exact hfree ((h.touches u humade (hs.acyclic.unbound_of_mem hut)).2 hu v hvu hm)
        · exact hN hv
      rw [if_neg hN, h.value_of_not_mem hm hb hfree, Term.subst_var, if_neg hN₁]
      rfl

theorem free_subset (h : Binds (Γ.env s).freeVars s s₁) (hs : s.Sound) (hΓ : Γ.Within s) :
    (Γ.env s₁).freeVars ⊆ s.orNew (Γ.env s).freeVars := by
  intro v hv
  rw [h.env_eq hs hΓ] at hv
  obtain ⟨u, hu, hvu⟩ := Env.mem_freeVars_replace.1 hv
  obtain ⟨-, y, t, ht, hut⟩ := Context.mem_freeVars_env.1 hu
  have hm := hs.made_of_mem (hΓ.scope y t ht) hut
  exact (h.touches u hm (hs.acyclic.unbound_of_mem hut)).2 hu v hvu

theorem env_later (h : Binds (Γ.env s).freeVars s s₁) (h' : Binds (Γ.env s).freeVars s s₂)
    (hg : s₁.Grows s₂) (hs : s.Sound) (hΓ : Γ.Within s) :
    Γ.env s₂ = (Γ.env s₁).replace s₂.value := by
  rw [h'.env_eq hs hΓ, h.env_eq hs hΓ, Env.replace_replace]
  exact Env.replace_congr fun v _ => hg.value_eq h.grows.acyclic v

theorem env_bindGeneric (h : Binds (Γ.env s).freeVars s s₁) (hs : s.Sound) (hΓ : Γ.Within s)
    (ho : Over (Γ.env s).freeVars s s₁ t) (x : String) :
    (Γ.bindGeneric x t).env s₁ = (Γ.env s₁).bind x ((Γ.env s₁).generalise (s₁.resolve t)) := by
  funext y
  have hget : (Γ.bindGeneric x t).scope.get? y = if y = x then some t else Γ.scope.get? y := by
    rw [Context.bindGeneric, Scope.get?_extend]
  by_cases hy : y = x
  · subst hy
    rw [if_pos rfl] at hget
    rw [Context.env_of_some hget, Env.bind_self, Env.generalise]
    congr 1
    apply Scheme.close_congr
    intro v hv
    constructor
    · intro hN
      rw [h.env_eq hs hΓ, Env.mem_freeVars_replace]
      rcases h.stem hs hΓ hN with hstem | ⟨hm, -, hnot⟩
      · exact hstem
      · exact absurd (ho.vars v hv hm) hnot
    · intro hfree
      exact (Context.mem_freeVars_env.1 hfree).1
  · rw [if_neg hy] at hget
    rw [Env.bind_of_ne hy]
    simp only [Context.env, hget]
    rfl

/-- what is free where a definition is used was free where it was made, or is new -/
theorem free_bindGeneric_subset (h : Binds (Γ.env s).freeVars s s₁) (hs : s.Sound) (hΓ : Γ.Within s)
    (ho : Over (Γ.env s).freeVars s s₁ t) (x : String) :
    ((Γ.bindGeneric x t).env s₁).freeVars ⊆ s.orNew (Γ.env s).freeVars := by
  intro v hv
  rw [h.env_bindGeneric hs hΓ ho] at hv
  refine h.free_subset hs hΓ ?_
  exact (Env.mem_freeVars_bind hv).elim (fun hv => Env.freeVars_generalise_subset hv) id

end Binds

/-- what has been derived stays derivable for what the type has become -/
theorem HasType.later {e : Expr} (h : HasType (Γ.env s₁) e (s₁.resolve t)) (hs : s.Sound)
    (hΓ : Γ.Within s) (h₁ : Binds (Γ.env s).freeVars s s₁) (h₂ : Binds (Γ.env s).freeVars s s₂)
    (hg : s₁.Grows s₂) : HasType (Γ.env s₂) e (s₂.resolve t) := by
  rw [h₁.env_later h₂ hg hs hΓ, hg.resolve_eq h₁.sound.acyclic]
  refine h.subst ?_
  rw [← h₁.env_later h₂ hg hs hΓ]
  exact (hΓ.mono h₂.grows.made).finite_free h₂.sound

/-- after further steps the type of the new var is still the same for every use -/
theorem Binds.env_bindFixed {v : Var} {x : String}
    (h : Binds ((Γ.bindFixed x (.var v)).env s₁).freeVars s₁ s₂)
    (h' : Binds (Γ.env s).freeVars s s₂) (hv : Fresh s s₁ v) (hs : s.Sound) (hΓ : Γ.Within s) :
    (Γ.bindFixed x (.var v)).env s₂ = (Γ.env s₂).bind x (Scheme.mono (s₂.value v)) := by
  have hs₁ := hv.keeps.sound hs
  have hΓ₁ := (hΓ.mono hv.keeps.made).bindFixed x (Store.has_var.2 hv.made)
  rw [h.env_eq hs₁ hΓ₁, Context.env_bindFixed hΓ hs hv, Env.replace_bind, Scheme.replace_mono,
    h'.env_eq hs hΓ, Term.subst_var]

/-- a definition that may be generalised has no other free vars than one that may not -/
theorem Context.free_bindGeneric_subset_bindFixed (Γ : Context) (s : Store) (x : String) (t : Ty) :
    ((Γ.bindGeneric x t).env s).freeVars ⊆ ((Γ.bindFixed x t).env s).freeVars := by
  intro v hv
  obtain ⟨⟨u, hu, hvu⟩, hscope⟩ := Context.mem_freeVars_env.1 hv
  exact Context.mem_freeVars_env.2 ⟨⟨u, List.mem_cons_of_mem t hu, hvu⟩, hscope⟩

theorem Context.Within.free_bindFixed_subset (hΓ : Γ.Within s) (hs : s.Sound) {v : Var}
    (hv : Fresh s s₁ v) (x : String) :
    ((Γ.bindFixed x (.var v)).env s₁).freeVars ⊆ s.orNew (Γ.env s).freeVars := by
  intro w hw
  rw [Context.env_bindFixed hΓ hs hv] at hw
  rcases Env.mem_freeVars_bind hw with hw | hw
  · rw [Scheme.freeVars_mono, Set.mem_ofPred_eq, Term.vars_var, List.mem_singleton] at hw
    exact Store.mem_orNew_of_not_made (hw ▸ hv.not_made)
  · exact Store.mem_orNew_of_mem hw

/-! ## solutions -/

theorem Agrees.refl (s : Store) (σ : Var → Term Var) : Agrees s σ σ := fun _ _ => rfl

theorem Agrees.trans {σ'' : Var → Term Var} (h : Agrees s σ σ') (h' : Agrees s₁ σ' σ'')
    (hmade : ∀ v, s.Made v → s₁.Made v) : Agrees s σ σ'' :=
  fun v hv => (h' v (hmade v hv)).trans (h v hv)

theorem Agrees.update {v : Var} (hv : ¬ s.Made v) (σ : Var → Term Var) (u : Term Var) :
    Agrees s σ (Function.update σ v u) := by
  intro w hw
  have hwv : w ≠ v := by
    rintro rfl
    exact hv hw
  exact Function.update_of_ne hwv u σ

theorem Agrees.subst_eq (h : Agrees s σ σ') (ht : s.Has t) : t.term.subst σ' = t.term.subst σ :=
  Term.subst_congr fun v hv => h v (ht.made v hv)

theorem Agrees.solution (h : Agrees s σ σ') (hs : s.Sound) (hσ : s.Solution σ) : s.Solution σ' := by
  intro v t ht
  rw [h v (Store.made_of_binding? ht), hσ v t ht, h.subst_eq (hs.has v t ht)]

theorem Agrees.env_eq (h : Agrees s σ σ') (hs : s.Sound) (hΓ : Γ.Within s) :
    (Γ.env s).replace σ' = (Γ.env s).replace σ :=
  Env.replace_congr fun v hv => h v (hΓ.made_of_free hs hv)

/-- a solution sees the same environment before and after -/
theorem Binds.replace_solution (h : Binds (Γ.env s).freeVars s s₁) (hs : s.Sound) (hΓ : Γ.Within s)
    (ha : Agrees s σ σ') (hσ : s₁.Solution σ') :
    (Γ.env s₁).replace σ' = (Γ.env s).replace σ := by
  rw [h.env_eq hs hΓ, Env.replace_replace, ← ha.env_eq hs hΓ]
  exact Env.replace_congr fun v _ => hσ.subst_value h.grows.acyclic v

end LetPoly
