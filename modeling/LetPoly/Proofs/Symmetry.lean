import LetPoly.Proofs.Clash
import LetPoly.Proofs.Term.Print

/-!
# Unification is symmetric

Unifying two types one way round or the other leaves behind two stores that identify the same
types, also where it fails halfway (`unify_symmetric`).  Vars that are joined point to one another
in opposite directions, so the rest of the two runs looks up different vars; but seen as sets of
equations the two stores are the same.

* `Store.SameSolutions`   two stores with the same solutions;
* `Ty.Opposite`           tasks with swapped sides, for two such stores;
* `Unifying.opposite`     if both fail, it is with one kind of fault, and the stores have the same
  solutions again.  The induction is on the calls of one run.  A call that returns has an opposite
  that returns, as both ask for the same equation.
-/

namespace LetPoly

open StoreM

namespace Store

variable {s s' s₁ s₁' : Store} {t u : Ty}

/-- the same equations, in whatever direction they are bound -/
def SameSolutions (s s' : Store) : Prop := ∀ σ, s.Solution σ ↔ s'.Solution σ

/-- the same types are equal in both stores; only which of two joined vars stands for both may
differ -/
structure SameIdentities (s s' : Store) : Prop where
  equal : ∀ t u, s.resolve t = s.resolve u ↔ s'.resolve t = s'.resolve u
  operator : ∀ v n k, (∃ as, s.value v = .op n as ∧ as.length = k) ↔
    ∃ as, s'.value v = .op n as ∧ as.length = k
  renamed : ∃ ρ : Var → Var, Set.InjOn ρ {v | s.binding? v = none} ∧
    ∀ t, s'.resolve t = (s.resolve t).rename ρ

namespace SameSolutions

theorem refl (s : Store) : SameSolutions s s := fun _ => Iff.rfl

theorem symm (h : SameSolutions s s') : SameSolutions s' s := fun σ => (h σ).symm

/-- steps that change no meaning, on either side -/
theorem quiet (h : SameSolutions s s') (hq : s.Quiet s₁) (hq' : s'.Quiet s₁') :
    SameSolutions s₁ s₁' := fun σ => (hq.solution σ).trans ((h σ).trans (hq'.solution σ).symm)

theorem resolve_eq (h : SameSolutions s s') (hs : s.Acyclic) (hs' : s'.Acyclic) (t : Ty) :
    s'.resolve t = (s.resolve t).subst s'.value :=
  (((h _).2 hs'.value_solution).subst_resolve hs t).symm

theorem resolve_congr (h : SameSolutions s s') (hs : s.Acyclic) (hs' : s'.Acyclic)
    (htu : s.resolve t = s.resolve u) : s'.resolve t = s'.resolve u := by
  rw [h.resolve_eq hs hs', h.resolve_eq hs hs', htu]

/-- a var that is unbound in one store stands for a var in the other -/
theorem exists_value (h : SameSolutions s s') (hs : s.Acyclic) (hs' : s'.Acyclic) {v : Var}
    (hv : s.binding? v = none) : ∃ w, s'.value v = .var w := by
  cases hval : s'.value v with
  | var w => exact ⟨w, rfl⟩
  | op n as =>
    have hback := h.symm.resolve_eq hs' hs (.var v)
    rw [resolve_var, resolve_var, hval, value_of_unbound hv, Term.subst_op] at hback
    cases hback

theorem exists_rename (h : SameSolutions s s') (hs : s.Acyclic) (hs' : s'.Acyclic) :
    ∃ ρ : Var → Var, Set.InjOn ρ {v | s.binding? v = none} ∧
      ∀ t, s'.resolve t = (s.resolve t).rename ρ := by
  have hvar : ∀ v, ∃ w, s.binding? v = none → s'.value v = .var w := by
    intro v
    by_cases hv : s.binding? v = none
    · obtain ⟨w, hw⟩ := h.exists_value hs hs' hv
      exact ⟨w, fun _ => hw⟩
    · exact ⟨v, fun h => absurd h hv⟩
  choose ρ hρ using hvar
  refine ⟨ρ, fun v hv w hw hvw => ?_, fun t => ?_⟩
  · have heq : s'.resolve (.var v) = s'.resolve (.var w) := by
      rw [resolve_var, resolve_var, hρ v hv, hρ w hw, hvw]
    have hback := h.symm.resolve_congr hs' hs heq
    rwa [resolve_var, resolve_var, value_of_unbound hv, value_of_unbound hw,
      Term.var.injEq] at hback
  · rw [h.resolve_eq hs hs']
    exact Term.subst_congr fun v hv => hρ v (hs.unbound_of_mem hv)

theorem sameIdentities (h : SameSolutions s s') (hs : s.Acyclic) (hs' : s'.Acyclic) :
    SameIdentities s s' where
  equal t u := ⟨h.resolve_congr hs hs', h.symm.resolve_congr hs' hs⟩
  operator := by
    have hop : ∀ {s s' : Store} (v : Var) (n : String) (k : Nat), SameSolutions s s' → s.Acyclic →
        s'.Acyclic → (∃ as, s.value v = .op n as ∧ as.length = k) →
        ∃ as, s'.value v = .op n as ∧ as.length = k := by
      rintro s s' v n k h hs hs' ⟨as, has, rfl⟩
      have hval := h.resolve_eq hs hs' (.var v)
      rw [resolve_var, resolve_var, has, Term.subst_op] at hval
      exact ⟨_, hval, List.length_map _⟩
    exact fun v n k => ⟨hop v n k h hs hs', hop v n k h.symm hs' hs⟩
  renamed := h.exists_rename hs hs'

end SameSolutions
end Store

namespace Ty

open Store (SameSolutions SameIdentities)

variable {s s' s₁ s₁' : Store} {l r l' r' t : Ty} {o o' : Outcome} {f f' : Failure}
  {task task' : Task}

/-! ## swapped sides -/

/-- the second task has the sides of the first one swapped, as far as `s` can tell -/
inductive Swapped (s : Store) : Task → Task → Prop where
  | types {l r l' r' : Ty} (hl : s.resolve l = s.resolve l') (hr : s.resolve r = s.resolve r') :
      Swapped s (.types l r) (.types r' l')
  | ends {l r l' r' : Ty} (hl : s.resolve l = s.resolve l') (hr : s.resolve r = s.resolve r') :
      Swapped s (.ends l r) (.ends r' l')
  | args {as bs as' bs' : List Ty} (hl : as.map s.resolve = as'.map s.resolve)
      (hr : bs.map s.resolve = bs'.map s.resolve) : Swapped s (.args as bs) (.args bs' as')

/-- tasks with swapped sides, to be done in stores with the same solutions -/
structure Opposite (s : Store) (task : Task) (s' : Store) (task' : Task) : Prop where
  ready : task.Ready s
  ready' : task'.Ready s'
  same : SameSolutions s s'
  swapped : Swapped s task task'

theorem Swapped.left (h : Swapped s task task') : s.resolve task.left = s.resolve task'.right := by
  cases h with
  | types hl _ => exact hl
  | ends hl _ => exact hl
  | args hl _ =>
    rw [Task.left, Task.right, Store.resolve_op, Store.resolve_op, hl]

theorem Swapped.right (h : Swapped s task task') :
    s.resolve task.right = s.resolve task'.left := by
  cases h with
  | types _ hr => exact hr
  | ends _ hr => exact hr
  | args _ hr =>
    rw [Task.left, Task.right, Store.resolve_op, Store.resolve_op, hr]

namespace Opposite

theorem equation (h : Opposite s task s' task') {σ : Var → Term Var} (hσ : s.Solution σ) :
    task.left.term.subst σ = task.right.term.subst σ ↔
      task'.left.term.subst σ = task'.right.term.subst σ := by
  have hs := h.ready.sound.acyclic
  rw [hσ.subst_congr hs h.swapped.left, hσ.subst_congr hs h.swapped.right, eq_comm]

/-- opposite tasks do not end differently -/
theorem not_ok_error {u : Unit} (h : Opposite s task s' task')
    (hok : Unifying s task (.ok u s₁)) (herr : Unifying s' task' (.error f s₁')) : False := by
  have heq := hok.equated h.ready
  obtain ⟨hsol, hlr⟩ := (heq.solution _).1 heq.grows.acyclic.value_solution
  exact (herr.refused h.ready').unsolvable _ ((h.same _).1 hsol) ((h.equation hsol).1 hlr)

theorem not_error_ok {u : Unit} (h : Opposite s task s' task')
    (herr : Unifying s task (.error f s₁)) (hok : Unifying s' task' (.ok u s₁')) : False := by
  have heq := hok.equated h.ready'
  obtain ⟨hsol, hlr⟩ := (heq.solution _).1 heq.grows.acyclic.value_solution
  have hsol := (h.same _).2 hsol
  exact (herr.refused h.ready).unsolvable _ hsol ((h.equation hsol).2 hlr)

/-- where both return, both have added the same equation -/
theorem same_of_ok {u u' : Unit} (h : Opposite s task s' task') (hok : Unifying s task (.ok u s₁))
    (hok' : Unifying s' task' (.ok u' s₁')) : SameSolutions s₁ s₁' := by
  intro σ
  rw [(hok.equated h.ready).solution, (hok'.equated h.ready').solution, ← h.same]
  exact and_congr_right fun hσ => h.equation hσ

theorem lookUp {l₁ r₁ l₁' r₁' : Ty} {s₂ s₂' : Store}
    (h : Opposite s (.types l r) s' (.types r' l')) (hl : prune l s = .ok l₁ s₁)
    (hr : prune r s₁ = .ok r₁ s₂) (hr' : prune r' s' = .ok r₁' s₁')
    (hl' : prune l' s₁' = .ok l₁' s₂') : Opposite s₂ (.ends l₁ r₁) s₂' (.ends r₁' l₁') := by
  have hlook := h.ready.lookUp hl hr
  have hlook' := h.ready'.lookUp hr' hl'
  have hs := h.ready.sound.acyclic
  have hs' := h.ready'.sound.acyclic
  refine ⟨hlook.ready, hlook'.ready, h.same.quiet hlook.quiet hlook'.quiet, ?_⟩
  have hback : ∀ {t u}, s'.resolve t = s'.resolve u → s.resolve t = s.resolve u :=
    fun htu => h.same.symm.resolve_congr hs' hs htu
  refine .ends ?_ ?_
  · rw [hlook.quiet.resolve_eq hs, hlook.quiet.resolve_eq hs, hlook.left, hback hlook'.right]
    exact h.swapped.left
  · rw [hlook.quiet.resolve_eq hs, hlook.quiet.resolve_eq hs, hlook.right, hback hlook'.left]
    exact h.swapped.right

theorem head {a b a' b' : Ty} {as bs as' bs' : List Ty}
    (h : Opposite s (.args (a :: as) (b :: bs)) s' (.args (b' :: bs') (a' :: as'))) :
    Opposite s (.types a b) s' (.types b' a') := by
  refine ⟨h.ready.head, h.ready'.head, h.same, ?_⟩
  cases h.swapped with
  | args hl hr => exact .types (List.cons.inj hl).1 (List.cons.inj hr).1

theorem rest {u u' : Unit} {a b a' b' : Ty} {as bs as' bs' : List Ty}
    (h : Opposite s (.args (a :: as) (b :: bs)) s' (.args (b' :: bs') (a' :: as')))
    (hok : Unifying s (.types a b) (.ok u s₁)) (hok' : Unifying s' (.types b' a') (.ok u' s₁')) :
    Opposite s₁ (.args as bs) s₁' (.args bs' as') := by
  have hg := (hok.equated h.ready.head).grows
  have hs := h.ready.sound.acyclic
  refine ⟨h.ready.rest hg, h.ready'.rest (hok'.equated h.ready'.head).grows,
    h.head.same_of_ok hok hok', ?_⟩
  have hmap : ∀ {ts us : List Ty}, ts.map s.resolve = us.map s.resolve →
      ts.map s₁.resolve = us.map s₁.resolve := by
    intro ts us heq
    have hsub := congrArg (List.map (Term.subst s₁.value)) heq
    rw [List.map_map, List.map_map] at hsub
    have hres : s₁.resolve = Term.subst s₁.value ∘ s.resolve := funext fun t => hg.resolve_eq hs t
    rw [hres, hsub]
  cases h.swapped with
  | args hl hr => exact .args (hmap (List.cons.inj hl).2) (hmap (List.cons.inj hr).2)

end Opposite

/-! ## failures -/

def IsCircle (f : Failure) : Prop := ∃ v t, f = .problem (.circular v t)

def IsClash (f : Failure) : Prop := (∃ a b, f = .problem (.mismatch a b)) ∨ f = .namesExhausted

/-- both failures are of one class, except that either clash may find no names left -/
structure SameFault (f f' : Failure) : Prop where
  circular : IsCircle f ↔ IsCircle f'
  kind : f ≠ .namesExhausted → f' ≠ .namesExhausted → f.kind = f'.kind

theorem SameFault.of_circles (h : IsCircle f) (h' : IsCircle f') : SameFault f f' := by
  obtain ⟨v, t, rfl⟩ := id h
  obtain ⟨w, u, rfl⟩ := id h'
  exact ⟨iff_of_true h h', fun _ _ => rfl⟩

theorem IsClash.not_isCircle (h : IsClash f) : ¬ IsCircle f := by
  rintro ⟨v, t, rfl⟩
  rcases h with ⟨a, b, hf⟩ | hf
  · cases hf
  · cases hf

theorem IsClash.kind_eq (h : IsClash f) (hf : f ≠ .namesExhausted) : f.kind = "type_mismatch" := by
  obtain ⟨a, b, rfl⟩ := h.resolve_right hf
  rfl

theorem SameFault.of_clashes (h : IsClash f) (h' : IsClash f') : SameFault f f' where
  circular := iff_of_false h.not_isCircle h'.not_isCircle
  kind hf hf' := (h.kind_eq hf).trans (h'.kind_eq hf').symm

theorem eq_op_of_resolve {n : String} {ts : List (Term Var)} (ht : s.Has t) (he : s.Ended t)
    (h : s.resolve t = .op n ts) : ∃ k as, t = op k n as ∧ as.map s.resolve = ts := by
  cases t with
  | var v =>
    rw [Store.resolve_var, Store.value_of_unbound (he v rfl)] at h
    cases h
  | op k m as =>
    rw [Store.resolve_op, Term.op.injEq] at h
    obtain ⟨rfl, has⟩ := h
    exact ⟨k, as, rfl, has⟩
  | hole => exact absurd ht Store.not_has_hole

/-- where a var is met, the only fault is a circle -/
theorem Unifying.circle (h : Unifying s (.ends l r) o) (ho : o = .error f s₁)
    (hready : Task.Ready s (.ends l r)) {v : Var}
    (hvar : s.resolve l = .var v ∨ s.resolve r = .var v) : IsCircle f ∧ s.Quiet s₁ := by
  have hbind : ∀ {v : Var} {t : Ty}, s.Has t → bindVar v t s = .error f s₁ →
      IsCircle f ∧ s.Quiet s₁ := by
    intro v t ht hb
    obtain ⟨hf, -, hq⟩ := (ends_bindVar hready.sound ht).error hb
    exact ⟨⟨_, _, hf⟩, hq⟩
  have hop : ∀ {k j n m as bs}, ¬ (s.resolve (op k n as) = .var v ∨
      s.resolve (op j m bs) = .var v) := by
    intro k j n m as bs heq
    rw [Store.resolve_op, Store.resolve_op] at heq
    rcases heq with heq | heq
    · cases heq
    · cases heq
  cases h with
  | same => cases ho
  | left _ => exact hbind hready.right ho
  | right _ => exact hbind hready.left ho
  | clash _ => exact absurd hvar hop
  | operators _ _ => exact absurd hvar hop
  | missing _ _ hole =>
    rcases hole with rfl | rfl
    · exact absurd hready.left Store.not_has_hole
    · exact absurd hready.right Store.not_has_hole

theorem isClash_of_clash (hs : s.Sound) (hl : s.Has l) (hr : s.Has r)
    (h : clash l r s = .error f s₁) : IsClash f ∧ s.Quiet s₁ := by
  obtain ⟨hq, hf⟩ := (ends_clash hs hl hr).error h
  refine ⟨hf.imp ?_ fun h => h.1, hq⟩
  rintro ⟨a, b, rfl, -⟩
  exact ⟨a, b, rfl⟩

namespace Opposite

theorem eq_types (h : Opposite s (.types l r) s' task') : ∃ l' r', task' = .types r' l' := by
  cases h with
  | mk _ _ _ hsw =>
    cases hsw with
    | types _ _ => exact ⟨_, _, rfl⟩

theorem eq_ends (h : Opposite s (.ends l r) s' task') : ∃ l' r', task' = .ends r' l' := by
  cases h with
  | mk _ _ _ hsw =>
    cases hsw with
    | ends _ _ => exact ⟨_, _, rfl⟩

theorem eq_args {a b : Ty} {as bs : List Ty} (h : Opposite s (.args (a :: as) (b :: bs)) s' task') :
    ∃ a' as' b' bs', task' = .args (b' :: bs') (a' :: as') := by
  cases h with
  | mk _ _ _ hsw =>
    cases hsw with
    | @args _ _ as' bs' hl hr =>
      cases as' with
      | nil => cases hl
      | cons a' as' =>
        cases bs' with
        | nil => cases hr
        | cons b' bs' => exact ⟨a', as', b', bs', rfl⟩

/-- a var on one side is met by both -/
theorem circles (hop : Opposite s (.ends l r) s' (.ends r' l')) (h : Unifying s (.ends l r) o)
    (h' : Unifying s' (.ends r' l') o') (ho : o = .error f s₁) (ho' : o' = .error f' s₁') {v : Var}
    (hvar : s.resolve l = .var v ∨ s.resolve r = .var v) :
    SameFault f f' ∧ SameSolutions s₁ s₁' := by
  obtain ⟨ρ, -, hρ⟩ := hop.same.exists_rename hop.ready.sound.acyclic hop.ready'.sound.acyclic
  have hl : s.resolve l = s.resolve l' := hop.swapped.left
  have hr : s.resolve r = s.resolve r' := hop.swapped.right
  have hvar' : s'.resolve r' = .var (ρ v) ∨ s'.resolve l' = .var (ρ v) := by
    rw [hρ, hρ, ← hl, ← hr]
    exact hvar.symm.imp (fun h => by rw [h, Term.rename_var]) fun h => by rw [h, Term.rename_var]
  obtain ⟨hf, hq⟩ := h.circle ho hop.ready hvar
  obtain ⟨hf', hq'⟩ := h'.circle ho' hop.ready' hvar'
  exact ⟨.of_circles hf hf', hop.same.quiet hq hq'⟩

theorem operators {k j : Nat} {n m : String} {as bs : List Ty}
    (h : Opposite s (.ends (op k n as) (op j m bs)) s' (.ends r' l')) :
    ∃ k' j' as' bs', r' = op j' m bs' ∧ l' = op k' n as' ∧ Swapped s (.args as bs) (.args bs' as') ∧
      as.length = as'.length ∧ bs.length = bs'.length := by
  have hside : ∀ {k n as t}, s.resolve (op k n as) = s.resolve t → s'.Has t → s'.Ended t →
      ∃ k' as', t = op k' n as' ∧ as.map s.resolve = as'.map s.resolve := by
    intro k n as t heq ht he
    have hop : s'.resolve t = .op n ((as.map s.resolve).map (Term.subst s'.value)) := by
      rw [h.same.resolve_eq h.ready.sound.acyclic h.ready'.sound.acyclic, ← heq, Store.resolve_op,
        Term.subst_op]
    obtain ⟨k', as', rfl, -⟩ := eq_op_of_resolve ht he hop
    rw [Store.resolve_op, Store.resolve_op, Term.op.injEq] at heq
    exact ⟨k', as', rfl, heq.2⟩
  obtain ⟨hr, hl⟩ := h.ready'.prepared
  obtain ⟨k', as', rfl, has⟩ := hside h.swapped.left h.ready'.right hl
  obtain ⟨j', bs', rfl, hbs⟩ := hside h.swapped.right h.ready'.left hr
  have hlen := congrArg List.length has
  have hlen' := congrArg List.length hbs
  rw [List.length_map, List.length_map] at hlen hlen'
  exact ⟨k', j', as', bs', rfl, rfl, .args has hbs, hlen, hlen'⟩

end Opposite

/-! ## whole runs -/

/-- opposite tasks that both fail do so in the same way, and leave the same equations behind -/
theorem Unifying.opposite (h : Unifying s task o) (hop : Opposite s task s' task')
    (h' : Unifying s' task' o') (ho : o = .error f s₁) (ho' : o' = .error f' s₁') :
    SameFault f f' ∧ SameSolutions s₁ s₁' := by
  induction h generalizing s' task' o' with
  | lookUp hl hr _ ih =>
    obtain ⟨l', r', rfl⟩ := hop.eq_types
    cases h' with
    | lookUp hr' hl' h' => exact ih (hop.lookUp hl hr hr' hl') h' ho ho'
  | same => cases ho
  | @left s v r hr =>
    obtain ⟨l', r', rfl⟩ := hop.eq_ends
    have hv := Store.value_of_unbound (hop.ready.prepared.1 v rfl)
    exact hop.circles (.left hr) h' ho ho' (.inl hv)
  | @right s w l hl =>
    obtain ⟨l', r', rfl⟩ := hop.eq_ends
    have hw := Store.value_of_unbound (hop.ready.prepared.2 w rfl)
    exact hop.circles (.right hl) h' ho ho' (.inr hw)
  | clash hne =>
    obtain ⟨l', r', rfl⟩ := hop.eq_ends
    obtain ⟨k', j', as', bs', rfl, rfl, -, hlen, hlen'⟩ := hop.operators
    cases h' with
    | clash _ =>
      obtain ⟨hf, hq⟩ := isClash_of_clash hop.ready.sound hop.ready.left hop.ready.right ho
      obtain ⟨hf', hq'⟩ := isClash_of_clash hop.ready'.sound hop.ready'.left hop.ready'.right ho'
      exact ⟨.of_clashes hf hf', hop.same.quiet hq hq'⟩
    | operators heq _ => exact absurd ⟨rfl, by rw [hlen, hlen', heq]⟩ hne
    | missing _ _ hole => simp at hole
  | operators heq _ ih =>
    obtain ⟨l', r', rfl⟩ := hop.eq_ends
    obtain ⟨k', j', as', bs', rfl, rfl, hsw, hlen, hlen'⟩ := hop.operators
    cases h' with
    | clash hne => exact absurd ⟨rfl, by rw [← hlen, ← hlen', heq]⟩ hne
    | operators heq' h' =>
      have hready := hop.ready.operators heq
      have hready' := hop.ready'.operators heq'
      exact ih ⟨hready, hready', hop.same, hsw⟩ h' ho ho'
    | missing _ _ hole => simp at hole
  | missing _ _ hole =>
    rcases hole with rfl | rfl
    · exact absurd hop.ready.left Store.not_has_hole
    · exact absurd hop.ready.right Store.not_has_hole
  | done => cases ho
  | next h _ _ ihrest =>
    obtain ⟨a', as', b', bs', rfl⟩ := hop.eq_args
    cases h' with
    | next h' hrest' => exact ihrest (hop.rest h h') hrest' ho ho'
    | stop h' => exact (hop.head.not_ok_error h h').elim
  | stop h ih =>
    obtain ⟨a', as', b', bs', rfl⟩ := hop.eq_args
    cases h' with
    | next h' _ => exact (hop.head.not_error_ok h h').elim
    | stop h' =>
      cases ho
      cases ho'
      exact ih hop.head h' rfl rfl

/-- how two runs compare that differ in the order of the sides only -/
inductive Mirrored : Outcome → Outcome → Prop where
  | ok {s₁ s₂ : Store} (h : SameIdentities s₁ s₂) : Mirrored (.ok ⟨⟩ s₁) (.ok ⟨⟩ s₂)
  | error {f f' : Failure} {s₁ s₂ : Store} (hf : SameFault f f') (h : SameIdentities s₁ s₂) :
    Mirrored (.error f s₁) (.error f' s₂)

/-- the order of the sides decides neither whether two types can be unified, nor how it fails, nor
which types are identified -/
theorem unify_symmetric (hs : s.Sound) (hl : s.Has l) (hr : s.Has r) :
    Mirrored (unify l r s) (unify r l s) := by
  have h : Unifying s (.types l r) (unify l r s) := (unifying_iff hs hl hr).2 rfl
  have h' : Unifying s (.types r l) (unify r l s) := (unifying_iff hs hr hl).2 rfl
  have hop : Opposite s (.types l r) s (.types r l) :=
    ⟨⟨hs, hl, hr, trivial⟩, ⟨hs, hr, hl, trivial⟩, .refl s, .types rfl rfl⟩
  cases ho : unify l r s with
  | ok u s₁ =>
    rw [ho] at h
    cases ho' : unify r l s with
    | ok u' s₂ =>
      rw [ho'] at h'
      refine .ok ((hop.same_of_ok h h').sameIdentities ?_ ?_)
      · exact (h.equated hop.ready).grows.acyclic
      · exact (h'.equated hop.ready').grows.acyclic
    | error f' s₂ => exact (hop.not_ok_error h (ho' ▸ h')).elim
  | error f s₁ =>
    rw [ho] at h
    cases ho' : unify r l s with
    | ok u' s₂ => exact (hop.not_error_ok h (ho' ▸ h')).elim
    | error f' s₂ =>
      rw [ho'] at h'
      obtain ⟨hf, hsame⟩ := h.opposite hop h' rfl rfl
      refine .error hf (hsame.sameIdentities ?_ ?_)
      · exact (h.refused hop.ready).grows.acyclic
      · exact (h'.refused hop.ready').grows.acyclic

/-- two vars are joined, in opposite directions, before a circle is found behind them -/
theorem unify_symmetric_of_joined :
    let l := op 3 funcName [var ⟨0, 1⟩, var ⟨0, 1⟩]
    let r := op 4 funcName [var ⟨0, 2⟩, var ⟨0, 0⟩]
    Ends (unify l r) pairStore (fun _ _ => False)
        (fun _ s₁ => s₁.binding? ⟨0, 1⟩ ≠ none ∧ s₁.binding? ⟨0, 2⟩ = none) ∧
      Ends (unify r l) pairStore (fun _ _ => False)
        (fun _ s₂ => s₂.binding? ⟨0, 1⟩ = none ∧ s₂.binding? ⟨0, 2⟩ ≠ none) ∧
      Mirrored (unify l r pairStore) (unify r l pairStore) := by
  intro l r
  have hl : pairStore.Has l := ⟨rfl, by decide +kernel⟩
  have hr : pairStore.Has r := ⟨rfl, by decide +kernel⟩
  refine ⟨by decide +kernel, by decide +kernel, ?_⟩
  exact unify_symmetric reached_pairStore.sound hl hr

end Ty
end LetPoly
