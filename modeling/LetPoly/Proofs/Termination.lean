import LetPoly.Proofs.History
import LetPoly.Proofs.Recursion

/-!
# Everything ends on acyclic stores

A binding may make types grow that are still to be unified, and a call of unification may be one
with the sides swapped; but on an acyclic store each of the recursions ends, and its outcome is the
one that the library computes with a fuel (`recursions_end`).  Inference walks through an expression
and calls two of them, again and again, on the stores that it has come to: it ends as well.
-/

namespace LetPoly

open StoreM

/-- the recursions that inference calls -/
structure Calls where
  unify : Ty → Ty → StoreM Unit
  copy : List Ty → Nat → Ty → Ty.Copying Ty

def Calls.step (c : Calls) : Calls where
  unify := Ty.unifyStep c.unify
  copy nonGeneric session := Ty.copyStep (Ty.copyVar nonGeneric session) (c.copy nonGeneric session)

/-- an instance of a type, the copy left to `c` -/
def Calls.fresh (c : Calls) (t : Ty) (nonGeneric : List Ty) (session : Nat) : StoreM Ty :=
  (c.copy nonGeneric session t).run' []

namespace Expr

/-- inference that leaves unification and copies to `c` -/
def inferBy (c : Calls) (session : Nat) : Expr → Context → StoreM Ty
  | name x, Γ => do
    match Γ.scope.get? x with
    | some t => c.fresh t Γ.nonGeneric session
    | none =>
      if isInteger x then return Ty.int
      note (.undefinedName x)
      throw (.problem (.undefinedName x))
  | fn p body, Γ => do
    let param := Ty.var (← newVar session)
    let result ← body.inferBy c session (Γ.bindFixed p param)
    newFunc param result
  | app f a, Γ => do
    let func ← f.inferBy c session Γ
    let arg ← a.inferBy c session Γ
    let result := Ty.var (← newVar session)
    c.unify (← newFunc arg result) func
    return result
  | letIn x value body, Γ => do
    let t ← value.inferBy c session Γ
    body.inferBy c session (Γ.bindGeneric x t)
  | letRec x value body, Γ => do
    let target := Ty.var (← newVar session)
    let t ← value.inferBy c session (Γ.bindFixed x target)
    c.unify target t
    body.inferBy c session (Γ.bindGeneric x target)

def inferTypeBy (c : Calls) (e : Expr) (scope : Scope Ty) (session : Option Nat) : StoreM Ty := do
  let t ← e.inferBy c (← ownSession session) { scope }
  note (.inferred t)
  return t

end Expr

/-! ## the library follows its recursions -/

variable {s : Store}

theorem follows_prune (t : Ty) (s : Store) :
    Follows Ty.pruneStep (fun self => self t s) (t.prune s) :=
  Ty.follows_pruneWithin s.varCount t s

theorem follows_occursIn (sought t : Ty) (s : Store) :
    Follows (Ty.searchStep sought) (fun self => self t s) (Ty.occursIn sought t s) :=
  Ty.follows_occursWithin s.varCount t s

theorem follows_render (t : Ty) (s : Store) :
    Follows Ty.renderStep (fun self => self t s) (t.render s) :=
  (Ty.follows_renderWithin s.varCount t s).1

theorem follows_unify (l r : Ty) (s : Store) :
    Follows Ty.unifyStep (fun self => self l r s) (Ty.unify l r s) :=
  fun hne => (Ty.derives_within s.unifyBound l r s hne).settles trivial

theorem follows_fresh (t : Ty) (nonGeneric : List Ty) (i : Nat) (s : Store) :
    Follows (Ty.copyStep (Ty.copyVar nonGeneric i)) (fun self => (self t).run' [] s)
      (t.freshInstance nonGeneric i s) :=
  .bind (Ty.follows_copyWithin s.varCount t [] s).1 fun _ _ _ => .const _

theorem follows_infer (e : Expr) (i : Nat) (Γ : Context) (s : Store) :
    Follows Calls.step (fun c => e.inferBy c i Γ s) (e.infer i Γ s) := by
  have hunify : ∀ l r s, Follows Calls.step (fun c => c.unify l r s) (Ty.unify l r s) :=
    fun l r s hne => (follows_unify l r s hne).lift fun _ => rfl
  induction e generalizing Γ s with
  | name x =>
    rw [Expr.infer]
    simp only [Expr.inferBy]
    cases Γ.scope.get? x with
    | some t =>
      have hcopy : Function.Semiconj (fun c : Calls => c.copy Γ.nonGeneric i) Calls.step
        (Ty.copyStep (Ty.copyVar Γ.nonGeneric i)) := fun _ => rfl
      exact fun hne => (follows_fresh t Γ.nonGeneric i s hne).lift hcopy
    | none => exact .const _
  | fn p body ih =>
    rw [Expr.infer]
    refine .bind (.const _) fun v s₁ _ => .bind (ih _ s₁) fun _ _ _ => .const _
  | app f a ihf iha =>
    rw [Expr.infer]
    refine .bind (ihf Γ s) fun func s₁ _ => .bind (iha Γ s₁) fun arg s₂ _ => ?_
    refine .bind (.const _) fun v s₃ _ => .bind (.const _) fun t s₄ _ => ?_
    exact .bind (hunify t func s₄) fun _ _ _ => .const _
  | letIn x value body ihv ihb =>
    rw [Expr.infer]
    exact .bind (ihv Γ s) fun t s₁ _ => ihb _ s₁
  | letRec x value body ihv ihb =>
    rw [Expr.infer]
    refine .bind (.const _) fun v s₁ _ => .bind (ihv _ s₁) fun t s₂ _ => ?_
    exact .bind (hunify _ t s₂) fun _ s₃ _ => ihb _ s₃

theorem follows_inferType (e : Expr) (scope : Scope Ty) (session : Option Nat) (s : Store) :
    Follows Calls.step (fun c => e.inferTypeBy c scope session s)
      (e.inferType scope session s) := by
  rw [inferType_eq]
  refine .bind (.const _) fun i s₁ _ => ?_
  exact .bind (follows_infer e i _ s₁) fun _ _ _ => .const _

/-! ## all of them end -/

/-- the recursions that start in `s` end, as the library has it -/
structure Terminating (s : Store) : Prop where
  prune : ∀ t, Concludes Ty.pruneStep (fun self => self t s) (t.prune s)
  occursIn : ∀ sought t, s.Has t →
    Concludes (Ty.searchStep sought) (fun self => self t s) (Ty.occursIn sought t s)
  fresh : ∀ t nonGeneric i, s.Has t → (∀ u ∈ nonGeneric, s.Has u) → i < s.sessions.size →
    Concludes (Ty.copyStep (Ty.copyVar nonGeneric i)) (fun self => (self t).run' [] s)
      (t.freshInstance nonGeneric i s)
  render : ∀ t, s.Has t → Concludes Ty.renderStep (fun self => self t s) (t.render s)
  unify : ∀ l r, s.Has l → s.Has r →
    Concludes Ty.unifyStep (fun self => self l r s) (Ty.unify l r s)
  inferType : ∀ (e : Expr) (scope : Scope Ty) (session : Option Nat), scope.Within s →
    (∀ i ∈ session, i < s.sessions.size) →
    Concludes Calls.step (fun c => e.inferTypeBy c scope session s) (e.inferType scope session s)

theorem recursions_end (hs : s.Sound) : Terminating s where
  prune t := (follows_prune t s).concludes (Ty.ends_prune hs.acyclic t) fun _ => id
  occursIn sought t ht :=
    (follows_occursIn sought t s).concludes (Ty.ends_occursIn hs ht) fun _ => id
  fresh t nonGeneric i ht hg hi :=
    (follows_fresh t nonGeneric i s).concludes (Ty.ends_freshInstance hs hg hi ht) fun _ => id
  render t ht := (follows_render t s).concludes (Ty.ends_render hs ht) fun _ h => nomatch h.1
  unify l r hl hr := (follows_unify l r s).concludes (Ty.ends_unify hs hl hr)
    fun _ h => h.refusal.ne_endlessChain rfl
  inferType e scope session hscope hi := by
    refine (follows_inferType e scope session s).concludes (ends_inferType hs hscope hi) ?_
    rintro s' ⟨-, hf | ⟨x, hf⟩, -⟩
    · exact hf.ne_endlessChain rfl
    · cases hf

/-- unification that binds a var, makes the second pair of arguments grow by it, and calls itself
with the sides swapped there -/
theorem recursions_end_of_swap :
    Concludes Ty.unifyStep (fun self => self circleLeft circleRight pairStore)
        (Ty.unify circleLeft circleRight pairStore) ∧
      Concludes Ty.renderStep (fun self => self (.var ⟨0, 0⟩) pairStore)
        (Ty.render (.var ⟨0, 0⟩) pairStore) ∧
      Concludes Calls.step
        (fun c => (Expr.name "pair").inferTypeBy c (.ofList [("pair", .var ⟨0, 0⟩)]) none pairStore)
        ((Expr.name "pair").inferType (.ofList [("pair", .var ⟨0, 0⟩)]) none pairStore) := by
  have h := recursions_end reached_pairStore.sound
  have hvar : pairStore.Has (.var ⟨0, 0⟩) := ⟨rfl, by decide +kernel⟩
  have hscope : (Scope.ofList [("pair", Ty.var ⟨0, 0⟩)]).Within pairStore := by
    intro x t hx
    have hmem := Scope.mem_of_get?_ofList hx
    rw [List.mem_singleton, Prod.mk.injEq] at hmem
    exact hmem.2 ▸ hvar
  refine ⟨h.unify _ _ ⟨rfl, ?_⟩ ⟨rfl, ?_⟩, h.render _ hvar, h.inferType _ _ none hscope nofun⟩
  · decide +kernel
  · decide +kernel

end LetPoly
