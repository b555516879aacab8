import LetPoly.Proofs.Expr.Alpha
import LetPoly.Proofs.History
import LetPoly.Proofs.Inference

/-!
# Only the binding structure matters

Two expressions that differ in the names of their binders only, in scopes that give the same types
to the names that are free in them, are inferred in exactly the same way: the same steps on the
same store, whatever the store is (`analyse_of_alphaEq`).

`Context.Matches m names Γ Γ'` compares two contexts below binders that are paired by `m`.  A name
that no scope has ends in an error that shows it, so it has to be the same name on both sides.
-/

namespace LetPoly

open LetPoly.Expr (AlphaEq freeNames mem_filter_ne)
open Store (chainStore)

/-- paired names have the same type in both contexts, or they are one name without a type -/
structure Context.Matches (m : List (String × String)) (names : List String) (Γ Γ' : Context) :
    Prop where
  nonGeneric : Γ'.nonGeneric = Γ.nonGeneric
  get? : ∀ x y, x ∈ names → Paired m x y → Γ'.scope.get? y = Γ.scope.get? x
  same : ∀ x y, x ∈ names → Paired m x y → Γ.scope.get? x = none → y = x

namespace Context.Matches

variable {m : List (String × String)} {names xs ys : List String} {Γ Γ' : Context} {p : String}

theorem mono (h : Matches m names Γ Γ') (hxs : ∀ x ∈ xs, x ∈ names) : Matches m xs Γ Γ' where
  nonGeneric := h.nonGeneric
  get? x y hx := h.get? x y (hxs x hx)
  same x y hx := h.same x y (hxs x hx)

theorem left (h : Matches m (xs ++ ys) Γ Γ') : Matches m xs Γ Γ' :=
  h.mono fun _ => List.mem_append_left ys

theorem right (h : Matches m (xs ++ ys) Γ Γ') : Matches m ys Γ Γ' :=
  h.mono fun _ => List.mem_append_right xs

/-- one more binder on both sides, for a definition that may be generalised -/
theorem bindGeneric (h : Matches m (names.filter (· ≠ p)) Γ Γ') (q : String) (t : Ty) :
    Matches ((p, q) :: m) names (Γ.bindGeneric p t) (Γ'.bindGeneric q t) where
  nonGeneric := h.nonGeneric
  get? x y hx hxy := by
    rw [Context.bindGeneric, Context.bindGeneric, Scope.get?_extend, Scope.get?_extend]
    cases hxy with
    | here _ _ => rw [if_pos rfl, if_pos rfl]
    | there hp hq hxy =>
      rw [if_neg hp, if_neg hq]
      exact h.get? x y (mem_filter_ne.2 ⟨hx, hp⟩) hxy
  same x y hx hxy hnone := by
    rw [Context.bindGeneric, Scope.get?_extend] at hnone
    cases hxy with
    | here _ _ =>
      rw [if_pos rfl] at hnone
      cases hnone
    | there hp hq hxy =>
      rw [if_neg hp] at hnone
      exact h.same x y (mem_filter_ne.2 ⟨hx, hp⟩) hxy hnone

/-- one more binder on both sides, for a parameter -/
theorem bindFixed (h : Matches m (names.filter (· ≠ p)) Γ Γ') (q : String) (t : Ty) :
    Matches ((p, q) :: m) names (Γ.bindFixed p t) (Γ'.bindFixed q t) where
  nonGeneric := congrArg (t :: ·) h.nonGeneric
  get? := (h.bindGeneric q t).get?
  same := (h.bindGeneric q t).same

/-- without binders around, only names that are the same are paired -/
theorem of_agree (hN : Γ'.nonGeneric = Γ.nonGeneric)
    (hS : ∀ x ∈ names, Γ'.scope.get? x = Γ.scope.get? x) : Matches [] names Γ Γ' where
  nonGeneric := hN
  get? x y hx hxy := by
    cases hxy
    exact hS x hx
  same x y hx hxy _ := by
    cases hxy
    rfl

end Context.Matches

variable {m : List (String × String)} {Γ Γ' : Context} {e e' : Expr}

/-- both runs take the same steps, so they are one and the same function of the store -/
theorem Expr.AlphaEq.infer_eq (h : AlphaEq m e e') (i : Nat) (hΓ : Γ.Matches m e.freeNames Γ') :
    e'.infer i Γ' = e.infer i Γ := by
  induction h generalizing Γ Γ' with
  | @name m x y hxy =>
    have hx := List.mem_singleton_self x
    rw [infer, infer, hΓ.get? x y hx hxy, hΓ.nonGeneric]
    cases hget : Γ.scope.get? x with
    | some t => rfl
    | none => rw [hΓ.same x y hx hxy hget]
  | @fn m p q body body' _ ih =>
    have hbody t : body'.infer i (Γ'.bindFixed q t) = body.infer i (Γ.bindFixed p t) :=
      ih (hΓ.bindFixed q t)
    simp only [infer, hbody]
  | app _ _ ihf iha =>
    rw [infer, infer, ihf hΓ.left, iha hΓ.right]
  | @letIn m x y value value' body body' _ _ ihv ihb =>
    have hbody t : body'.infer i (Γ'.bindGeneric y t) = body.infer i (Γ.bindGeneric x t) :=
      ihb (hΓ.right.bindGeneric y t)
    simp only [infer, ihv hΓ.left, hbody]
  | @letRec m x y value value' body body' _ _ ihv ihb =>
    have hvalue t : value'.infer i (Γ'.bindFixed y t) = value.infer i (Γ.bindFixed x t) :=
      ihv (hΓ.bindFixed y t).left
    have hbody t : body'.infer i (Γ'.bindGeneric y t) = body.infer i (Γ.bindGeneric x t) :=
      ihb (hΓ.bindGeneric y t).right
    simp only [infer, hvalue, hbody]

theorem Expr.AlphaEq.inferType_congr (h : AlphaEq [] e e') (scope : Scope Ty) (session : Option Nat) :
    e'.inferType scope session = e.inferType scope session := by
  have hinfer i : e'.infer i { scope } = e.infer i { scope } :=
    h.infer_eq i (.of_agree rfl fun _ _ => rfl)
  simp only [inferType_eq, hinfer]

end LetPoly
