import LetPoly.Proofs.Expr.Names
import LetPoly.Proofs.Inference
import LetPoly.Proofs.Store.Closure
import LetPoly.Scope

/-!
# Undefined names

`Expr.undefinedNames` lists the occurrences of names that nothing defines, from left to right.
Inference gets past none of them and stops at the first one, unless it stops before for another
reason (`Expr.inferType_undefinedNames`).  This is so on any store.

`StoreM.Misses names act` says that of one step.  A step after another step misses what it misses
after all that the other one misses, and operations on types miss nothing (`closed_misses`).
-/

namespace LetPoly

open StoreM
open Store (chainStore)

/-- the name that a failure is about, if it is an undefined one -/
def Failure.undefined? : Failure → Option String
  | .problem (.undefinedName x) => some x
  | _ => none

theorem Failure.undefined?_eq_some {f : Failure} {x : String} :
    f.undefined? = some x ↔ f = .problem (.undefinedName x) := by
  constructor
  · intro h
    unfold undefined? at h
    split at h
    · cases h
      rfl
    · cases h
  · rintro rfl
    rfl

theorem Failure.aboutTypes.undefined?_eq {f : Failure} (h : f.aboutTypes) : f.undefined? = none := by
  cases f with
  | problem p =>
    cases p with
    | undefinedName x => exact h.elim
    | _ => rfl
  | _ => rfl

namespace StoreM

variable {α β : Type} {xs ys : List String}

/-- a run of `act` returns only if there are no `names`, and fails over no name but their first -/
def Misses (names : List String) (act : StoreM α) : Prop :=
  ∀ s, Ends act s (fun _ _ => names = []) fun f _ => ∀ x ∈ f.undefined?, names.head? = some x

theorem Misses.bind {act : StoreM β} {k : β → StoreM α} (h : Misses xs act)
    (hk : ∀ b, Misses ys (k b)) : Misses (xs ++ ys) (act >>= k) := by
  intro s
  refine ((h s).error_mono fun f s' hf x hx => ?_).bind fun b s' hnil => ?_
  · rw [List.head?_append, hf x hx, Option.some_or]
  · rw [hnil, List.nil_append]
    exact hk b s'

theorem Misses.after {act : StoreM β} {k : β → StoreM α} (h : Misses [] act)
    (hk : ∀ b, Misses ys (k b)) : Misses ys (act >>= k) := h.bind hk

theorem Misses.before {act : StoreM β} {k : β → StoreM α} (h : Misses xs act)
    (hk : ∀ b, Misses [] (k b)) : Misses xs (act >>= k) := by
  have hboth := h.bind hk
  rwa [List.append_nil] at hboth

theorem misses_pure (a : α) : Misses [] (pure a : StoreM α) := fun _ => rfl

theorem misses_modify (f : Store → Store) : Misses [] (modify f : StoreM Unit) := fun _ => rfl

theorem misses_throw {f : Failure} (h : f.undefined? = none) : Misses [] (throw f : StoreM α) := by
  intro s x hx
  rw [h] at hx
  cases hx

theorem steps_misses : Closed.Steps fun _ act => Misses [] act where
  pure := misses_pure
  throw hf := misses_throw hf.undefined?_eq
  get _ := rfl
  bind := .after

theorem closed_misses : Closed.Infer fun _ act => Misses [] act where
  toSteps := steps_misses
  prune := steps_misses.prune fun _ _ _ => rfl
  assign _ _ _ := rfl
  note _ _ := rfl
  newVar _ _ := rfl
  newOp _ _ _ := rfl
  nameOf v := by
    intro s
    rw [nameOf, ends_get]
    split
    · exact misses_pure _ s
    · refine Misses.after (fun s => ?_) (fun _ => (misses_modify _).after fun _ => misses_pure _) s
      rw [nextLabel, ends_get]
      split
      · split
        · exact (misses_modify _).after (fun _ => misses_pure _) s
        · exact misses_throw rfl s
      · exact misses_throw rfl s

end StoreM

namespace Expr

def undefinedIn (scope : Scope Ty) (x : String) : Bool := !scope.contains x && !isInteger x

/-- the occurrences of names that neither a binder around them nor the scope defines, nor being a
numeral, from left to right -/
def undefinedNames (e : Expr) (scope : Scope Ty) : List String :=
  e.freeNames.filter (undefinedIn scope)

variable {scope : Scope Ty} {names : List String} {x : String}

theorem undefinedIn_of_some {t : Ty} (h : scope.get? x = some t) : undefinedIn scope x = false := by
  rw [undefinedIn, Scope.contains_eq_isSome_get?, h]
  rfl

theorem undefinedIn_of_none (h : scope.get? x = none) : undefinedIn scope x = !isInteger x := by
  rw [undefinedIn, Scope.contains_eq_isSome_get?, h]
  rfl

/-- a binder defines its name, and no other one -/
theorem filter_undefinedIn_extend (scope : Scope Ty) (x : String) (t : Ty) (names : List String) :
    names.filter (undefinedIn (scope.extend x t))
      = (names.filter (· ≠ x)).filter (undefinedIn scope) := by
  rw [List.filter_filter]
  refine List.filter_congr fun y _ => ?_
  rw [undefinedIn, undefinedIn, Scope.contains_eq_isSome_get?, Scope.contains_eq_isSome_get?,
    Scope.get?_extend]
  by_cases hy : y = x <;> simp [hy]

/-- inference meets the undefined names from left to right -/
theorem misses_infer (e : Expr) (i : Nat) (Γ : Context) :
    Misses (e.undefinedNames Γ.scope) (e.infer i Γ) := by
  induction e generalizing Γ with
  | name x =>
    rw [infer, undefinedNames, freeNames, List.filter_singleton]
    cases hx : Γ.scope.get? x with
    | some t =>
      rw [undefinedIn_of_some hx]
      exact closed_misses.freshInstance t Γ.nonGeneric i
    | none =>
      rw [undefinedIn_of_none hx]
      cases isInteger x with
      | true => exact fun _ => rfl
      | false =>
        intro s y hy
        exact hy
  | fn p body ih =>
    rw [infer, undefinedNames, freeNames]
    refine .after (closed_misses.newVar i) fun v => ?_
    rw [← filter_undefinedIn_extend Γ.scope p (.var v)]
    exact (ih (Γ.bindFixed p (.var v))).before fun r => closed_misses.newOp _ _
  | app f a ihf iha =>
    rw [infer, undefinedNames, freeNames, List.filter_append]
    refine (ihf Γ).bind fun t => (iha Γ).before fun u => ?_
    refine .after (closed_misses.newVar i) fun v => .after (closed_misses.newOp _ _) fun w => ?_
    exact .after (closed_misses.unify _ _) fun _ => closed_misses.pure _
  | letIn x value body ihv ihb =>
    rw [infer, undefinedNames, freeNames, List.filter_append]
    refine (ihv Γ).bind fun t => ?_
    rw [← filter_undefinedIn_extend Γ.scope x t]
    exact ihb (Γ.bindGeneric x t)
  | letRec x value body ihv ihb =>
    rw [infer, undefinedNames, freeNames]
    refine .after (closed_misses.newVar i) fun v => ?_
    rw [← filter_undefinedIn_extend Γ.scope x (.var v), List.filter_append]
    refine (ihv (Γ.bindFixed x (.var v))).bind fun t => ?_
    exact .after (closed_misses.unify _ _) fun _ => ihb (Γ.bindGeneric x (.var v))

theorem misses_inferType (e : Expr) (scope : Scope Ty) (session : Option Nat) :
    Misses (e.undefinedNames scope) (e.inferType scope session) := by
  have hsession : Misses [] (ownSession session) := by
    cases session with
    | some i => exact closed_misses.pure i
    | none => exact fun _ => rfl
  rw [inferType_eq]
  refine .after hsession fun i => (misses_infer e i { scope }).before fun t => ?_
  exact .after (closed_misses.note _) fun _ => closed_misses.pure t

/-- on any store, an expression gets a type only if nothing in it is undefined, and an undefined name
that inference stops at is the leftmost one -/
theorem inferType_undefinedNames (e : Expr) (scope : Scope Ty) (session : Option Nat) (s : Store) :
    (∀ t s', e.inferType scope session s = .ok t s' → e.undefinedNames scope = []) ∧
      (∀ x s', e.inferType scope session s = .error (.problem (.undefinedName x)) s' →
        (e.undefinedNames scope).head? = some x) ∧
      (e.undefinedNames scope = [] →
        ∀ x s', e.inferType scope session s ≠ .error (.problem (.undefinedName x)) s') := by
  have h := misses_inferType e scope session s
  refine ⟨fun t s' hok => h.ok hok, fun x s' herr => h.error herr x rfl, fun hnil x s' herr => ?_⟩
  have hhead := h.error herr x rfl
  rw [hnil] at hhead
  cases hhead

/-- a name in its own value, which is applied to it although it is no function, and a name that is
gone after its definition -/
def leaks : Expr :=
  letIn "x" (app (letRec "f" (name "f") (name "7")) (name "x")) (app (name "x") (name "f"))

/-- of two undefined names and a type error the first name is reported -/
theorem inferType_undefinedNames_of_leaks :
    ∃ s', leaks.inferType identityScope none chainStore = .error (.problem (.undefinedName "x")) s' ∧
      leaks.undefinedNames identityScope = ["x", "f"] ∧
      (leaks.undefinedNames identityScope).head? = some "x" := by
  have hrun : Ends (leaks.inferType identityScope none) chainStore (fun _ _ => False)
      fun f _ => f.undefined? = some "x" := by decide +kernel
  cases h : leaks.inferType identityScope none chainStore with
  | ok t s' => exact (hrun.ok h).elim
  | error f s' =>
    have hf : f = .problem (.undefinedName "x") := Failure.undefined?_eq_some.1 (hrun.error h)
    subst hf
    have hall := inferType_undefinedNames leaks identityScope none chainStore
    exact ⟨s', rfl, by decide +kernel, hall.2.1 "x" s' h⟩

end Expr
end LetPoly
