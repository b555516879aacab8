import LetPoly.Expr
import LetPoly.Scope
import LetPoly.Store.Unify

/-!
# Type inference

`Expr.infer` finds the most general type of an expression by unifying as it goes.  A name gets a
fresh instance of its type in scope; the types of the surrounding parameters, and of the recursive
definitions whose value is being inferred, are non-generic and stay the same for every use.

Nothing is generalised where a name is bound: which vars of a definition are generic is decided
anew at each use, from the non-generic types.
-/

namespace LetPoly

/-- what is known at a place in an expression -/
structure Context where
  scope : Scope Ty := Scope.empty
  nonGeneric : List Ty := []

/-- `x` in scope with a type that may differ between uses -/
def Context.bindGeneric (Γ : Context) (x : String) (t : Ty) : Context :=
  { Γ with scope := Γ.scope.extend x t }

/-- `x` in scope with a type that has to stay the same -/
def Context.bindFixed (Γ : Context) (x : String) (t : Ty) : Context :=
  { scope := Γ.scope.extend x t, nonGeneric := t :: Γ.nonGeneric }

/-- one or more ASCII digits -/
def isInteger (x : String) : Bool :=
  !x.isEmpty && x.toList.all fun c => '0' ≤ c && c ≤ '9'

namespace Expr

/-- the type of an expression; new vars come from `session` -/
def infer (session : Nat) : Expr → Context → StoreM Ty
  | name x, Γ => do
    match Γ.scope.get? x with
    | some t => t.freshInstance Γ.nonGeneric session
    | none =>
      if isInteger x then return Ty.int
      StoreM.note (.undefinedName x)
      throw (.problem (.undefinedName x))
  | fn p body, Γ => do
    let param := Ty.var (← StoreM.newVar session)
    let result ← body.infer session (Γ.bindFixed p param)
    StoreM.newFunc param result
  | app f a, Γ => do
    let func ← f.infer session Γ
    let arg ← a.infer session Γ
    let result := Ty.var (← StoreM.newVar session)
    Ty.unify (← StoreM.newFunc arg result) func
    return result
  | letIn x value body, Γ => do
    let t ← value.infer session Γ
    body.infer session (Γ.bindGeneric x t)
  | letRec x value body, Γ => do
    let target := Ty.var (← StoreM.newVar session)
    let t ← value.infer session (Γ.bindFixed x target)
    Ty.unify target t
    body.infer session (Γ.bindGeneric x target)

/-- the type of a whole expression, noted in the account; without a session it opens its own -/
def inferType (e : Expr) (scope : Scope Ty) (session : Option Nat) : StoreM Ty := do
  let own ← match session with
    | some i => pure i
    | none => StoreM.newSession firstName
  let t ← e.infer own { scope }
  StoreM.note (.inferred t)
  return t

end Expr
end LetPoly
