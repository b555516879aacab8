import LetPoly.Expr
import LetPoly.Scope
import LetPoly.Store.Basic

/-!
# The example expressions

Eight expressions, some of them without a type, and the standard environment that they are checked
in.
-/

namespace LetPoly

/-- the types of `pair`, `true`, `cond`, `zero`, `pred` and `times` -/
def standardScope (session : Nat) : StoreM (Scope Ty) := do
  let first := Ty.var (← StoreM.newVar session)
  let second := Ty.var (← StoreM.newVar session)
  let branch := Ty.var (← StoreM.newVar session)
  let pair ← StoreM.newFunc first (← StoreM.newFunc second (← StoreM.newPair first second))
  let cond ← StoreM.newFunc Ty.bool (← StoreM.newFunc branch (← StoreM.newFunc branch branch))
  let zero ← StoreM.newFunc Ty.int Ty.bool
  let pred ← StoreM.newFunc Ty.int Ty.int
  let times ← StoreM.newFunc Ty.int (← StoreM.newFunc Ty.int Ty.int)
  return Scope.ofList [("pair", pair), ("true", Ty.bool), ("cond", cond), ("zero", zero),
    ("pred", pred), ("times", times)]

namespace Examples

open LetPoly.Expr

/-- a pair of the results of one function for two arguments -/
def pairOfCalls (func first second : String) : Expr :=
  (name "pair").apps [(name func).apps [name first], (name func).apps [name second]]

def factorial : Expr :=
  letRec "factorial"
    (fn "n" <| (name "cond").apps [(name "zero").apps [name "n"], name "1",
      (name "times").apps [name "n",
        (name "factorial").apps [(name "pred").apps [name "n"]]]])
    ((name "factorial").apps [name "5"])

/-- has no type: a parameter stays monomorphic in the body of its function -/
def monomorphicParam : Expr := fn "x" (pairOfCalls "x" "3" "true")

/-- has no type: `f` is not defined -/
def undefinedName : Expr := pairOfCalls "f" "4" "true"

def letPolymorphism : Expr := letIn "f" (fn "x" (name "x")) (pairOfCalls "f" "4" "true")

/-- has no type but an infinite one -/
def selfApplication : Expr := fn "f" ((name "f").apps [name "f"])

def ignoredArgument : Expr := letIn "g" (fn "f" (name "5")) ((name "g").apps [name "g"])

def nonGeneric : Expr :=
  fn "g" (letIn "f" (fn "x" (name "g")) (pairOfCalls "f" "3" "true"))

def composition : Expr :=
  fns ["f", "g", "arg"] ((name "g").apps [(name "f").apps [name "arg"]])

def all : List (String × Expr) :=
  [("factorial", factorial), ("monomorphic_param", monomorphicParam),
    ("undefined_name", undefinedName), ("let_polymorphism", letPolymorphism),
    ("self_application", selfApplication), ("ignored_argument", ignoredArgument),
    ("non_generic", nonGeneric), ("composition", composition)]

def names : List String := all.map Prod.fst

def get? (x : String) : Option Expr := all.lookup x

end Examples
end LetPoly
