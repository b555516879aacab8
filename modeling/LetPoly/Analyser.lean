import LetPoly.Infer

/-!
# Analysers

An analyser infers one expression after another.  It has a context, which is swapped for another
one while the parts of an expression are visited that see other names; the context from before
comes back also if inference fails there.
-/

namespace LetPoly

structure Analyser where
  session : Nat
  context : Context := {}

/-- an analyser at work on a store -/
abbrev AnalyserM := EStateM Failure (Analyser × Store)

namespace AnalyserM

/-- a step that only the store takes part in -/
def onStore {α : Type} (act : StoreM α) : AnalyserM α := fun (a, s) =>
  match act s with
  | .ok x s => .ok x (a, s)
  | .error e s => .error e (a, s)

def context : AnalyserM Context := return (← get).1.context

def setContext (Γ : Context) : AnalyserM Unit := modify fun (a, s) => ({ a with context := Γ }, s)

def newVar : AnalyserM Var := do
  let (a, _) ← get
  onStore (StoreM.newVar a.session)

/-- `act` in another context; the one from before comes back however `act` ends -/
def within {α : Type} (Γ : Context) (act : AnalyserM α) : AnalyserM α := do
  let outer ← context
  setContext Γ
  try act finally setContext outer

/-- the type of an expression in the context that is in place -/
def run : Expr → AnalyserM Ty
  | .name x => do
    let (a, _) ← get
    onStore ((Expr.name x).infer a.session a.context)
  | .fn p body => do
    let param := Ty.var (← newVar)
    let Γ ← context
    let result ← within (Γ.bindFixed p param) (run body)
    onStore (StoreM.newFunc param result)
  | .app f a => do
    let func ← run f
    let arg ← run a
    let result := Ty.var (← newVar)
    let expected ← onStore (StoreM.newFunc arg result)
    onStore (Ty.unify expected func)
    return result
  | .letIn x value body => do
    let t ← run value
    let Γ ← context
    within (Γ.bindGeneric x t) (run body)
  | .letRec x value body => do
    let target := Ty.var (← newVar)
    let Γ ← context
    let inner := Γ.bindFixed x target
    let t ← within inner (run value)
    onStore (Ty.unify target t)
    let Γ ← context
    within { Γ with scope := inner.scope } (run body)

/-- the type of `e` in another context -/
def analyse (e : Expr) (Γ : Context) : AnalyserM Ty := within Γ (run e)

end AnalyserM
end LetPoly
