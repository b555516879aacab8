import LetPoly.Examples
import LetPoly.Infer
import LetPoly.Options

/-!
# Checking expressions

The outcome of a check is one text: the printed expression, and behind it the type or the report on
what went wrong.  A failure of inference is reported; a failure of showing the type or of writing the
report is not caught.
-/

namespace LetPoly

/-- note a problem of the expression called `exampleName` in the account -/
def noteFailed (exampleName : String) : Failure → StoreM Unit
  | .problem p => StoreM.note (.exampleFailed exampleName p.name)
  | _ => return

/-- the type of `e`, or what went wrong -/
def Expr.inferOrFail (e : Expr) (scope : Scope Ty) (session : Option Nat) :
    StoreM (Except Failure Ty) := fun s =>
  match e.inferType scope session s with
  | .ok t s => .ok (.ok t) s
  | .error f s => .ok (.error f) s

def Expr.check (exampleName : String) (e : Expr) (scope : Scope Ty) (format : Format)
    (session : Option Nat) : StoreM String := do
  match ← e.inferOrFail scope session with
  | .ok t => return e.text ++ " : " ++ (← t.render)
  | .error f =>
    noteFailed exampleName f
    return e.text ++ " : " ++ (← f.report format e.text exampleName)

/-!
## checking a selection of the examples

All chosen examples share one session and the standard environment.  If a name is unknown nothing is
checked.
-/

namespace Options

/-- the exit status of a run that checked its examples -/
def statusChecked : Nat := 0

def statusUnknown : Nat := 64

def unknown (o : Options) : List String := o.only.filter fun x => (Examples.get? x).isNone

/-- the chosen examples in their order -/
def chosen (o : Options) : List (String × Expr) :=
  if o.only.isEmpty then Examples.all
  else o.only.filterMap fun x => (Examples.get? x).map fun e => (x, e)

def unknownText (names : List String) : String :=
  "Unknown example(s): " ++ ", ".intercalate names ++ ". Choose from: "
    ++ ", ".intercalate Examples.names ++ ".\n"

/-- the environment and an empty line, if asked for -/
def envLines (o : Options) (scope : Scope Ty) : StoreM (List String) := do
  if o.showEnv then return [← scope.render, ""] else return []

/-- the exit status, and the text for the user -/
def checkExamples (o : Options) : StoreM (Nat × String) := do
  let unknown := o.unknown
  if unknown.isEmpty then
    let session ← StoreM.newSession firstName
    let scope ← standardScope session
    let env ← o.envLines scope
    let outcomes ← o.chosen.mapM fun (x, e) => e.check x scope o.format (some session)
    return (statusChecked, "\n".intercalate (env ++ outcomes) ++ "\n")
  else
    StoreM.note (.unknownExamples unknown)
    return (statusUnknown, unknownText unknown)

end Options
end LetPoly
