/-!
# Expressions

A small lambda calculus: names, one-parameter functions, applications, and two kinds of local
definitions.  An expression is plain data and equality is structural, so a `letIn` is never equal
to a `letRec`.

* `Expr.apps`   one function applied to several arguments, from the left;
* `Expr.fns`    a chain of one-parameter functions around a body.
-/

namespace LetPoly

inductive Expr where
  /-- a name, or an integer literal where the name is not in scope -/
  | name (x : String)
  | fn (param : String) (body : Expr)
  | app (func arg : Expr)
  /-- the target is visible in the body only -/
  | letIn (target : String) (value body : Expr)
  /-- the target is visible in the value and in the body -/
  | letRec (target : String) (value body : Expr)
  deriving DecidableEq, Inhabited

namespace Expr

def apps (func : Expr) (args : List Expr) : Expr := args.foldl app func

/-- a function of several parameters, the first one outermost -/
def fns (params : List String) (body : Expr) : Expr := params.foldr fn body

/-! ## the text of an expression -/

/-- every node except a name stands in round brackets; names are written as they are -/
def text : Expr → String
  | name x => x
  | fn p b => "(fn " ++ p ++ " => " ++ b.text ++ ")"
  | app f a => "(" ++ f.text ++ " " ++ a.text ++ ")"
  | letIn x v b => "(let " ++ x ++ " = " ++ v.text ++ " in " ++ b.text ++ ")"
  | letRec x v b => "(letrec " ++ x ++ " = " ++ v.text ++ " in " ++ b.text ++ ")"

end Expr
end LetPoly
