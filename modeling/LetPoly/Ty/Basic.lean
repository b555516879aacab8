/-!
# Types under construction

A type is a var or an operator applied to arguments.  A var is a place that unification may fill
in later; what it is bound to is kept by the store, so a type alone says nothing about it.

Each operator carries the mark it got when it was built.  Two operators built separately differ in
their marks even if they look alike:

* `Ty.alike`   the same look, marks aside;
* `Ty.same`    the very same operator, or the same var;
* `Ty.text`    the short form of the log, which never looks through bindings.
-/

namespace LetPoly

/-- the `id`-th var that a session has made -/
structure Var where
  session : Nat
  id : Nat
  deriving DecidableEq, Inhabited

inductive Ty where
  | var (v : Var)
  | op (mark : Nat) (name : String) (args : List Ty)
  /-- a place where a type is missing: it can be passed around but never shown -/
  | hole
  deriving Inhabited

namespace Ty

def funcName : String := "->"
def pairName : String := "×"

def int : Ty := op 0 "int" []

def bool : Ty := op 1 "bool" []

/-- the first mark that no constant has -/
def firstMark : Nat := 2

mutual
def alike : Ty → Ty → Bool
  | var v, var w => v == w
  | op _ n as, op _ m bs => n == m && alikeAll as bs
  | hole, hole => true
  | _, _ => false

def alikeAll : List Ty → List Ty → Bool
  | [], [] => true
  | a :: as, b :: bs => alike a b && alikeAll as bs
  | _, _ => false
end

def same : Ty → Ty → Bool
  | var v, var w => v == w
  | op k _ _, op l _ _ => k == l
  | hole, hole => true
  | _, _ => false

mutual
def text : Ty → String
  | var v => "@" ++ toString v.id
  | op _ n [] => n
  | op _ n (a :: as) => n ++ "[" ++ a.text ++ textRest as ++ "]"
  | hole => "None"

/-- the arguments after the first one, each after a comma -/
def textRest : List Ty → String
  | [] => ""
  | a :: as => ", " ++ a.text ++ textRest as
end

mutual
/-- no type is missing anywhere inside -/
def whole : Ty → Bool
  | var _ => true
  | op _ _ as => wholeAll as
  | hole => false

def wholeAll : List Ty → Bool
  | [] => true
  | a :: as => whole a && wholeAll as
end

end Ty
end LetPoly
