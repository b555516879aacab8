import LetPoly.Store.Basic

/-!
# Reading types

A type is read through the bindings of its vars: where its own chain ends, which vars occur in it, and
what the user sees of it.

`Ty.prune` follows a chain of bindings to its end, an unbound var or an operator, and points every
var that it passes straight at the end.  The fuel counts bound vars: a chain without a circle
passes each var at most once, so the number of vars is enough.
-/

namespace LetPoly

/-- the end of the chain of bindings of a type, found without a change -/
def Store.lastWithin (s : Store) : Nat → Ty → Ty
  | fuel, .var v =>
    match s.binding? v, fuel with
    | some t, fuel + 1 => s.lastWithin fuel t
    | _, _ => .var v
  | _, t => t

def Store.last (s : Store) (t : Ty) : Ty := s.lastWithin s.varCount t

namespace Ty

/-- point `v` at the end of its chain, if the store shortens chains at all -/
def shorten (v : Var) (last : Ty) : StoreM Unit := do
  if (← get).compress then StoreM.assign v (some last)

def pruneWithin : Nat → Ty → StoreM Ty
  | fuel, var v => do
    match (← get).binding? v with
    | none => return var v
    | some t =>
      match fuel with
      | 0 => throw .endlessChain
      | fuel + 1 =>
        let last ← pruneWithin fuel t
        shorten v last
        return last
  | _, t => return t

def prune (t : Ty) : StoreM Ty := do pruneWithin (← get).varCount t

/-!
## the occurs check

`sought` occurs in a type if it is one of the unbound vars that are left when all bindings are
resolved.  So an operator or a bound var occurs nowhere, not even in itself.  The search goes from
left to right and stops at the first hit.
-/

mutual
/-- the search up to bound vars, where `onward` takes over -/
def occursWith (onward : Ty → StoreM Bool) (sought : Ty) : Ty → StoreM Bool
  | var v => do
    match (← get).binding? v with
    | none => return same sought (var v)
    | some _ => onward (var v)
  | op _ _ as => occursWithAny onward sought as
  | hole => throw (.missingType .searched)

def occursWithAny (onward : Ty → StoreM Bool) (sought : Ty) : List Ty → StoreM Bool
  | [] => return false
  | a :: as => do
    if ← occursWith onward sought a then return true
    occursWithAny onward sought as
end

def occursWithin (sought : Ty) : Nat → Ty → StoreM Bool
  | 0 => occursWith (fun _ => throw .endlessChain) sought
  | fuel + 1 => occursWith (fun t => do occursWithin sought fuel (← prune t)) sought

def occursIn (sought t : Ty) : StoreM Bool := do occursWithin sought (← get).varCount t

/-- whether `sought` occurs in one of the types, which are searched in their order -/
def occursInAny (sought : Ty) : List Ty → StoreM Bool
  | [] => return false
  | t :: ts => do
    if ← occursIn sought t then return true
    occursInAny sought ts

/-- whether copies may replace `t`, given the types that have to be shared -/
def isGeneric (t : Ty) (nonGeneric : List Ty) : StoreM Bool :=
  return !(← occursInAny t nonGeneric)

/-!
## types as the user sees them

A binary operator is written infix in brackets, any other operator before its arguments, and a var
by its display name.  A var gets its name when it is first rendered, so the names go from left to
right in the order of first occurrence.
-/

/-- an operator with the texts of its arguments -/
def operatorText (name : String) : List String → String
  | [a, b] => "(" ++ a ++ " " ++ name ++ " " ++ b ++ ")"
  | args => " ".intercalate (name :: args)

mutual
/-- the text up to bound vars, where `onward` takes over -/
def renderWith (onward : Ty → StoreM String) : Ty → StoreM String
  | var v => do
    match (← get).binding? v with
    | none => StoreM.nameOf v
    | some _ => onward (var v)
  | op _ n as => return operatorText n (← renderAllWith onward as)
  | hole => throw (.missingType .shown)

def renderAllWith (onward : Ty → StoreM String) : List Ty → StoreM (List String)
  | [] => return []
  | a :: as => do
    let text ← renderWith onward a
    return text :: (← renderAllWith onward as)
end

def renderWithin : Nat → Ty → StoreM String
  | 0 => renderWith fun _ => throw .endlessChain
  | fuel + 1 => renderWith fun t => do renderWithin fuel (← prune t)

def render (t : Ty) : StoreM String := do renderWithin (← get).varCount t

end Ty
end LetPoly
