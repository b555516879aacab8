import LetPoly.Store.LookUp

/-!
# Unification and instances

`Ty.unify` makes two types equal by binding vars, or fails; bindings made before a failure stay.

* two unbound vars: the left one is bound to the right one;
* an unbound var and an operator: the var is bound, unless it occurs in the operator;
* two operators: names and argument counts have to agree, then the arguments are unified in order.

The fuel counts bound vars on the way down the left type.  Without circles a way down meets no var
twice.  With circles it may still end, as long as the right type does; but if it meets the same two
operators twice and no var was bound in between, it goes round for ever.  So a way down that ends
has no more steps than there are pairs of operators, for each number of vars still unbound.
-/

namespace LetPoly

/-- no way down that ends passes more bound vars; all marks in use lie below `nextMark` -/
def Store.unifyBound (s : Store) : Nat := (s.nextMark + 1) * (s.nextMark + 1) * (s.varCount + 1)

namespace Ty

/-- bind an unbound var to the end of a chain other than itself -/
def bindVar (v : Var) (t : Ty) : StoreM Unit := do
  if ← occursIn (var v) t then
    StoreM.note (.circular v t)
    throw (.problem (.circular (var v) t))
  StoreM.assign v (some t)
  StoreM.note (.bound v t)

/-- fail over two operators that cannot be equal; they are rendered at once -/
def clash (left right : Ty) : StoreM Unit := do
  StoreM.note (.clash left right)
  let leftText ← render left
  let rightText ← render right
  throw (.problem (.mismatch leftText rightText))

mutual
/-- unification up to bound vars on the left that stand for operators, where `onward` takes over -/
def unifyWith (onward : Ty → Ty → StoreM Unit) : Ty → Ty → StoreM Unit
  | var v, right => do
    match ← prune (var v), ← prune right with
    | var v, right => unless same (var v) right do bindVar v right
    | left, var w => bindVar w left
    | left, right => onward left right
  | op k n as, right => do
    match ← prune right with
    | var w => bindVar w (op k n as)
    | op l m bs =>
      if n = m ∧ as.length = bs.length then unifyAllWith onward as bs
      else clash (op k n as) (op l m bs)
    | hole => throw (.missingType .takenApart)
  | hole, right => do
    match ← prune right with
    | var w => bindVar w hole
    | _ => throw (.missingType .takenApart)

def unifyAllWith (onward : Ty → Ty → StoreM Unit) : List Ty → List Ty → StoreM Unit
  | a :: as, b :: bs => do
    unifyWith onward a b
    unifyAllWith onward as bs
  | _, _ => return
end

def unifyWithin : Nat → Ty → Ty → StoreM Unit
  | 0 => unifyWith fun _ _ => throw .endlessChain
  | fuel + 1 => unifyWith (unifyWithin fuel)

def unify (left right : Ty) : StoreM Unit := do unifyWithin (← get).unifyBound left right

/-!
## instances of a type

`Ty.freshInstance` copies a type with its bindings resolved.  A var that occurs in one of the
non-generic types is shared with the copy; every other var is replaced by a new one, the same for
all its occurrences.  Operators are built anew, constants too.
-/

/-- a copy in progress: the generic vars met so far, each with its replacement -/
abbrev Copying := StateT (List (Var × Var)) StoreM

def copyVar (nonGeneric : List Ty) (session : Nat) (v : Var) : Copying Ty := do
  if ← isGeneric (var v) nonGeneric then
    match (← get).lookup v with
    | some w => return var w
    | none =>
      let w ← StoreM.newVar session
      modify ((v, w) :: ·)
      return var w
  else return var v

mutual
/-- the copy up to bound vars, where `onward` takes over -/
def copyWith (onward : Ty → Copying Ty) (copyVar : Var → Copying Ty) : Ty → Copying Ty
  | var v => do
    match (← getThe Store).binding? v with
    | none => copyVar v
    | some _ => onward (var v)
  | op _ n as => do StoreM.newOp n (← copyAllWith onward copyVar as)
  | hole => throw (.missingType .takenApart)

def copyAllWith (onward : Ty → Copying Ty) (copyVar : Var → Copying Ty) :
    List Ty → Copying (List Ty)
  | [] => return []
  | a :: as => do
    let copy ← copyWith onward copyVar a
    return copy :: (← copyAllWith onward copyVar as)
end

def copyWithin (copyVar : Var → Copying Ty) : Nat → Ty → Copying Ty
  | 0 => copyWith (fun _ => throw .endlessChain) copyVar
  | fuel + 1 => copyWith (fun t => do copyWithin copyVar fuel (← prune t)) copyVar

def freshInstance (t : Ty) (nonGeneric : List Ty) (session : Nat) : StoreM Ty := do
  let fuel := (← get).varCount
  (copyWithin (copyVar nonGeneric session) fuel t).run' []

end Ty
end LetPoly
