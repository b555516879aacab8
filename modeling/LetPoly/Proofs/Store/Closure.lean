import LetPoly.Proofs.Term.Basic
import LetPoly.Store.Unify

/-!
# Properties that the basic steps pass on

Operations on types are runs of a few basic steps, so a property of runs that the steps have and
that putting runs together keeps is a property of the operations.  That is so on any store and
however a run ends.  Operations need more and more steps: searching looks types up
(`Closed.Search`), copying makes vars and operators (`Closed.Copy`), rendering names vars
(`Closed.Render`), and unifying assigns them and takes notes (`Closed.Unify`).  Their failures are
all about types, never about names of expressions (`Failure.aboutTypes`).
-/

namespace LetPoly

/-- neither the fault of a name in an expression nor one that nothing is known about -/
def Failure.aboutTypes : Failure → Prop
  | .problem (.circular ..) | .problem (.mismatch ..) => True
  | .namesExhausted | .missingType _ | .endlessChain => True
  | _ => False

namespace StoreM

variable {C : (α : Type) → StoreM α → Prop} {α β : Type}

/-- runs put together keep to `C` -/
structure Closed.Steps (C : (α : Type) → StoreM α → Prop) : Prop where
  pure {α : Type} (a : α) : C α (pure a)
  throw {α : Type} {f : Failure} (hf : f.aboutTypes) : C α (throw f)
  get : C Store get
  bind {α β : Type} {act : StoreM β} {k : β → StoreM α} (h : C β act) (hk : ∀ b, C α (k b)) :
    C α (act >>= k)

/-- and so do the steps of searching a type -/
structure Closed.Search (C : (α : Type) → StoreM α → Prop) : Prop extends Steps C where
  prune (t : Ty) : C Ty t.prune

/-- and so do those of copying it -/
structure Closed.Copy (C : (α : Type) → StoreM α → Prop) : Prop extends Search C where
  newVar (session : Nat) : C Var (newVar session)
  newOp (name : String) (args : List Ty) : C Ty (newOp name args)

/-- and so do those of rendering it -/
structure Closed.Render (C : (α : Type) → StoreM α → Prop) : Prop extends Search C where
  nameOf (v : Var) : C String (nameOf v)

/-- and so do those of unifying it with another one -/
structure Closed.Unify (C : (α : Type) → StoreM α → Prop) : Prop extends Render C where
  assign (v : Var) (t : Option Ty) : C Unit (assign v t)
  note (e : Event) : C Unit (note e)

/-- and so do all of them -/
structure Closed.Infer (C : (α : Type) → StoreM α → Prop) : Prop extends Unify C, Copy C

open Ty

/-! ## looking up and searching -/

/-- where assigning vars keeps to `C`, looking a type up does -/
theorem Closed.Steps.prune (h : Steps C) (hassign : ∀ v t, C Unit (StoreM.assign v t)) (t : Ty) :
    C Ty t.prune := by
  have hshorten : ∀ v t, C Unit (shorten v t) := by
    intro v t
    refine h.bind h.get fun s => ?_
    cases s.compress with
    | true => exact hassign v (some t)
    | false => exact h.pure _
  have hwithin : ∀ fuel t, C Ty (pruneWithin fuel t) := by
    intro fuel
    induction fuel with
    | zero =>
      intro t
      cases t with
      | var v =>
        rw [pruneWithin.eq_def]
        refine h.bind h.get fun s => ?_
        dsimp only
        cases s.binding? v with
        | none => exact h.pure _
        | some u => exact h.throw trivial
      | op k n as => exact h.pure _
      | hole => exact h.pure _
    | succ fuel ih =>
      intro t
      cases t with
      | var v =>
        rw [pruneWithin.eq_def]
        refine h.bind h.get fun s => ?_
        dsimp only
        cases s.binding? v with
        | none => exact h.pure _
        | some u => exact h.bind (ih u) fun w => h.bind (hshorten v w) fun _ => h.pure _
      | op k n as => exact h.pure _
      | hole => exact h.pure _
  exact h.bind h.get fun s => hwithin s.varCount t

theorem Closed.Search.occursWith (h : Search C) {onward : Ty → StoreM Bool}
    (honward : ∀ t, C Bool (onward t)) (sought t : Ty) : C Bool (occursWith onward sought t) := by
  induction t with
  | var v =>
    refine h.bind h.get fun s => ?_
    cases s.binding? v with
    | none => exact h.pure _
    | some u => exact honward _
  | op k n as ih =>
    rw [Ty.occursWith]
    induction as with
    | nil => exact h.pure _
    | cons a as ihas =>
      rw [occursWithAny]
      refine h.bind (ih a List.mem_cons_self) fun b => ?_
      cases b with
      | true => exact h.pure _
      | false => exact ihas fun a ha => ih a (List.mem_cons_of_mem _ ha)
  | hole => exact h.throw trivial

theorem Closed.Search.occursIn (h : Search C) (sought t : Ty) : C Bool (occursIn sought t) := by
  have hwithin : ∀ fuel t, C Bool (occursWithin sought fuel t) := by
    intro fuel
    induction fuel with
    | zero =>
      intro t
      rw [occursWithin]
      exact h.occursWith (fun _ => h.throw (f := .endlessChain) trivial) sought t
    | succ fuel ih =>
      intro t
      rw [occursWithin]
      exact h.occursWith (fun t => h.bind (h.prune t) ih) sought t
  exact h.bind h.get fun s => hwithin s.varCount t

theorem Closed.Search.occursInAny (h : Search C) (sought : Ty) (ts : List Ty) :
    C Bool (occursInAny sought ts) := by
  induction ts with
  | nil => exact h.pure _
  | cons t ts ih =>
    rw [Ty.occursInAny]
    refine h.bind (h.occursIn sought t) fun b => ?_
    cases b with
    | true => exact h.pure _
    | false => exact ih

theorem Closed.Search.isGeneric (h : Search C) (t : Ty) (nonGeneric : List Ty) :
    C Bool (isGeneric t nonGeneric) :=
  h.bind (h.occursInAny t nonGeneric) fun _ => h.pure _

/-! ## rendering -/

theorem Closed.Render.renderWith (h : Render C) {onward : Ty → StoreM String}
    (honward : ∀ t, C String (onward t)) (t : Ty) : C String (renderWith onward t) := by
  induction t with
  | var v =>
    refine h.bind h.get fun s => ?_
    cases s.binding? v with
    | none => exact h.nameOf v
    | some u => exact honward _
  | op k n as ih =>
    have hargs : C (List String) (renderAllWith onward as) := by
      induction as with
      | nil => exact h.pure _
      | cons a as ihas =>
        rw [renderAllWith]
        refine h.bind (ih a List.mem_cons_self) fun text => ?_
        exact h.bind (ihas fun a ha => ih a (List.mem_cons_of_mem _ ha)) fun _ => h.pure _
    rw [Ty.renderWith]
    exact h.bind hargs fun _ => h.pure _
  | hole => exact h.throw trivial

theorem Closed.Render.render (h : Render C) (t : Ty) : C String (render t) := by
  have hwithin : ∀ fuel t, C String (renderWithin fuel t) := by
    intro fuel
    induction fuel with
    | zero =>
      intro t
      rw [renderWithin]
      exact h.renderWith (fun _ => h.throw (f := .endlessChain) trivial) t
    | succ fuel ih =>
      intro t
      rw [renderWithin]
      exact h.renderWith (fun t => h.bind (h.prune t) ih) t
  exact h.bind h.get fun s => hwithin s.varCount t

/-! ## unifying -/

theorem Closed.Unify.bindVar (h : Unify C) (v : Var) (t : Ty) : C Unit (bindVar v t) := by
  refine h.bind (h.occursIn (.var v) t) fun b => ?_
  cases b with
  | true => exact h.bind (h.note _) fun _ => h.throw trivial
  | false => exact h.bind (h.assign v (some t)) fun _ => h.note _

theorem Closed.Unify.clash (h : Unify C) (left right : Ty) : C Unit (clash left right) :=
  h.bind (h.note _) fun _ => h.bind (h.render left) fun _ =>
    h.bind (h.render right) fun _ => h.throw trivial

theorem Closed.Unify.unifyWith (h : Unify C) {onward : Ty → Ty → StoreM Unit}
    (honward : ∀ left right, C Unit (onward left right)) (left right : Ty) :
    C Unit (unifyWith onward left right) := by
  induction left generalizing right with
  | var v =>
    rw [Ty.unifyWith]
    refine h.bind (h.prune _) fun l => h.bind (h.prune right) fun r => ?_
    split
    · split
      · exact h.pure _
      · exact h.bindVar _ _
    · exact h.bindVar _ _
    · exact honward _ _
  | op k n as ih =>
    have hargs : ∀ bs, C Unit (unifyAllWith onward as bs) := by
      induction as with
      | nil =>
        intro bs
        cases bs <;> exact h.pure _
      | cons a as ihas =>
        intro bs
        cases bs with
        | nil => exact h.pure _
        | cons b bs =>
          rw [unifyAllWith]
          refine h.bind (ih a List.mem_cons_self b) fun _ => ?_
          exact ihas (fun a ha => ih a (List.mem_cons_of_mem _ ha)) bs
    rw [Ty.unifyWith]
    refine h.bind (h.prune right) fun r => ?_
    cases r with
    | var w => exact h.bindVar _ _
    | op l m bs =>
      dsimp only
      split
      · exact hargs bs
      · exact h.clash _ _
    | hole => exact h.throw trivial
  | hole =>
    rw [Ty.unifyWith]
    refine h.bind (h.prune right) fun r => ?_
    cases r with
    | var w => exact h.bindVar _ _
    | op l m bs => exact h.throw trivial
    | hole => exact h.throw trivial

theorem Closed.Unify.unify (h : Unify C) (left right : Ty) : C Unit (unify left right) := by
  have hwithin : ∀ fuel left right, C Unit (unifyWithin fuel left right) := by
    intro fuel
    induction fuel with
    | zero =>
      intro left right
      rw [unifyWithin]
      exact h.unifyWith (fun _ _ => h.throw (f := .endlessChain) trivial) left right
    | succ fuel ih =>
      intro left right
      rw [unifyWithin]
      exact h.unifyWith ih left right
  exact h.bind h.get fun s => hwithin s.unifyBound left right

/-! ## copying -/

/-- a copy in progress keeps to `C`, whatever has been copied before -/
def Closed.Copies (C : (α : Type) → StoreM α → Prop) (x : Copying α) : Prop :=
  ∀ m, C (α × List (Var × Var)) (x m)

theorem Closed.Steps.copies_pure (h : Steps C) (a : α) : Copies C (Pure.pure a) :=
  fun m => h.pure (a, m)

theorem Closed.Steps.copies_lift (h : Steps C) {act : StoreM α} (hact : C α act) :
    Copies C (liftM act) := fun m => h.bind hact fun a => h.pure (a, m)

theorem Closed.Steps.copies_bind (h : Steps C) {x : Copying β} {k : β → Copying α}
    (hx : Copies C x) (hk : ∀ b, Copies C (k b)) : Copies C (x >>= k) :=
  fun m => h.bind (hx m) fun p => hk p.1 p.2

theorem Closed.Copy.copyVar (h : Copy C) (nonGeneric : List Ty) (session : Nat) (v : Var) :
    Copies C (copyVar nonGeneric session v) := by
  rw [Ty.copyVar]
  refine h.copies_bind (h.copies_lift (h.isGeneric _ _)) fun b => ?_
  cases b with
  | false => exact h.copies_pure _
  | true =>
    refine h.copies_bind (fun m => h.pure (m, m)) fun m => ?_
    cases m.lookup v with
    | some w => exact h.copies_pure _
    | none =>
      refine h.copies_bind (h.copies_lift (h.newVar session)) fun w => ?_
      exact h.copies_bind (fun m => h.pure ((), (v, w) :: m)) fun _ => h.copies_pure _

theorem Closed.Copy.copyWith (h : Copy C) {onward : Ty → Copying Ty} {copyVar : Var → Copying Ty}
    (honward : ∀ t, Copies C (onward t)) (hvar : ∀ v, Copies C (copyVar v)) (t : Ty) :
    Copies C (copyWith onward copyVar t) := by
  induction t with
  | var v =>
    refine h.copies_bind (h.copies_lift h.get) fun s => ?_
    cases s.binding? v with
    | none => exact hvar v
    | some u => exact honward _
  | op k n as ih =>
    have hargs : Copies C (copyAllWith onward copyVar as) := by
      induction as with
      | nil => exact h.copies_pure _
      | cons a as ihas =>
        rw [copyAllWith]
        refine h.copies_bind (ih a List.mem_cons_self) fun copy => ?_
        exact h.copies_bind (ihas fun a ha => ih a (List.mem_cons_of_mem _ ha)) fun _ =>
          h.copies_pure _
    rw [Ty.copyWith]
    exact h.copies_bind hargs fun _ => h.copies_lift (h.newOp _ _)
  | hole => exact h.copies_lift (h.throw trivial)

theorem Closed.Copy.freshInstance (h : Copy C) (t : Ty) (nonGeneric : List Ty) (session : Nat) :
    C Ty (freshInstance t nonGeneric session) := by
  have hwithin : ∀ fuel t, Copies C (copyWithin (Ty.copyVar nonGeneric session) fuel t) := by
    intro fuel
    induction fuel with
    | zero =>
      intro t
      rw [copyWithin]
      exact h.copyWith (fun _ => h.copies_lift (h.throw (f := .endlessChain) trivial))
        (h.copyVar nonGeneric session) t
    | succ fuel ih =>
      intro t
      rw [copyWithin]
      exact h.copyWith (fun t => h.copies_bind (h.copies_lift (h.prune t)) ih)
        (h.copyVar nonGeneric session) t
  exact h.bind h.get fun s => h.bind (hwithin s.varCount t []) fun p => h.pure p.1

end StoreM
end LetPoly
