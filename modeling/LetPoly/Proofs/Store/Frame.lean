import Mathlib.Order.Defs.Unbundled
import LetPoly.Proofs.Store.Closure
import LetPoly.Proofs.Store.Naming

/-!
# What searches leave alone

Looking a type up and searching it write to nothing but bindings (`Store.Still`), and rendering
writes to bindings and names only (`Store.Unmoved`).  That holds on any store, sound or not, and
however the run ends: `StoreM.Preserves` is closed under the steps of a run.  Two stores have the
same view (`Store.SameView`) if they differ in nothing but the ways to the ends of chains.
-/

namespace LetPoly

open StoreM

namespace Store

/-- the same sessions and vars -/
structure SameVars (s s' : Store) : Prop where
  size : s'.sessions.size = s.sessions.size
  madeBy : ∀ i, s'.madeBy i = s.madeBy i

/-- the same but for bindings and names -/
structure Unmoved (s s' : Store) : Prop extends SameVars s s' where
  nextMark : s'.nextMark = s.nextMark
  events : s'.events = s.events
  compress : s'.compress = s.compress

/-- the same but for bindings -/
structure Still (s s' : Store) : Prop extends Unmoved s s' where
  label : ∀ v, s'.label? v = s.label? v
  cursor : ∀ i, s'.cursor i = s.cursor i

/-- the same names -/
structure SameNames (s s' : Store) : Prop where
  label : ∀ v, s'.label? v = s.label? v
  cursor : ∀ i, s'.cursor i = s.cursor i

/-- the same to look at: only the ways to the ends of chains may differ -/
structure SameView (s s' : Store) : Prop where
  size : s'.sessions.size = s.sessions.size
  madeBy : ∀ i, s'.madeBy i = s.madeBy i
  unbound_iff : ∀ v, s'.binding? v = none ↔ s.binding? v = none
  last : ∀ v, s'.last (.var v) = s.last (.var v)
  resolve : ∀ t, s'.resolve t = s.resolve t
  label : ∀ v, s'.label? v = s.label? v
  cursor : ∀ i, s'.cursor i = s.cursor i
  nextMark : s'.nextMark = s.nextMark
  events : s'.events = s.events

variable {s s₁ s₂ : Store}

theorem SameVars.made_iff (h : s.SameVars s₁) (v : Var) : s₁.Made v ↔ s.Made v := by
  rw [Made, Made, h.madeBy]

theorem SameVars.refl (s : Store) : s.SameVars s := ⟨rfl, fun _ => rfl⟩

theorem SameVars.trans (h : s.SameVars s₁) (h' : s₁.SameVars s₂) : s.SameVars s₂ :=
  ⟨h'.size.trans h.size, fun i => (h'.madeBy i).trans (h.madeBy i)⟩

theorem Unmoved.refl (s : Store) : s.Unmoved s := ⟨.refl s, rfl, rfl, rfl⟩

theorem Unmoved.trans (h : s.Unmoved s₁) (h' : s₁.Unmoved s₂) : s.Unmoved s₂ where
  size := h'.size.trans h.size
  madeBy i := (h'.madeBy i).trans (h.madeBy i)
  nextMark := h'.nextMark.trans h.nextMark
  events := h'.events.trans h.events
  compress := h'.compress.trans h.compress

theorem Still.refl (s : Store) : s.Still s := ⟨.refl s, fun _ => rfl, fun _ => rfl⟩

theorem Still.trans (h : s.Still s₁) (h' : s₁.Still s₂) : s.Still s₂ where
  toUnmoved := h.toUnmoved.trans h'.toUnmoved
  label v := (h'.label v).trans (h.label v)
  cursor i := (h'.cursor i).trans (h.cursor i)

instance : IsPreorder Store SameNames where
  refl _ := ⟨fun _ => rfl, fun _ => rfl⟩
  trans _ _ _ h h' := ⟨fun v => (h'.label v).trans (h.label v),
    fun i => (h'.cursor i).trans (h.cursor i)⟩

instance : IsPreorder Store SameVars where
  refl := .refl
  trans _ _ _ h h' := h.trans h'

instance : IsPreorder Store Unmoved where
  refl := .refl
  trans _ _ _ h h' := h.trans h'

instance : IsPreorder Store Still where
  refl := .refl
  trans _ _ _ h h' := h.trans h'

/-- chains that are cut short without a change of meaning cannot be told apart -/
theorem Still.sameView (h : s.Still s₁) (hq : s.Quiet s₁) (hs : s.Acyclic) : s.SameView s₁ where
  size := h.size
  madeBy := h.madeBy
  unbound_iff := hq.bound
  last v := hq.last_eq hs (.var v)
  resolve := hq.resolve_eq hs
  label := h.label
  cursor := h.cursor
  nextMark := h.nextMark
  events := h.events

theorem unmoved_modifyCell (s : Store) (v : Var) (f : Cell → Cell) :
    s.Unmoved (s.modifyCell v f) where
  size := s.size_modifySession _ _
  madeBy i := s.madeBy_modifyCell v f i
  nextMark := rfl
  events := rfl
  compress := rfl

theorem still_assigned (s : Store) (v : Var) (t : Option Ty) :
    s.Still (s.modifyCell v fun c => { c with binding := t }) where
  toUnmoved := s.unmoved_modifyCell v _
  label w := s.label?_assigned v w t
  cursor i := s.cursor_modifyCell v _ i

end Store

namespace StoreM

open Store (SameNames SameVars Still Unmoved)

variable {α β : Type} {P : Store → Store → Prop} [IsPreorder Store P]

/-- however `act` ends, the store before and the store after are in `P` -/
def Preserves (P : Store → Store → Prop) (act : StoreM α) : Prop :=
  ∀ s, Ends act s (fun _ s' => P s s') fun _ s' => P s s'

theorem preserves_pure (a : α) : Preserves P (pure a : StoreM α) := fun s => refl_of P s

theorem preserves_throw (f : Failure) : Preserves P (throw f : StoreM α) := fun s => refl_of P s

omit [IsPreorder Store P] in
theorem preserves_get {k : Store → StoreM α} (h : ∀ s, Preserves P (k s)) :
    Preserves P (get >>= k) := fun s => h s s

theorem Preserves.bind {act : StoreM β} {k : β → StoreM α} (h : Preserves P act)
    (hk : ∀ b, Preserves P (k b)) : Preserves P (act >>= k) := by
  intro s
  refine (h s).bind fun b s₁ h₁ => ?_
  exact (hk b s₁).mono (fun _ _ h₂ => trans_of P h₁ h₂) fun _ _ h₂ => trans_of P h₁ h₂

theorem steps_preserves : Closed.Steps fun _ act => Preserves P act where
  pure := preserves_pure
  throw _ := preserves_throw _
  get s := refl_of P s
  bind := .bind

theorem closed_still : Closed.Search fun _ act => Preserves Still act where
  toSteps := steps_preserves
  prune := steps_preserves.prune fun v t s => s.still_assigned v t

/-- naming a var moves the cursor of its session and writes to its cell -/
theorem preserves_nameOf
    (hcursor : ∀ s i, P s (s.modifySession i fun t => { t with cursor := t.cursor + 1 }))
    (hlabel : ∀ s v code, P s (s.modifyCell v fun c => { c with label := code })) (v : Var) :
    Preserves P (nameOf v) := by
  refine preserves_get fun s => ?_
  split
  · exact preserves_pure _
  · refine .bind (preserves_get fun s => ?_) fun code s => hlabel s v (some code)
    split
    · split
      · exact .bind (fun s => hcursor s v.session) fun _ => preserves_pure _
      · exact preserves_throw _
    · exact preserves_throw _

theorem closed_unmoved : Closed.Render fun _ act => Preserves Unmoved act where
  toSteps := steps_preserves
  prune := steps_preserves.prune fun v t s => (s.still_assigned v t).toUnmoved
  nameOf := preserves_nameOf
    (fun s i => ⟨⟨s.size_modifySession _ _, s.madeBy_modifySession i fun _ => rfl⟩, rfl, rfl, rfl⟩)
    fun s v _ => s.unmoved_modifyCell v _

theorem closed_sameNames : Closed.Copy fun _ act => Preserves SameNames act where
  toSteps := steps_preserves
  prune t s := (closed_still.prune t s).mono (fun _ _ h => ⟨h.label, h.cursor⟩)
    fun _ _ h => ⟨h.label, h.cursor⟩
  newVar i s := ⟨s.label?_pushVar i, s.cursor_pushVar i⟩
  newOp _ _ _ := ⟨fun _ => rfl, fun _ => rfl⟩

theorem closed_sameVars : Closed.Unify fun _ act => Preserves SameVars act where
  toRender := {
    toSteps := steps_preserves
    prune := fun t s => (closed_still.prune t s).mono (fun _ _ h => h.toSameVars)
      fun _ _ h => h.toSameVars
    nameOf := fun v s => (closed_unmoved.nameOf v s).mono (fun _ _ h => h.toSameVars)
      fun _ _ h => h.toSameVars }
  assign v t s := (s.still_assigned v t).toSameVars
  note _ _ := ⟨rfl, fun _ => rfl⟩

end StoreM

namespace Ty

open StoreM
open Store (SameNames Still Unmoved)

theorem still_prune (t : Ty) : Preserves Still (prune t) := closed_still.prune t

theorem still_occursIn (sought t : Ty) : Preserves Still (occursIn sought t) :=
  closed_still.occursIn sought t

theorem still_isGeneric (t : Ty) (nonGeneric : List Ty) :
    Preserves Still (isGeneric t nonGeneric) := closed_still.isGeneric t nonGeneric

theorem unmoved_render (t : Ty) : Preserves Unmoved (render t) := closed_unmoved.render t

theorem sameNames_bindVar (v : Var) (t : Ty) : Preserves SameNames (bindVar v t) := by
  have hassign : Preserves SameNames (assign v (some t)) := fun s =>
    ⟨(s.still_assigned v (some t)).label, (s.still_assigned v (some t)).cursor⟩
  have hnote : ∀ e, Preserves SameNames (note e) := fun e s => ⟨fun _ => rfl, fun _ => rfl⟩
  refine (closed_sameNames.occursIn (var v) t).bind fun b => ?_
  cases b with
  | true => exact (hnote _).bind fun _ => preserves_throw _
  | false => exact hassign.bind fun _ => hnote _

end Ty
end LetPoly
