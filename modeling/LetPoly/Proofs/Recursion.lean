import LetPoly.Proofs.Store.Unifying
import LetPoly.Proofs.Store.Instance
import Mathlib.Logic.Function.Iterate

/-!
# Recursions without fuel

The library looks types up, searches, copies, shows and unifies them with a fuel.  Here is each of
the five recursions as it is without one: a functional that makes one call and leaves the calls
inside it to `self`.

* `Ty.pruneStep`, `Ty.searchStep`, `Ty.copyStep`, `Ty.renderStep`, `Ty.unifyStep`   one call;
* `Settles F run o`   once the calls are unfolded deep enough by `F`, the run ends in `o`, whatever
                      is put in place of the calls further down: the recursion ends;
* `Follows F run o`   the same, unless `o` is the mark of a fuel used up.

Each run of the library is followed by its recursion (`follows_pruneWithin`, `follows_occursWithin`,
`follows_copyWithin`, `follows_renderWithin`, `Unifying.settles`).
-/

namespace LetPoly

open StoreM

/-! ## recursions that end -/

section

variable {γ : Type} {α β ρ : Type}

/-- the run ends in `o`, with no more than finitely many calls on the way down -/
def Settles (F : γ → γ) (run : γ → ρ) (o : ρ) : Prop := ∃ n, ∀ rest, run (F^[n] rest) = o

variable {F : γ → γ} {run run' : γ → ρ} {o : ρ}

theorem Settles.const (o : ρ) : Settles F (fun _ => o) o := ⟨0, fun _ => rfl⟩

/-- calls may be unfolded deeper than they have to be -/
theorem Settles.deep (h : Settles F run o) : ∃ n, ∀ m ≥ n, ∀ rest, run (F^[m] rest) = o := by
  obtain ⟨n, h⟩ := h
  refine ⟨n, fun m hm rest => ?_⟩
  obtain ⟨k, rfl⟩ := Nat.exists_eq_add_of_le hm
  rw [Function.iterate_add_apply]
  exact h _

/-- the calls that a run makes are unfolded once -/
theorem Settles.unfold (h : Settles F (fun self => run (F self)) o) : Settles F run o := by
  obtain ⟨n, h⟩ := h
  refine ⟨n + 1, fun rest => ?_⟩
  rw [Function.iterate_succ_apply']
  exact h rest

theorem Settles.congr (h : Settles F run o) (heq : ∀ self, run' self = run self) :
    Settles F run' o := by
  rwa [show run' = run from funext heq]

/-- a recursion that is a part of another one -/
theorem Settles.lift {δ : Type} {G : δ → δ} {part : δ → γ} (h : Settles F run o)
    (hpart : Function.Semiconj part G F) : Settles G (fun c => run (part c)) o := by
  obtain ⟨n, h⟩ := h
  refine ⟨n, fun rest => ?_⟩
  show run (part (G^[n] rest)) = o
  rw [(hpart.iterate_right n).eq rest]
  exact h _

variable {act : γ → StoreM α} {k : γ → α → StoreM β} {lib : StoreM α} {klib : α → StoreM β}
  {a : α} {f : Failure} {s s₁ : Store} {o₁ : EStateM.Result Failure Store β}

theorem Settles.bind (h : Settles F (fun self => act self s) (.ok a s₁))
    (hk : Settles F (fun self => k self a s₁) o₁) :
    Settles F (fun self => (act self >>= k self) s) o₁ := by
  obtain ⟨n, h⟩ := h.deep
  obtain ⟨m, hk⟩ := hk.deep
  refine ⟨max n m, fun rest => ?_⟩
  have hact := h _ (Nat.le_max_left n m) rest
  have hrest := hk _ (Nat.le_max_right n m) rest
  exact (bind_of_ok hact _).trans hrest

theorem Settles.bind_error (h : Settles F (fun self => act self s) (.error f s₁)) :
    Settles F (fun self => (act self >>= k self) s) (.error f s₁) := by
  obtain ⟨n, h⟩ := h
  exact ⟨n, fun rest => bind_of_error (h rest) _⟩

/-- the run ends in `o`, unless `o` only says that the fuel of the library was used up -/
def Follows (F : γ → γ) (run : γ → EStateM.Result Failure Store α)
    (o : EStateM.Result Failure Store α) : Prop :=
  (∀ s', o ≠ .error .endlessChain s') → Settles F run o

theorem Follows.const (o : EStateM.Result Failure Store α) : Follows F (fun _ => o) o :=
  fun _ => .const o

theorem Follows.unfold {run : γ → EStateM.Result Failure Store α}
    {o : EStateM.Result Failure Store α} (h : Follows F (fun self => run (F self)) o) :
    Follows F run o := fun hne => (h hne).unfold

theorem Follows.congr {run run' : γ → EStateM.Result Failure Store α}
    {o : EStateM.Result Failure Store α} (h : Follows F run o)
    (heq : ∀ self, run' self = run self) : Follows F run' o := fun hne => (h hne).congr heq

theorem Follows.bind (h : Follows F (fun self => act self s) (lib s))
    (hk : ∀ a s₁, lib s = .ok a s₁ → Follows F (fun self => k self a s₁) (klib a s₁)) :
    Follows F (fun self => (act self >>= k self) s) ((lib >>= klib) s) := by
  intro hne
  cases hlib : lib s with
  | ok a s₁ =>
    rw [bind_of_ok hlib] at hne ⊢
    rw [hlib] at h
    exact .bind (h nofun) (hk a s₁ hlib hne)
  | error f s₁ =>
    rw [bind_of_error hlib] at hne ⊢
    rw [hlib] at h
    refine .bind_error (h fun s' heq => ?_)
    cases heq
    exact hne s₁ rfl

/-- the recursion ends in `o`, and that is no want of fuel anywhere on the way -/
structure Concludes (F : γ → γ) (run : γ → EStateM.Result Failure Store α)
    (o : EStateM.Result Failure Store α) : Prop where
  settles : Settles F run o
  ne_endlessChain : ∀ s', o ≠ .error .endlessChain s'

theorem Follows.concludes {run : γ → EStateM.Result Failure Store α} {act : StoreM α}
    {Q : α → Store → Prop} {R : Failure → Store → Prop} (h : Follows F run (act s))
    (hact : Ends act s Q R) (hR : ∀ s', ¬ R .endlessChain s') : Concludes F run (act s) :=
  have hne : ∀ s', act s ≠ .error .endlessChain s' := fun s' herr => hR s' (hact.error herr)
  ⟨h hne, hne⟩

end

namespace Ty

variable {s s' s₁ : Store} {t u : Ty}

/-! ## looking a type up -/

/-- one call of a look-up -/
def pruneStep (self : Ty → StoreM Ty) : Ty → StoreM Ty
  | var v => do
    match (← get).binding? v with
    | none => return var v
    | some t =>
      let last ← self t
      shorten v last
      return last
  | t => return t

theorem pruneStep_ended {self : Ty → StoreM Ty} (h : s.Ended t) : pruneStep self t s = .ok t s := by
  cases t with
  | var v => rw [pruneStep, get_bind, h v rfl]; rfl
  | op k n as => rfl
  | hole => rfl

theorem pruneStep_bound {self : Ty → StoreM Ty} {v : Var} (h : s.binding? v = some t) :
    pruneStep self (var v) s
      = (do let last ← self t; shorten v last; return last : StoreM Ty) s := by
  rw [pruneStep, get_bind, h]

theorem follows_pruneWithin (fuel : Nat) (t : Ty) (s : Store) :
    Follows pruneStep (fun self => self t s) (pruneWithin fuel t s) := by
  induction fuel generalizing t s with
  | zero =>
    rcases s.ended_or_bound t with ht | ⟨v, u, rfl, hb⟩
    · rw [pruneWithin_ended ht]
      exact .unfold ((Follows.const _).congr fun _ => pruneStep_ended ht)
    · intro hne
      rw [pruneWithin.eq_def] at hne
      dsimp only at hne
      rw [get_bind, hb] at hne
      exact absurd rfl (hne s)
  | succ fuel ih =>
    rcases s.ended_or_bound t with ht | ⟨v, u, rfl, hb⟩
    · rw [pruneWithin_ended ht]
      exact .unfold ((Follows.const _).congr fun _ => pruneStep_ended ht)
    · rw [pruneWithin_bound hb]
      refine .unfold (Follows.congr ?_ fun _ => pruneStep_bound hb)
      exact .bind (ih u s) fun _ _ _ => .const _

/-! ## searching a type -/

def searchStep (sought : Ty) (self : Ty → StoreM Bool) : Ty → StoreM Bool
  | var v => do
    match (← get).binding? v with
    | none => return same sought (var v)
    | some _ => self (← prune (var v))
  | op _ _ as => as.anyM self
  | hole => throw (.missingType .searched)

variable {sought : Ty}

theorem follows_occursWithAny {onward : Ty → StoreM Bool} {as : List Ty}
    (h : ∀ a ∈ as, ∀ s,
      Follows (searchStep sought) (fun self => self a s) (occursWith onward sought a s))
    (s : Store) :
    Follows (searchStep sought) (fun self => as.anyM self s)
      (occursWithAny onward sought as s) := by
  induction as generalizing s with
  | nil => exact .const _
  | cons a as ih =>
    rw [occursWithAny]
    refine Follows.bind (h a List.mem_cons_self s) fun b s₁ _ => ?_
    cases b with
    | true => exact .const _
    | false => exact ih (fun b hb => h b (List.mem_cons_of_mem a hb)) s₁

/-- the search up to bound vars, given one that goes on at a bound var -/
theorem follows_occursWith {onward : Ty → StoreM Bool}
    (hon : ∀ v s, Follows (searchStep sought) (fun self => (prune (var v) >>= self) s)
      (onward (var v) s)) (t : Ty) (s : Store) :
    Follows (searchStep sought) (fun self => self t s) (occursWith onward sought t s) := by
  induction t generalizing s with
  | var v =>
    rw [occursWith, get_bind]
    refine .unfold ?_
    cases hb : s.binding? v with
    | none =>
      refine (Follows.const _).congr fun self => ?_
      rw [searchStep, get_bind, hb]
    | some u =>
      refine (hon v s).congr fun self => ?_
      rw [searchStep, get_bind, hb]
  | op k n as ih =>
    rw [occursWith]
    exact .unfold (follows_occursWithAny ih s)
  | hole => exact .unfold (.const _)

theorem follows_occursWithin (fuel : Nat) (t : Ty) (s : Store) :
    Follows (searchStep sought) (fun self => self t s) (occursWithin sought fuel t s) := by
  induction fuel generalizing t s with
  | zero =>
    rw [occursWithin]
    exact follows_occursWith (fun v s hne => absurd rfl (hne s)) t s
  | succ fuel ih =>
    rw [occursWithin]
    exact follows_occursWith (fun v s => .bind (.const _) fun u s₁ _ => ih u s₁) t s

/-! ## copying a type -/

def copyAt (copyVar : Var → Copying Ty) (self : Ty → Copying Ty) : Ty → Copying Ty
  | var v => copyVar v
  | op _ n as => do StoreM.newOp n (← as.mapM self)
  | hole => throw (.missingType .takenApart)

def copyStep (copyVar : Var → Copying Ty) (self : Ty → Copying Ty) (t : Ty) : Copying Ty := do
  copyAt copyVar self (← prune t)

variable {copyVar : Var → Copying Ty} {m : List (Var × Var)}

theorem follows_copyAllWith {onward : Ty → Copying Ty} {as : List Ty}
    (h : ∀ a ∈ as, ∀ m s,
      Follows (copyStep copyVar) (fun self => self a m s) (copyWith onward copyVar a m s))
    (m : List (Var × Var)) (s : Store) :
    Follows (copyStep copyVar) (fun self => as.mapM self m s)
      (copyAllWith onward copyVar as m s) := by
  induction as generalizing m s with
  | nil => exact .const _
  | cons a as ih =>
    rw [copyAllWith]
    simp only [List.mapM_cons]
    refine Follows.bind (h a List.mem_cons_self m s) fun p s₁ _ => ?_
    refine Follows.bind (ih (fun b hb => h b (List.mem_cons_of_mem a hb)) p.2 s₁) fun q s₂ _ => ?_
    exact .const _

theorem copyStep_ended (h : s.Ended t) (self : Ty → Copying Ty) (m : List (Var × Var)) :
    copyStep copyVar self t m s = copyAt copyVar self t m s := by
  have hlook : (prune t >>= fun u => pure (u, m) : StoreM (Ty × List (Var × Var))) s
      = .ok (t, m) s := bind_of_ok (prune_ended h) _
  exact bind_of_ok hlook _

theorem copyWith_unbound {onward : Ty → Copying Ty} {v : Var} (h : s.binding? v = none) :
    copyWith onward copyVar (var v) m s = copyVar v m s := by
  rw [copyWith]
  show (match s.binding? v with | none => copyVar v | some _ => onward (var v)) m s = _
  rw [h]

theorem copyWith_bound {onward : Ty → Copying Ty} {v : Var} (h : s.binding? v = some u) :
    copyWith onward copyVar (var v) m s = onward (var v) m s := by
  rw [copyWith]
  show (match s.binding? v with | none => copyVar v | some _ => onward (var v)) m s = _
  rw [h]

/-- the copy up to bound vars, given one that goes on at a bound var; at the end of a chain nothing
is left to be looked up -/
theorem follows_copyWith {onward : Ty → Copying Ty}
    (hon : ∀ v m s, Follows (copyStep copyVar) (fun self => copyStep copyVar self (var v) m s)
      (onward (var v) m s)) (t : Ty) (m : List (Var × Var)) (s : Store) :
    Follows (copyStep copyVar) (fun self => self t m s) (copyWith onward copyVar t m s) ∧
      (s.Ended t → Follows (copyStep copyVar) (fun self => copyAt copyVar self t m s)
        (copyWith onward copyVar t m s)) := by
  have hcall : ∀ {t : Ty} {m s o}, s.Ended t →
      Follows (copyStep copyVar) (fun self => copyAt copyVar self t m s) o →
      Follows (copyStep copyVar) (fun self => self t m s) o ∧
        (s.Ended t → Follows (copyStep copyVar) (fun self => copyAt copyVar self t m s) o) :=
    fun ht h => ⟨.unfold (h.congr fun self => copyStep_ended ht self _), fun _ => h⟩
  induction t generalizing m s with
  | var v =>
    cases hb : s.binding? v with
    | none =>
      rw [copyWith_unbound hb]
      exact hcall (Store.ended_var.2 hb) (.const _)
    | some u =>
      rw [copyWith_bound hb]
      exact ⟨.unfold (hon v m s), fun he => absurd (he v rfl) (by simp [hb])⟩
  | op k n as ih =>
    refine hcall Store.ended_op ?_
    rw [copyWith]
    exact .bind (follows_copyAllWith (fun a ha m s => (ih a ha m s).1) m s) fun _ _ _ => .const _
  | hole => exact hcall Store.ended_hole (.const _)

theorem follows_copyWithin (fuel : Nat) (t : Ty) (m : List (Var × Var)) (s : Store) :
    Follows (copyStep copyVar) (fun self => self t m s) (copyWithin copyVar fuel t m s) ∧
      (s.Ended t → Follows (copyStep copyVar) (fun self => copyAt copyVar self t m s)
        (copyWithin copyVar fuel t m s)) := by
  induction fuel generalizing t m s with
  | zero =>
    rw [copyWithin]
    exact follows_copyWith (fun v m s hne => absurd rfl (hne s)) t m s
  | succ fuel ih =>
    rw [copyWithin]
    refine follows_copyWith (fun v m s => ?_) t m s
    refine Follows.bind (.const _) fun p s₁ hlook => ?_
    have hends : Ends ((liftM (prune (var v)) : Copying Ty) m) s (fun p s' => s'.Ended p.1)
        fun f _ => f = .endlessChain := ends_copying_lift.2 (ends_prune_or (var v) s)
    exact (ih p.1 p.2 s₁).2 (hends.ok hlook)

/-! ## showing a type -/

def renderAt (self : Ty → StoreM String) : Ty → StoreM String
  | var v => StoreM.nameOf v
  | op _ n as => return operatorText n (← as.mapM self)
  | hole => throw (.missingType .shown)

def renderStep (self : Ty → StoreM String) (t : Ty) : StoreM String := do
  renderAt self (← prune t)

theorem follows_renderAllWith {onward : Ty → StoreM String} {as : List Ty}
    (h : ∀ a ∈ as, ∀ s, Follows renderStep (fun self => self a s) (renderWith onward a s))
    (s : Store) : Follows renderStep (fun self => as.mapM self s) (renderAllWith onward as s) := by
  induction as generalizing s with
  | nil => exact .const _
  | cons a as ih =>
    rw [renderAllWith]
    simp only [List.mapM_cons]
    refine .bind (h a List.mem_cons_self s) fun text s₁ _ => ?_
    exact .bind (ih (fun b hb => h b (List.mem_cons_of_mem a hb)) s₁) fun _ _ _ => .const _

theorem follows_renderWith {onward : Ty → StoreM String}
    (hon : ∀ v s, Follows renderStep (fun self => renderStep self (var v) s) (onward (var v) s))
    (t : Ty) (s : Store) :
    Follows renderStep (fun self => self t s) (renderWith onward t s) ∧
      (s.Ended t → Follows renderStep (fun self => renderAt self t s) (renderWith onward t s)) := by
  have hcall : ∀ {t : Ty} {s o}, s.Ended t → Follows renderStep (fun self => renderAt self t s) o →
      Follows renderStep (fun self => self t s) o ∧
        (s.Ended t → Follows renderStep (fun self => renderAt self t s) o) :=
    fun ht h => ⟨.unfold (h.congr fun self => bind_of_ok (prune_ended ht) _), fun _ => h⟩
  induction t generalizing s with
  | var v =>
    rw [renderWith, get_bind]
    cases hb : s.binding? v with
    | none => exact hcall (Store.ended_var.2 hb) (.const _)
    | some u => exact ⟨.unfold (hon v s), fun he => absurd (he v rfl) (by simp [hb])⟩
  | op k n as ih =>
    refine hcall Store.ended_op ?_
    rw [renderWith]
    exact .bind (follows_renderAllWith (fun a ha s => (ih a ha s).1) s) fun _ _ _ => .const _
  | hole => exact hcall Store.ended_hole (.const _)

theorem follows_renderWithin (fuel : Nat) (t : Ty) (s : Store) :
    Follows renderStep (fun self => self t s) (renderWithin fuel t s) ∧
      (s.Ended t → Follows renderStep (fun self => renderAt self t s) (renderWithin fuel t s)) := by
  induction fuel generalizing t s with
  | zero =>
    rw [renderWithin]
    exact follows_renderWith (fun v s hne => absurd rfl (hne s)) t s
  | succ fuel ih =>
    rw [renderWithin]
    refine follows_renderWith (fun v s => .bind (.const _) fun u s₁ hlook => ?_) t s
    exact (ih u s₁).2 ((ends_prune_or (var v) s).ok hlook)

/-! ## unification -/

def unifyAt (self : Ty → Ty → StoreM Unit) : Ty → Ty → StoreM Unit
  | var v, right => unless same (var v) right do bindVar v right
  | left, var w => self (var w) left
  | op k n as, op j m bs =>
    if n = m ∧ as.length = bs.length then (as.zip bs).forM fun p => self p.1 p.2
    else clash (op k n as) (op j m bs)
  | _, _ => throw (.missingType .takenApart)

def unifyStep (self : Ty → Ty → StoreM Unit) (left right : Ty) : StoreM Unit := do
  let left ← prune left
  let right ← prune right
  unifyAt self left right

def Task.run (self : Ty → Ty → StoreM Unit) : Task → StoreM Unit
  | .types l r => self l r
  | .ends l r => unifyAt self l r
  | .args as bs => (as.zip bs).forM fun p => self p.1 p.2

/-- the right end of a task on two ends of chains is one -/
def Task.Looked (s : Store) : Task → Prop
  | .ends _ r => s.Ended r
  | _ => True

theorem unifyAt_left {self : Ty → Ty → StoreM Unit} {v : Var} (h : u ≠ var v) :
    unifyAt self (var v) u = bindVar v u := by
  rw [unifyAt, if_neg fun hsame => h (same_var_left.1 hsame)]

theorem unifyAt_right {self : Ty → Ty → StoreM Unit} {w : Var} (h : ∀ v, t ≠ var v) :
    unifyAt self t (var w) = self (var w) t := by
  cases t with
  | var v => exact absurd rfl (h v)
  | op k n as => rfl
  | hole => rfl

theorem unifyAt_missing {self : Ty → Ty → StoreM Unit} (ht : ∀ v, t ≠ var v) (hu : ∀ v, u ≠ var v)
    (hole : t = hole ∨ u = hole) : unifyAt self t u = throw (.missingType .takenApart) := by
  cases t with
  | var v => exact absurd rfl (ht v)
  | op k n as =>
    rcases hole with h | rfl
    · cases h
    · rfl
  | hole =>
    cases u with
    | var v => exact absurd rfl (hu v)
    | op k n as => rfl
    | hole => rfl

/-- what has a derivation ends, and ends so -/
theorem Unifying.settles {task : Task} {o : Outcome} (h : Unifying s task o)
    (hlook : task.Looked s) : Settles unifyStep (fun self => task.run self s) o := by
  induction h with
  | @lookUp _ _ _ _ r _ _ _ hl hr _ ih =>
    refine .unfold ?_
    refine (ih ((ends_prune_or r _).ok hr)).congr fun self => ?_
    exact (bind_of_ok hl _).trans (bind_of_ok hr _)
  | @same s v =>
    refine (Settles.const _).congr fun self => ?_
    rw [Task.run, unifyAt, if_pos (same_var_left.2 rfl)]
    rfl
  | left hr =>
    refine (Settles.const _).congr fun self => ?_
    rw [Task.run, unifyAt_left hr]
  | @right s w l hl =>
    -- the call with the sides swapped finds both ends at once
    refine Settles.congr (.unfold ?_) fun self => by rw [Task.run, unifyAt_right hl]
    refine (Settles.const _).congr fun self => ?_
    have hw : (var w).prune s = .ok (var w) s := prune_ended hlook
    have hl' : l.prune s = .ok l s := prune_ended (Store.ended_of_ne_var hl)
    refine (bind_of_ok hw _).trans ((bind_of_ok hl' _).trans ?_)
    rw [unifyAt_left (hl w)]
  | clash hne =>
    refine (Settles.const _).congr fun self => ?_
    rw [Task.run, unifyAt, if_neg hne]
  | operators hlen _ ih =>
    refine (ih trivial).congr fun self => ?_
    rw [Task.run, unifyAt, if_pos ⟨rfl, hlen⟩]
    rfl
  | missing hl hr hole =>
    refine (Settles.const _).congr fun self => ?_
    rw [Task.run, unifyAt_missing hl hr hole]
    rfl
  | done => exact .const _
  | next _ _ ih ihrest => exact .bind (ih trivial) (ihrest trivial)
  | stop _ ih => exact .bind_error (ih trivial)

end Ty
end LetPoly
