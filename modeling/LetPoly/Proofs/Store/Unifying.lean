import LetPoly.Proofs.Store.Cut
import LetPoly.Proofs.Store.Unify

/-!
# Unification call by call

`Unifying s task o` is the evaluation relation of unification: done in the store `s`, the task ends
in the outcome `o`.  It has no fuel, and one rule for each thing that a call can do.  Whatever
`Ty.unify` does without running out of fuel has a derivation (`derives_within`), and only one
outcome has one (`Unifying.unique`), so on types of a sound store the two are the same
(`unifying_iff`).  Induction on a derivation is induction on the calls that are made.
-/

namespace LetPoly

open StoreM

namespace Ty

abbrev Outcome := EStateM.Result Failure Store Unit

/-- what there is to do: unify two types, or two ends of chains, or two argument lists -/
inductive Task where
  | types (l r : Ty)
  | ends (l r : Ty)
  | args (as bs : List Ty)

inductive Unifying : Store → Task → Outcome → Prop where
  | lookUp {s s₁ s₂ : Store} {l r l' r' : Ty} {o : Outcome} (hl : prune l s = .ok l' s₁)
      (hr : prune r s₁ = .ok r' s₂) (h : Unifying s₂ (.ends l' r') o) : Unifying s (.types l r) o
  | same {s : Store} {v : Var} : Unifying s (.ends (var v) (var v)) (.ok ⟨⟩ s)
  | left {s : Store} {v : Var} {r : Ty} (hr : r ≠ var v) :
      Unifying s (.ends (var v) r) (bindVar v r s)
  /-- the sides are swapped -/
  | right {s : Store} {w : Var} {l : Ty} (hl : ∀ v, l ≠ var v) :
      Unifying s (.ends l (var w)) (bindVar w l s)
  | clash {s : Store} {k j : Nat} {n m : String} {as bs : List Ty}
      (hne : ¬ (n = m ∧ as.length = bs.length)) :
      Unifying s (.ends (op k n as) (op j m bs)) (clash (op k n as) (op j m bs) s)
  | operators {s : Store} {k j : Nat} {n : String} {as bs : List Ty} {o : Outcome}
      (hlen : as.length = bs.length) (h : Unifying s (.args as bs) o) :
      Unifying s (.ends (op k n as) (op j n bs)) o
  | missing {s : Store} {l r : Ty} (hl : ∀ v, l ≠ var v) (hr : ∀ v, r ≠ var v)
      (hole : l = hole ∨ r = hole) :
      Unifying s (.ends l r) (.error (.missingType .takenApart) s)
  | done {s : Store} : Unifying s (.args [] []) (.ok ⟨⟩ s)
  | next {s s₁ : Store} {a b : Ty} {as bs : List Ty} {o : Outcome}
      (h : Unifying s (.types a b) (.ok ⟨⟩ s₁)) (hrest : Unifying s₁ (.args as bs) o) :
      Unifying s (.args (a :: as) (b :: bs)) o
  | stop {s s₁ : Store} {a b : Ty} {as bs : List Ty} {f : Failure}
      (h : Unifying s (.types a b) (.error f s₁)) :
      Unifying s (.args (a :: as) (b :: bs)) (.error f s₁)

variable {s s' s₁ : Store} {l r t u : Ty} {o o' : Outcome} {f : Failure} {task : Task}

theorem Unifying.unique (h : Unifying s task o) (h' : Unifying s task o') : o = o' := by
  induction h generalizing o' with
  | lookUp hl hr _ ih =>
    cases h' with
    | lookUp hl' hr' h' =>
      rw [hl, EStateM.Result.ok.injEq] at hl'
      obtain ⟨rfl, rfl⟩ := hl'
      rw [hr, EStateM.Result.ok.injEq] at hr'
      obtain ⟨rfl, rfl⟩ := hr'
      exact ih h'
  | @same _ v =>
    cases h' with
    | same => rfl
    | left hr => exact absurd rfl hr
    | right hl => exact absurd rfl (hl v)
    | missing hl => exact absurd rfl (hl v)
  | @left _ v _ hr =>
    cases h' with
    | same => exact absurd rfl hr
    | left => rfl
    | right hl => exact absurd rfl (hl v)
    | missing hl => exact absurd rfl (hl v)
  | @right _ w _ hl =>
    cases h' with
    | same => exact absurd rfl (hl w)
    | left => exact absurd rfl (hl _)
    | right => rfl
    | missing _ hr => exact absurd rfl (hr w)
  | clash hne =>
    cases h' with
    | clash => rfl
    | operators hlen => exact absurd ⟨rfl, hlen⟩ hne
    | missing _ _ hole => simp at hole
  | operators hlen _ ih =>
    cases h' with
    | clash hne => exact absurd ⟨rfl, hlen⟩ hne
    | operators _ h' => exact ih h'
    | missing _ _ hole => simp at hole
  | missing hl hr hole =>
    cases h' with
    | same => exact absurd rfl (hl _)
    | left => exact absurd rfl (hl _)
    | right => exact absurd rfl (hr _)
    | clash => simp at hole
    | operators => simp at hole
    | missing => rfl
  | done =>
    cases h' with
    | done => rfl
  | next _ _ ih ihrest =>
    cases h' with
    | next h' hrest' =>
      have heq := ih h'
      rw [EStateM.Result.ok.injEq] at heq
      obtain ⟨-, rfl⟩ := heq
      exact ihrest hrest'
    | stop h' => exact absurd (ih h') nofun
  | stop _ ih =>
    cases h' with
    | next h' => exact absurd (ih h') nofun
    | stop h' => exact ih h'

/-! ## the runs of the library -/

/-- whatever `act` does in `s` without running out of fuel has a derivation -/
def Derives (s : Store) (task : Task) (act : StoreM Unit) : Prop :=
  (∀ s', act s ≠ .error .endlessChain s') → Unifying s task (act s)

/-- what is left of `act` after a look-up -/
theorem prune_bind_cases (t : Ty) (s : Store) (k : Ty → StoreM Unit)
    (h : ∀ s', (prune t >>= k) s ≠ .error .endlessChain s') :
    ∃ u s₁, prune t s = .ok u s₁ ∧ s₁.Ended u ∧ (prune t >>= k) s = k u s₁ := by
  have hends := ends_prune_or t s
  cases hp : prune t s with
  | ok u s₁ => exact ⟨u, s₁, rfl, hends.ok hp, bind_of_ok hp k⟩
  | error f s₁ =>
    rw [hends.error hp] at hp
    exact absurd (bind_of_error hp k) (h s₁)

/-- the ends of two chains are their own ends -/
theorem Unifying.of_types (h : Unifying s (.types l r) o) (hl : s.Ended l) (hr : s.Ended r) :
    Unifying s (.ends l r) o := by
  cases h with
  | lookUp hl' hr' h =>
    rw [prune_ended hl, EStateM.Result.ok.injEq] at hl'
    obtain ⟨rfl, rfl⟩ := hl'
    rw [prune_ended hr, EStateM.Result.ok.injEq] at hr'
    obtain ⟨rfl, rfl⟩ := hr'
    exact h

variable {onward : Ty → Ty → StoreM Unit}

/-- the ends of two chains, given a run that goes on where both are no vars -/
theorem derives_ends (hon : ∀ s l r, Derives s (.types l r) (onward l r)) (l r : Ty) (s : Store) :
    Derives s (.ends l r) (unifyEnds onward l r) := by
  intro hne
  have hrest : (∀ v, l ≠ var v) → (∀ v, r ≠ var v) → unifyEnds onward l r = onward l r →
      Unifying s (.ends l r) (unifyEnds onward l r s) := by
    intro hl hr heq
    rw [heq] at hne ⊢
    exact (hon s l r hne).of_types (Store.ended_of_ne_var hl)
      (Store.ended_of_ne_var hr)
  cases l with
  | var v =>
    rw [unifyEnds]
    by_cases hsame : same (var v) r
    · simp only [hsame, if_true]
      rw [same_var_left.1 hsame]
      exact .same
    · simp only [hsame, Bool.false_eq_true, if_false]
      exact .left fun h => hsame (same_var_left.2 h)
  | op k n as =>
    cases r with
    | var w => exact .right op_ne_var
    | op j m bs => exact hrest op_ne_var op_ne_var rfl
    | hole => exact hrest op_ne_var hole_ne_var rfl
  | hole =>
    cases r with
    | var w => exact .right hole_ne_var
    | op j m bs => exact hrest hole_ne_var op_ne_var rfl
    | hole => exact hrest hole_ne_var hole_ne_var rfl

theorem derives_args {as bs : List Ty} (hlen : as.length = bs.length)
    (h : ∀ a ∈ as, ∀ b s, Derives s (.types a b) (unifyWith onward a b)) (s : Store) :
    Derives s (.args as bs) (unifyAllWith onward as bs) := by
  induction as generalizing bs s with
  | nil =>
    cases bs with
    | nil => exact fun _ => .done
    | cons b bs => cases hlen
  | cons a as ih =>
    cases bs with
    | nil => cases hlen
    | cons b bs =>
      intro hne
      rw [unifyAllWith] at hne ⊢
      have hhead := h a List.mem_cons_self b s
      cases hab : unifyWith onward a b s with
      | ok u s₁ =>
        rw [bind_of_ok hab] at hne ⊢
        rw [Derives, hab] at hhead
        have htail := ih (Nat.succ.inj hlen) fun a ha => h a (List.mem_cons_of_mem _ ha)
        exact .next (hhead fun _ herr => by cases herr) (htail s₁ hne)
      | error f s₁ =>
        rw [bind_of_error hab] at hne ⊢
        rw [Derives, hab] at hhead
        exact .stop (hhead hne)

theorem derives_with (hon : ∀ s l r, Derives s (.types l r) (onward l r)) (l r : Ty) (s : Store) :
    Derives s (.types l r) (unifyWith onward l r) := by
  induction l generalizing r s with
  | var v =>
    intro hne
    rw [unifyWith] at hne ⊢
    obtain ⟨l', s₁, hl', -, heq⟩ := prune_bind_cases _ _ _ hne
    rw [heq] at hne ⊢
    obtain ⟨r', s₂, hr', -, heq⟩ := prune_bind_cases _ _ _ hne
    rw [heq] at hne ⊢
    exact .lookUp hl' hr' (derives_ends hon l' r' s₂ hne)
  | op k n as ih =>
    intro hne
    rw [unifyWith] at hne ⊢
    obtain ⟨r', s₁, hr', -, heq⟩ := prune_bind_cases _ _ _ hne
    rw [heq] at hne ⊢
    refine .lookUp (prune_ended Store.ended_op) hr' ?_
    cases r' with
    | var w => exact .right op_ne_var
    | op j m bs =>
      dsimp only at hne ⊢
      split
      · next h =>
        obtain ⟨rfl, hlen⟩ := id h
        rw [if_pos h] at hne
        exact .operators hlen (derives_args hlen ih s₁ hne)
      · next h => exact .clash h
    | hole => exact .missing op_ne_var hole_ne_var (.inr rfl)
  | hole =>
    intro hne
    rw [unifyWith] at hne ⊢
    obtain ⟨r', s₁, hr', -, heq⟩ := prune_bind_cases _ _ _ hne
    rw [heq] at hne ⊢
    refine .lookUp (prune_ended Store.ended_hole) hr' ?_
    cases r' with
    | var w => exact .right hole_ne_var
    | op j m bs => exact .missing hole_ne_var op_ne_var (.inl rfl)
    | hole => exact .missing hole_ne_var hole_ne_var (.inl rfl)

theorem derives_within (fuel : Nat) (l r : Ty) (s : Store) :
    Derives s (.types l r) (unifyWithin fuel l r) := by
  induction fuel generalizing l r s with
  | zero => exact derives_with (fun s _ _ hne => absurd rfl (hne s)) l r s
  | succ fuel ih => exact derives_with (fun s l r => ih l r s) l r s

/-- on types of a sound store, unification has the one outcome that is derivable -/
theorem unifying_iff (hs : s.Sound) (hl : s.Has l) (hr : s.Has r) :
    Unifying s (.types l r) o ↔ unify l r s = o := by
  have hrun : Unifying s (.types l r) (unify l r s) := by
    refine derives_within s.unifyBound l r s fun s' herr => ?_
    exact ((ends_unify hs hl hr).error herr).refusal.ne_endlessChain rfl
  exact ⟨fun h => hrun.unique h, fun h => h ▸ hrun⟩

/-! ## tasks on sound stores -/

namespace Task

def left : Task → Ty
  | types l _ => l
  | ends l _ => l
  | args as _ => op 0 "" as

def right : Task → Ty
  | types _ r => r
  | ends _ r => r
  | args _ bs => op 0 "" bs

/-- what the calls before a task have made sure of -/
def Prepared (s : Store) : Task → Prop
  | types _ _ => True
  | ends l r => s.Ended l ∧ s.Ended r
  | args as bs => as.length = bs.length

structure Ready (s : Store) (task : Task) : Prop where
  sound : s.Sound
  left : s.Has task.left
  right : s.Has task.right
  prepared : task.Prepared s

end Task

/-- both chains followed to their ends -/
structure LookedUp (s : Store) (l r l' r' : Ty) (s' : Store) : Prop where
  quiet : s.Quiet s'
  ready : Task.Ready s' (.ends l' r')
  left : s.resolve l' = s.resolve l
  right : s.resolve r' = s.resolve r

theorem Task.Ready.lookUp {l' r' : Ty} {s₂ : Store} (h : Task.Ready s (.types l r))
    (hl : prune l s = .ok l' s₁) (hr : prune r s₁ = .ok r' s₂) : LookedUp s l r l' r' s₂ := by
  have hs := h.sound
  obtain ⟨rfl, hq₁⟩ := (ends_prune hs.acyclic l).ok hl
  have hs₁ := hq₁.sound hs
  obtain ⟨rfl, hq₂⟩ := (ends_prune hs₁.acyclic r).ok hr
  have hq := hq₁.trans hq₂
  refine ⟨hq, ⟨hq.sound hs, ?_, ?_, ?_, ?_⟩, hs.acyclic.resolve_last l, ?_⟩
  · exact hq.has_of_has (hs.has_last h.left)
  · exact hq₂.has_of_has (hs₁.has_last (hq₁.has_of_has h.right))
  · exact hq.ended (hs.acyclic.ended_last l)
  · exact hq₂.ended (hs₁.acyclic.ended_last r)
  · rw [← hq₁.resolve_eq hs.acyclic, hs₁.acyclic.resolve_last, hq₁.resolve_eq hs.acyclic]

theorem Task.Ready.operators {k j : Nat} {n : String} {as bs : List Ty}
    (h : Task.Ready s (.ends (op k n as) (op j n bs))) (hlen : as.length = bs.length) :
    Task.Ready s (.args as bs) where
  sound := h.sound
  left := Store.has_op.2 (Store.has_op.1 h.left)
  right := Store.has_op.2 (Store.has_op.1 h.right)
  prepared := hlen

theorem Task.Ready.head {a b : Ty} {as bs : List Ty}
    (h : Task.Ready s (.args (a :: as) (b :: bs))) : Task.Ready s (.types a b) where
  sound := h.sound
  left := Store.has_op.1 h.left a List.mem_cons_self
  right := Store.has_op.1 h.right b List.mem_cons_self
  prepared := trivial

theorem Task.Ready.rest {a b : Ty} {as bs : List Ty} (h : Task.Ready s (.args (a :: as) (b :: bs)))
    (hg : s.Grows s₁) : Task.Ready s₁ (.args as bs) where
  sound := hg.sound
  left := Store.has_op.2 fun t ht => hg.has (Store.has_op.1 h.left t (List.mem_cons_of_mem a ht))
  right := Store.has_op.2 fun t ht => hg.has (Store.has_op.1 h.right t (List.mem_cons_of_mem b ht))
  prepared := Nat.succ.inj h.prepared

theorem Unifying.run_eq (h : Unifying s task o) (hready : task.Ready s) :
    unify task.left task.right s = o := by
  refine (unifying_iff hready.sound hready.left hready.right).1 ?_
  cases task with
  | types l r => exact h
  | ends l r => exact .lookUp (prune_ended hready.prepared.1) (prune_ended hready.prepared.2) h
  | args as bs =>
    exact .lookUp (prune_ended Store.ended_op) (prune_ended Store.ended_op)
      (.operators hready.prepared h)

theorem Unifying.equated {u : Unit} (h : Unifying s task (.ok u s')) (hready : task.Ready s) :
    Equated s task.left task.right s' :=
  (ends_unify hready.sound hready.left hready.right).ok (h.run_eq hready)

theorem Unifying.refused (h : Unifying s task (.error f s')) (hready : task.Ready s) :
    Refused s task.left task.right f s' :=
  (ends_unify hready.sound hready.left hready.right).error (h.run_eq hready)

end Ty
end LetPoly
