import Mathlib.Algebra.GroupWithZero.Nat
import Mathlib.Algebra.Order.BigOperators.Group.List
import Mathlib.Algebra.Order.Group.Nat
import Mathlib.Logic.Function.Basic
import LetPoly.Expr

/-!
# Free names and substitution

`Expr.freeNames` lists the occurrences of names that no binder around them binds, from left to
right.  `Expr.subst` puts expressions in place of all of them at once.  A binder that would capture
a name of what is put below it gets another name (`Expr.binder`), and keeps its own one otherwise.

* `Expr.mem_freeNames_subst`   the free names afterwards are those of what was put in;
* `Expr.subst_name`            putting every name in its own place changes nothing.
-/

namespace LetPoly

/-- `x`, or a longer name if `x` is to be avoided -/
def freshName (avoid : List String) (x : String) : String :=
  if x ∈ avoid then x.pushn '_' ((avoid.map String.length).sum + 1) else x

theorem freshName_notMem (avoid : List String) (x : String) : freshName avoid x ∉ avoid := by
  unfold freshName
  split
  · intro h
    have hle : _ ≤ (avoid.map String.length).sum := List.le_sum_of_mem (List.mem_map_of_mem h)
    rw [String.length_pushn] at hle
    omega
  · assumption

theorem freshName_of_notMem {avoid : List String} {x : String} (h : x ∉ avoid) :
    freshName avoid x = x := if_neg h

namespace Expr

/-- the occurrences of free names, from left to right -/
def freeNames : Expr → List String
  | name x => [x]
  | fn p body => body.freeNames.filter (· ≠ p)
  | app f a => f.freeNames ++ a.freeNames
  | letIn x value body => value.freeNames ++ body.freeNames.filter (· ≠ x)
  | letRec x value body => (value.freeNames ++ body.freeNames).filter (· ≠ x)

/-- the free names of what `ρ` puts in place of some names -/
def namesOf (ρ : String → Expr) (names : List String) : List String :=
  names.flatMap fun y => (ρ y).freeNames

/-- a name for a binder of `x` around `names` that captures nothing of what `ρ` puts there -/
def binder (ρ : String → Expr) (x : String) (names : List String) : String :=
  freshName (namesOf ρ (names.filter (· ≠ x))) x

/-- `ρ` below a binder of `x` that is called `q` from now on -/
def under (ρ : String → Expr) (x q : String) : String → Expr := Function.update ρ x (name q)

/-- every free name `x` replaced by `ρ x`, without capture -/
def subst : Expr → (String → Expr) → Expr
  | name x, ρ => ρ x
  | fn p body, ρ =>
    fn (binder ρ p body.freeNames) (body.subst (under ρ p (binder ρ p body.freeNames)))
  | app f a, ρ => app (f.subst ρ) (a.subst ρ)
  | letIn x value body, ρ =>
    letIn (binder ρ x body.freeNames) (value.subst ρ)
      (body.subst (under ρ x (binder ρ x body.freeNames)))
  | letRec x value body, ρ =>
    letRec (binder ρ x (value.freeNames ++ body.freeNames))
      (value.subst (under ρ x (binder ρ x (value.freeNames ++ body.freeNames))))
      (body.subst (under ρ x (binder ρ x (value.freeNames ++ body.freeNames))))

/-- `value` in place of the free name `x` -/
def substName (e : Expr) (x : String) (value : Expr) : Expr :=
  e.subst (Function.update name x value)

variable {ρ : String → Expr} {p q x y z : String} {names : List String} {e : Expr}

theorem mem_namesOf : z ∈ namesOf ρ names ↔ ∃ y ∈ names, z ∈ (ρ y).freeNames := List.mem_flatMap

theorem mem_filter_ne : z ∈ names.filter (· ≠ x) ↔ z ∈ names ∧ z ≠ x := by simp

theorem under_self : under ρ p q p = name q := Function.update_self p _ ρ

theorem under_of_ne (h : y ≠ p) : under ρ p q y = ρ y := Function.update_of_ne h _ ρ

/-- nothing that is put below a binder is captured -/
theorem binder_notMem (hy : y ∈ names) (hp : y ≠ p) : binder ρ p names ∉ (ρ y).freeNames :=
  fun h => freshName_notMem _ p (mem_namesOf.2 ⟨y, mem_filter_ne.2 ⟨hy, hp⟩, h⟩)

/-- the free names below a binder, without the one that it binds -/
theorem mem_names_under : (∃ y ∈ names, z ∈ (under ρ p (binder ρ p names) y).freeNames) ∧
      z ≠ binder ρ p names ↔ ∃ y ∈ names.filter (· ≠ p), z ∈ (ρ y).freeNames := by
  constructor
  · rintro ⟨⟨y, hy, hz⟩, hne⟩
    by_cases hp : y = p
    · subst hp
      rw [under_self, freeNames, List.mem_singleton] at hz
      exact absurd hz hne
    · rw [under_of_ne hp] at hz
      exact ⟨y, mem_filter_ne.2 ⟨hy, hp⟩, hz⟩
  · rintro ⟨y, hy, hz⟩
    obtain ⟨hmem, hp⟩ := mem_filter_ne.1 hy
    refine ⟨⟨y, hmem, by rwa [under_of_ne hp]⟩, ?_⟩
    rintro rfl
    exact binder_notMem hmem hp hz

theorem mem_freeNames_subst :
    z ∈ (e.subst ρ).freeNames ↔ ∃ y ∈ e.freeNames, z ∈ (ρ y).freeNames := by
  induction e generalizing ρ with
  | name x => simp [subst, freeNames]
  | fn p body ih =>
    rw [subst, freeNames, freeNames, mem_filter_ne, ih, mem_names_under]
  | app f a ihf iha =>
    simp only [subst, freeNames, List.mem_append, ihf, iha, or_and_right, exists_or]
  | letIn x value body ihv ihb =>
    rw [subst, freeNames, freeNames, List.mem_append, mem_filter_ne, ihv, ihb, mem_names_under]
    simp only [List.mem_append, or_and_right, exists_or]
  | letRec x value body ihv ihb =>
    rw [subst, freeNames, freeNames, mem_filter_ne, List.mem_append, ihv, ihb, ← mem_names_under]
    simp only [List.mem_append, or_and_right, exists_or]

/-! ## names in their own places -/

theorem under_name (p : String) : under name p p = name := Function.update_eq_self p name

theorem binder_name (p : String) (names : List String) : binder name p names = p := by
  refine freshName_of_notMem fun h => ?_
  obtain ⟨y, hy, hp⟩ := mem_namesOf.1 h
  rw [freeNames, List.mem_singleton] at hp
  exact (mem_filter_ne.1 hy).2 hp.symm

@[simp] theorem subst_name (e : Expr) : e.subst name = e := by
  induction e with
  | name x => rfl
  | fn p body ih => rw [subst, binder_name, under_name, ih]
  | app f a ihf iha => rw [subst, ihf, iha]
  | letIn x value body ihv ihb => rw [subst, binder_name, under_name, ihv, ihb]
  | letRec x value body ihv ihb => rw [subst, binder_name, under_name, ihv, ihb]

end Expr
end LetPoly
