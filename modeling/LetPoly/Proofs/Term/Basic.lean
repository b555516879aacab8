import Mathlib.Data.List.Basic
import LetPoly.Ty.Basic

/-!
# Finite types

A `Term` is what a type says, without marks and without a store: a var, or an operator applied to
terms.  What kind of thing a var is stays open, so that the same laws serve types and schemes.

* `Term.subst`    every var replaced by a term; `subst_subst` composes two replacements;
* `Term.vars`     the vars from left to right, repeated as often as they occur;
* `Term.Inside`   being a proper part of a term, which no replacement can undo;
* `Ty.term`       a type as a term over `Var`.
-/

namespace LetPoly

inductive Term (α : Type) where
  | var (a : α)
  | op (name : String) (args : List (Term α))

namespace Term

variable {α β γ : Type}

/-- induction where the hypothesis speaks of every argument -/
@[elab_as_elim, induction_eliminator]
theorem ind {motive : Term α → Prop} (var : ∀ a, motive (var a))
    (op : ∀ n as, (∀ a ∈ as, motive a) → motive (op n as)) : ∀ t, motive t
  | .var a => var a
  | .op n as => op n as fun a _ => ind var op a

mutual
def subst (σ : α → Term β) : Term α → Term β
  | var a => σ a
  | op n as => op n (substAll σ as)

def substAll (σ : α → Term β) : List (Term α) → List (Term β)
  | [] => []
  | a :: as => subst σ a :: substAll σ as
end

mutual
def vars : Term α → List α
  | var a => [a]
  | op _ as => varsAll as

def varsAll : List (Term α) → List α
  | [] => []
  | a :: as => vars a ++ varsAll as
end

mutual
def size : Term α → Nat
  | var _ => 1
  | op _ as => 1 + sizeAll as

def sizeAll : List (Term α) → Nat
  | [] => 0
  | a :: as => size a + sizeAll as
end

theorem substAll_eq_map (σ : α → Term β) (as : List (Term α)) :
    substAll σ as = as.map (subst σ) := by
  induction as with
  | nil => rfl
  | cons a as ih => rw [substAll, ih, List.map_cons]

theorem varsAll_eq_flatMap (as : List (Term α)) : varsAll as = as.flatMap vars := by
  induction as with
  | nil => rfl
  | cons a as ih => rw [varsAll, ih, List.flatMap_cons]

@[simp] theorem subst_var (σ : α → Term β) (a : α) : (var a).subst σ = σ a := rfl

@[simp] theorem subst_op (σ : α → Term β) (n : String) (as : List (Term α)) :
    (op n as).subst σ = op n (as.map (subst σ)) := by
  rw [subst, substAll_eq_map]

@[simp] theorem vars_var (a : α) : (var a).vars = [a] := rfl

@[simp] theorem mem_vars_op {a : α} {n : String} {as : List (Term α)} :
    a ∈ (op n as).vars ↔ ∃ t ∈ as, a ∈ t.vars := by
  rw [vars, varsAll_eq_flatMap, List.mem_flatMap]

/-! ## replacing vars -/

theorem subst_congr {σ τ : α → Term β} {t : Term α} (h : ∀ a ∈ t.vars, σ a = τ a) :
    t.subst σ = t.subst τ := by
  induction t with
  | var a => exact h a (List.mem_singleton_self a)
  | op n as ih =>
    rw [subst_op, subst_op]
    congr 1
    exact List.map_congr_left fun t ht => ih t ht fun a ha => h a (mem_vars_op.2 ⟨t, ht, ha⟩)

theorem subst_subst (σ : α → Term β) (τ : β → Term γ) (t : Term α) :
    (t.subst σ).subst τ = t.subst fun a => (σ a).subst τ := by
  induction t with
  | var a => rfl
  | op n as ih =>
    simp only [subst_op, List.map_map]
    congr 1
    exact List.map_congr_left ih

@[simp] theorem subst_id (t : Term α) : t.subst var = t := by
  induction t with
  | var a => rfl
  | op n as ih =>
    rw [subst_op, List.map_congr_left (g := id) ih, List.map_id]

theorem subst_eq_self {σ : α → Term α} {t : Term α} (h : ∀ a ∈ t.vars, σ a = var a) :
    t.subst σ = t := by
  rw [subst_congr h, subst_id]

theorem mem_vars_subst {σ : α → Term β} {t : Term α} {b : β} :
    b ∈ (t.subst σ).vars ↔ ∃ a ∈ t.vars, b ∈ (σ a).vars := by
  induction t with
  | var a => simp
  | op n as ih =>
    rw [subst_op, mem_vars_op]
    constructor
    · rintro ⟨u, hu, hb⟩
      obtain ⟨t, ht, rfl⟩ := List.mem_map.1 hu
      obtain ⟨a, ha, hab⟩ := (ih t ht).1 hb
      exact ⟨a, mem_vars_op.2 ⟨t, ht, ha⟩, hab⟩
    · rintro ⟨a, ha, hab⟩
      obtain ⟨t, ht, hat⟩ := mem_vars_op.1 ha
      exact ⟨t.subst σ, List.mem_map_of_mem ht, (ih t ht).2 ⟨a, hat, hab⟩⟩

/-! ## proper parts -/

/-- `t` is a proper part of a term -/
inductive Inside (t : Term α) : Term α → Prop where
  | arg {n : String} {as : List (Term α)} (h : t ∈ as) : Inside t (op n as)
  | deep {n : String} {a : Term α} {as : List (Term α)} (h : a ∈ as) (ha : Inside t a) :
    Inside t (op n as)

theorem Inside.trans {t u w : Term α} (h : t.Inside u) (h' : u.Inside w) : t.Inside w := by
  induction h' with
  | arg hu => exact .deep hu h
  | deep hu _ ih => exact .deep hu ih

theorem Inside.subst {t u : Term α} (h : t.Inside u) (σ : α → Term β) :
    (t.subst σ).Inside (u.subst σ) := by
  induction h with
  | arg ht =>
    rw [subst_op]
    exact .arg (List.mem_map_of_mem ht)
  | deep ht _ ih =>
    rw [subst_op]
    exact .deep (List.mem_map_of_mem ht) ih

theorem size_le_sizeAll {a : Term α} {as : List (Term α)} (h : a ∈ as) : a.size ≤ sizeAll as := by
  induction as with
  | nil => cases h
  | cons b as ih =>
    rw [sizeAll]
    rcases List.mem_cons.1 h with rfl | h
    · omega
    · have := ih h
      omega

theorem Inside.size_lt {t u : Term α} (h : t.Inside u) : t.size < u.size := by
  induction h with
  | arg ht =>
    have := size_le_sizeAll ht
    rw [size]
    omega
  | deep ht _ ih =>
    have := size_le_sizeAll ht
    rw [size]
    omega

theorem not_inside_self (t : Term α) : ¬ t.Inside t := fun h => Nat.lt_irrefl _ h.size_lt

theorem inside_of_mem_vars {a : α} {n : String} {as : List (Term α)} (h : a ∈ (op n as).vars) :
    (var a).Inside (op n as) := by
  have key : ∀ t : Term α, a ∈ t.vars → t = var a ∨ (var a).Inside t := by
    intro t
    induction t with
    | var b =>
      intro h
      rw [vars_var, List.mem_singleton] at h
      exact .inl (h ▸ rfl)
    | op m bs ih =>
      intro h
      obtain ⟨b, hb, hab⟩ := mem_vars_op.1 h
      rcases ih b hb hab with rfl | hi
      · exact .inr (.arg hb)
      · exact .inr (.deep hb hi)
  rcases key _ h with h | h
  · cases h
  · exact h

end Term

/-! ## types as terms -/

namespace Ty

/-- induction where the hypothesis speaks of every argument -/
@[elab_as_elim, induction_eliminator]
theorem ind {motive : Ty → Prop} (var : ∀ v, motive (var v))
    (op : ∀ k n as, (∀ a ∈ as, motive a) → motive (op k n as)) (hole : motive hole) :
    ∀ t, motive t
  | .var v => var v
  | .op k n as => op k n as fun a _ => ind var op hole a
  | .hole => hole

theorem op_ne_var {k : Nat} {n : String} {as : List Ty} (v : Var) : op k n as ≠ var v :=
  fun h => Ty.noConfusion h

theorem hole_ne_var (v : Var) : hole ≠ var v := fun h => Ty.noConfusion h

mutual
/-- a type without its marks; a missing type counts as an operator, and no law is about one -/
def term : Ty → Term Var
  | var v => .var v
  | op _ n as => .op n (termAll as)
  | hole => .op "None" []

def termAll : List Ty → List (Term Var)
  | [] => []
  | a :: as => a.term :: termAll as
end

theorem termAll_eq_map (as : List Ty) : termAll as = as.map term := by
  induction as with
  | nil => rfl
  | cons a as ih => rw [termAll, ih, List.map_cons]

@[simp] theorem term_var (v : Var) : (var v).term = .var v := rfl

@[simp] theorem term_op (k : Nat) (n : String) (as : List Ty) :
    (op k n as).term = .op n (as.map term) := by
  rw [term, termAll_eq_map]

theorem mem_vars_of_arg {k : Nat} {n : String} {as : List Ty} {a : Ty} (ha : a ∈ as) {v : Var}
    (hv : v ∈ a.term.vars) : v ∈ (op k n as).term.vars := by
  rw [term_op, Term.mem_vars_op]
  exact ⟨a.term, List.mem_map_of_mem ha, hv⟩

theorem wholeAll_iff (as : List Ty) : wholeAll as ↔ ∀ a ∈ as, a.whole := by
  induction as with
  | nil => simp [wholeAll]
  | cons a as ih => simp [wholeAll, ih]

@[simp] theorem whole_op {k : Nat} {n : String} {as : List Ty} :
    (op k n as).whole ↔ ∀ a ∈ as, a.whole := by
  rw [whole, wholeAll_iff]

end Ty
end LetPoly
