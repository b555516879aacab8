import Mathlib.Algebra.BigOperators.Group.List.Basic
import Mathlib.Data.Finset.Card
import Mathlib.Logic.Relation
import LetPoly.Proofs.Term.Basic
import LetPoly.Store.Basic

/-!
# Bindings without circles

A store is acyclic if no var can be reached from itself through bindings and the arguments of
operators.  Proofs use a rank instead, a number for every var that falls along every binding:

* `Ranked.acyclic`        a store with a rank is acyclic;
* `Acyclic.exists_rank`   an acyclic store has a rank that nowhere exceeds the number of vars.

The second bound is what makes the fuel of all look-ups enough.
-/

namespace LetPoly.Store

/-- `w` occurs in the type that `v` is bound to -/
def Points (s : Store) (v w : Var) : Prop := ∃ t, s.binding? v = some t ∧ w ∈ t.term.vars

def Acyclic (s : Store) : Prop := ∀ v, ¬ Relation.TransGen s.Points v v

/-- `rank` falls along every binding, and only unbound vars have rank 0 -/
def Ranked (s : Store) (rank : Var → Nat) : Prop :=
  ∀ v t, s.binding? v = some t → 0 < rank v ∧ ∀ w ∈ t.term.vars, rank w < rank v

variable {s : Store} {rank : Var → Nat}

theorem Ranked.lt_of_points (h : s.Ranked rank) {v w : Var} (hp : s.Points v w) :
    rank w < rank v := by
  obtain ⟨t, ht, hw⟩ := hp
  exact (h v t ht).2 w hw

theorem Ranked.acyclic (h : s.Ranked rank) : s.Acyclic := by
  intro v hv
  have key : ∀ w, Relation.TransGen s.Points v w → rank w < rank v := by
    intro w hw
    induction hw with
    | single hp => exact h.lt_of_points hp
    | tail _ hp ih => exact Nat.lt_trans (h.lt_of_points hp) ih
  exact Nat.lt_irrefl _ (key v hv)

/-! ## all vars of a store -/

def Made (s : Store) (v : Var) : Prop := v.id < s.madeBy v.session

instance (s : Store) (v : Var) : Decidable (s.Made v) := inferInstanceAs (Decidable (_ < _))

theorem isSome_cell? {v : Var} : (s.cell? v).isSome ↔ s.Made v := s.isSome_cell?_iff v

theorem made_of_binding? {v : Var} {t : Ty} (h : s.binding? v = some t) : s.Made v := by
  rw [← isSome_cell?]
  rw [binding?] at h
  cases hc : s.cell? v with
  | none => rw [hc] at h; cases h
  | some c => rfl

def allVars (s : Store) : List Var :=
  (List.range s.sessions.size).flatMap fun i => (List.range (s.madeBy i)).map (Var.mk i)

theorem madeBy_of_le {i : Nat} (h : s.sessions.size ≤ i) : s.madeBy i = 0 := by
  rw [madeBy, Array.getElem?_eq_none h]

theorem mem_allVars {v : Var} : v ∈ s.allVars ↔ s.Made v := by
  obtain ⟨i, k⟩ := v
  simp only [allVars, List.mem_flatMap, List.mem_range, List.mem_map, Var.mk.injEq, Made]
  constructor
  · rintro ⟨j, -, l, hl, rfl, rfl⟩
    exact hl
  · intro hk
    refine ⟨i, ?_, k, hk, rfl, rfl⟩
    by_contra hi
    rw [madeBy_of_le (Nat.le_of_not_lt hi)] at hk
    exact Nat.not_lt_zero k hk

theorem length_allVars (s : Store) : s.allVars.length = s.varCount := by
  have hsizes : (List.range s.sessions.size).map s.madeBy
      = s.sessions.toList.map fun t => t.cells.size := by
    apply List.ext_getElem
    · simp
    · intro i h₁ h₂
      have hi : i < s.sessions.size := by simpa using h₁
      simp [madeBy, Array.getElem?_eq_getElem hi]
  have hsum : ∀ (l : List Session) (n : Nat),
      l.foldl (fun n t => n + t.cells.size) n = n + (l.map fun t => t.cells.size).sum := by
    intro l
    induction l with
    | nil => intro n; rfl
    | cons t l ih =>
      intro n
      rw [List.foldl_cons, ih, List.map_cons, List.sum_cons, Nat.add_assoc]
  rw [varCount, ← Array.foldl_toList, hsum, Nat.zero_add, ← hsizes, allVars, List.length_flatMap]
  simp

/-! ## ranks from acyclicity -/

open Classical in
/-- the bound vars that `v` leads to, itself included -/
noncomputable def reach (s : Store) (v : Var) : Finset Var :=
  s.allVars.toFinset.filter fun w =>
    (s.binding? w).isSome ∧ Relation.ReflTransGen s.Points v w

theorem mem_reach {v w : Var} :
    w ∈ s.reach v ↔ (s.binding? w).isSome ∧ Relation.ReflTransGen s.Points v w := by
  classical
  rw [reach, Finset.mem_filter, List.mem_toFinset, mem_allVars, and_iff_right_iff_imp]
  rintro ⟨hw, -⟩
  obtain ⟨t, ht⟩ := Option.isSome_iff_exists.1 hw
  exact made_of_binding? ht

open Classical in
theorem card_reach_le (s : Store) (v : Var) : (s.reach v).card ≤ s.varCount :=
  calc (s.reach v).card ≤ s.allVars.toFinset.card := Finset.card_filter_le _ _
    _ ≤ s.allVars.length := List.toFinset_card_le _
    _ = s.varCount := s.length_allVars

/-- a var is not reached from what it is bound to, so fewer bound vars are -/
theorem Acyclic.reach_ssubset (h : s.Acyclic) {v w : Var} (hp : s.Points v w) :
    s.reach w ⊂ s.reach v := by
  obtain ⟨t, ht, hw⟩ := id hp
  refine Finset.ssubset_iff_subset_ne.2 ⟨fun u hu => ?_, fun heq => ?_⟩
  · obtain ⟨hb, hu⟩ := mem_reach.1 hu
    exact mem_reach.2 ⟨hb, .head hp hu⟩
  · have hv : v ∈ s.reach w := by
      rw [heq]
      exact mem_reach.2 ⟨by rw [ht]; rfl, .refl⟩
    exact h v (.head' hp (mem_reach.1 hv).2)

theorem Acyclic.exists_rank (h : s.Acyclic) :
    ∃ rank, s.Ranked rank ∧ ∀ v, rank v ≤ s.varCount := by
  refine ⟨fun v => (s.reach v).card, fun v t ht => ⟨?_, fun w hw => ?_⟩, s.card_reach_le⟩
  · exact Finset.card_pos.2 ⟨v, mem_reach.2 ⟨by rw [ht]; rfl, .refl⟩⟩
  · exact Finset.card_lt_card (h.reach_ssubset ⟨t, ht, hw⟩)

end LetPoly.Store
