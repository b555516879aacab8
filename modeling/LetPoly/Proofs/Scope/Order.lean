import LetPoly.Proofs.Scope
import LetPoly.Scope

/-!
# The bindings of a scope in the order of their names

A name is listed once, so the names alone decide in which order the bindings come: there is only one
way to sort them, and a sort that compares bindings as pairs never gets to compare two types.

* `Scope.increasing_sorted`, `Scope.mem_sorted`   what the sorted list is;
* `Scope.eq_sorted`        any other sort gives the same list;
* `Sorter`                 a sort that learns about its items by comparing two of them at a time;
* `Sorter.run_entries`     on the bindings of a scope it never asks how two types compare.
-/

namespace LetPoly

universe u

/-! ## lists of entries -/

def Increasing {α : Type u} (l : List (String × α)) : Prop := l.Pairwise fun a b => a.1 < b.1

section

variable {α : Type u} {l l' : List (String × α)}

theorem Increasing.nodup (h : Increasing l) : l.Nodup := by
  refine h.imp fun {a b} hlt => ?_
  rintro rfl
  exact String.lt_irrefl a.1 hlt

theorem Increasing.ext (h : Increasing l) (h' : Increasing l') (hmem : ∀ e, e ∈ l ↔ e ∈ l') :
    l = l' := by
  have hperm : l.Perm l' := (List.perm_ext_iff_of_nodup h.nodup h'.nodup).2 hmem
  refine List.Perm.eq_of_pairwise (fun a b _ _ hab hba => ?_) h h' hperm
  exact absurd (String.lt_trans hab hba) (String.lt_irrefl a.1)

theorem increasing_of_le (h : l.Pairwise fun a b => a.1 ≤ b.1) (hnodup : (l.map Prod.fst).Nodup) :
    Increasing l := by
  have hne : l.Pairwise fun a b => a.1 ≠ b.1 := List.pairwise_map.1 hnodup
  refine (h.and hne).imp fun {a b} hab => ?_
  by_contra hlt
  exact hab.2 (String.le_antisymm hab.1 (String.not_lt.1 hlt))

end

/-! ## sorted scopes -/

namespace Scope

variable {α : Type} {x : String} {a : α} {l : List (String × α)}

theorem sorted_perm (s : Scope α) : s.sorted.Perm s.toList := List.mergeSort_perm _ _

theorem mem_sorted {s : Scope α} : (x, a) ∈ s.sorted ↔ s.get? x = some a :=
  s.sorted_perm.mem_iff.trans mem_toList_iff

theorem increasing_of_perm {s : Scope α} (hperm : l.Perm s.toList)
    (h : l.Pairwise fun a b => a.1 ≤ b.1) : Increasing l :=
  increasing_of_le h ((hperm.map Prod.fst).nodup_iff.2 s.nodup_toList)

theorem increasing_sorted (s : Scope α) : Increasing s.sorted := by
  refine increasing_of_perm s.sorted_perm ?_
  have htrans (a b c : String × α) (hab : decide (a.1 ≤ b.1) = true)
      (hbc : decide (b.1 ≤ c.1) = true) : decide (a.1 ≤ c.1) = true := by
    rw [decide_eq_true_eq] at hab hbc ⊢
    exact String.le_trans hab hbc
  have htotal (a b : String × α) : (decide (a.1 ≤ b.1) || decide (b.1 ≤ a.1)) = true := by
    rw [Bool.or_eq_true, decide_eq_true_eq, decide_eq_true_eq]
    exact String.le_total a.1 b.1
  exact (List.pairwise_mergeSort htrans htotal s.toList).imp fun {a b} h => of_decide_eq_true h

/-- there is only one way to sort the bindings -/
theorem eq_sorted {s : Scope α} (hperm : l.Perm s.toList) (h : l.Pairwise fun a b => a.1 ≤ b.1) :
    l = s.sorted :=
  (increasing_of_perm hperm h).ext s.increasing_sorted fun _ =>
    (hperm.trans s.sorted_perm.symm).mem_iff

/-- scopes with the same bindings are sorted into the same list -/
theorem sorted_congr {s s' : Scope α} (h : ∀ x, s.get? x = s'.get? x) : s.sorted = s'.sorted :=
  s.increasing_sorted.ext s'.increasing_sorted fun e => by rw [mem_sorted, mem_sorted, h]

end Scope

/-! ## comparisons -/

/-- a sort of `n` items that learns about them only by comparing one with another -/
inductive Sorter (n : Nat) where
  /-- the places of the items in their order -/
  | answer (places : List (Fin n))
  | compare (i j : Fin n) (hne : i ≠ j) (less notLess : Sorter n)

/-- there is no answer if a comparison fails -/
def Sorter.run {n : Nat} (less? : Fin n → Fin n → Option Bool) : Sorter n → Option (List (Fin n))
  | answer places => some places
  | compare i j _ less notLess =>
    match less? i j with
    | none => none
    | some true => less.run less?
    | some false => notLess.run less?

/-- whether a binding comes before another one, as pairs are compared: the values are compared only
if the names are equal, and that may fail -/
def pairLess? {α : Type} (valueLess? : α → α → Option Bool) (a b : String × α) : Option Bool :=
  if a.1 = b.1 then valueLess? a.2 b.2 else some (decide (a.1 < b.1))

/-- whatever came of comparing two values, a sort of the bindings of a scope gives the same answer,
so it compares none -/
theorem Sorter.run_entries {α : Type} (s : Scope α) (sorter : Sorter s.toList.length) :
    ∃ places, ∀ valueLess?,
      sorter.run (fun i j => pairLess? valueLess? s.toList[i] s.toList[j]) = some places := by
  induction sorter with
  | answer places => exact ⟨places, fun _ => rfl⟩
  | compare i j hne less notLess ihless ihnot =>
    have hnames : s.toList[i].1 ≠ s.toList[j].1 := by
      have hpairs := List.pairwise_iff_getElem.1 (List.pairwise_map.1 s.nodup_toList)
      rcases Nat.lt_or_gt_of_ne (Fin.val_ne_of_ne hne) with hij | hji
      · exact hpairs i j i.2 j.2 hij
      · exact (hpairs j i j.2 i.2 hji).symm
    have hpair (valueLess? : α → α → Option Bool) :
        pairLess? valueLess? s.toList[i] s.toList[j] =
          some (decide (s.toList[i].1 < s.toList[j].1)) := if_neg hnames
    cases hless : decide (s.toList[i].1 < s.toList[j].1) with
    | true =>
      obtain ⟨places, hplaces⟩ := ihless
      refine ⟨places, fun valueLess? => ?_⟩
      rw [run, hpair, hless]
      exact hplaces valueLess?
    | false =>
      obtain ⟨places, hplaces⟩ := ihnot
      refine ⟨places, fun valueLess? => ?_⟩
      rw [run, hpair, hless]
      exact hplaces valueLess?

/-- the bindings of a scope in the order of their names -/
structure Scope.NameOrder {α : Type} (s : Scope α) : Prop where
  increasing : Increasing s.sorted
  bound_iff : ∀ x a, (x, a) ∈ s.sorted ↔ s.get? x = some a
  /-- no other sort gives another list -/
  unique : ∀ l, l.Perm s.toList → (l.Pairwise fun a b => a.1 ≤ b.1) → l = s.sorted
  /-- and none compares two values -/
  comparisons : ∀ sorter : Sorter s.toList.length, ∃ places, ∀ valueLess?,
    sorter.run (fun i j => pairLess? valueLess? s.toList[i] s.toList[j]) = some places

theorem Scope.nameOrder {α : Type} (s : Scope α) : s.NameOrder :=
  ⟨s.increasing_sorted, fun _ _ => mem_sorted, fun _ => eq_sorted, Sorter.run_entries s⟩

end LetPoly
