import LetPoly.Proofs.Store.Frame
import LetPoly.Proofs.Store.Occurs

/-!
# What the occurs check decides

`Ty.occursIn` answers whether a var is unbound and left over when all bindings of a type are
resolved.  `Ty.occursInAny` and `Ty.isGeneric` answer the same for a list of types, the latter the
other way round (`occurs_exact`).  A var that is bound is left over nowhere, not even in itself.

The searches shorten chains on their way and stop at the first hit, so they may leave another store
behind; but it looks the same (`Store.SameView`).
-/

namespace LetPoly

open StoreM

namespace Store

variable {s : Store} {v : Var} {t : Ty}

/-- `v` is unbound, and one of the vars that are left when `t` is resolved -/
def Remains (s : Store) (v : Var) (t : Ty) : Prop :=
  s.binding? v = none ∧ v ∈ (s.resolve t).vars

theorem Acyclic.occurs_iff_remains (hs : s.Acyclic) : s.Occurs (.var v) t ↔ s.Remains v t := by
  constructor
  · intro h
    obtain ⟨w, heq, hw⟩ := h
    cases heq
    exact ⟨hs.unbound_of_mem hw, hw⟩
  · intro h
    exact ⟨v, rfl, h.2⟩

theorem not_remains_of_bound {u : Ty} (h : s.binding? v = some u) : ¬ s.Remains v t := by
  intro hr
  rw [hr.1] at h
  cases h

end Store

namespace Ty

variable {s : Store} {act : StoreM Bool} {p q : Prop} {ts : List Ty}

/-- `act` answers whether `p` holds, and what it leaves behind looks like `s` -/
def Decides (s : Store) (act : StoreM Bool) (p : Prop) : Prop :=
  ∃ b s', act s = .ok b s' ∧ (b = true ↔ p) ∧ s.SameView s'

/-- a search that is exact and only shortens chains -/
theorem decides_of_ends (hs : s.Acyclic) (h : Ends act s (fun b s' => s.Quiet s' ∧ (b ↔ p)) never)
    (hstill : Preserves Store.Still act) (hpq : p ↔ q) : Decides s act q := by
  obtain ⟨b, s', hrun, hquiet, hb⟩ := h.exists_ok
  exact ⟨b, s', hrun, hb.trans hpq, ((hstill s).ok hrun).sameView hquiet hs⟩

theorem occurs_exact (hs : s.Sound) (v : Var) {t : Ty} (ht : s.Has t) (hts : ∀ u ∈ ts, s.Has u) :
    Decides s (occursIn (var v) t) (s.Remains v t) ∧
      Decides s (occursInAny (var v) ts) (∃ u ∈ ts, s.Remains v u) ∧
      Decides s (isGeneric (var v) ts) (¬ ∃ u ∈ ts, s.Remains v u) := by
  have hremains : ∀ u, s.Occurs (var v) u ↔ s.Remains v u := fun u => hs.acyclic.occurs_iff_remains
  refine ⟨?_, ?_, ?_⟩
  · exact decides_of_ends hs.acyclic (ends_occursIn hs ht) (still_occursIn (var v) t) (hremains t)
  · apply decides_of_ends hs.acyclic (ends_occursInAny hs hts) (closed_still.occursInAny (var v) ts)
    simp only [hremains]
  · apply decides_of_ends hs.acyclic (ends_isGeneric hs hts) (still_isGeneric (var v) ts)
    simp only [hremains, not_exists, not_and]

def pairedStore : Store where
  sessions := #[{
    cells := #[{}, { binding := some (op 2 pairName [int, var ⟨0, 0⟩]) },
      { binding := some (var ⟨0, 1⟩) }]
    cursor := 945 }]

theorem occurs_exact_of_paired :
    pairedStore.Remains ⟨0, 0⟩ (op 3 funcName [var ⟨0, 2⟩, bool]) ∧
      Decides pairedStore (occursIn (var ⟨0, 0⟩) (op 3 funcName [var ⟨0, 2⟩, bool]))
        (pairedStore.Remains ⟨0, 0⟩ (op 3 funcName [var ⟨0, 2⟩, bool])) ∧
      ¬ pairedStore.Remains ⟨0, 1⟩ (var ⟨0, 1⟩) ∧
      Decides pairedStore (occursIn (var ⟨0, 1⟩) (var ⟨0, 1⟩))
        (pairedStore.Remains ⟨0, 1⟩ (var ⟨0, 1⟩)) := by
  have hs : pairedStore.Sound := .of_rank (fun v => v.id) (by decide +kernel)
  have hfunc : pairedStore.Has (op 3 funcName [var ⟨0, 2⟩, bool]) := ⟨rfl, by decide +kernel⟩
  have hvar : pairedStore.Has (var ⟨0, 1⟩) := ⟨rfl, by decide +kernel⟩
  have hnone : ∀ u ∈ ([] : List Ty), pairedStore.Has u := List.forall_mem_nil _
  refine ⟨⟨rfl, by decide +kernel⟩, ?_, Store.not_remains_of_bound rfl, ?_⟩
  · exact (occurs_exact hs ⟨0, 0⟩ hfunc hnone).1
  · exact (occurs_exact hs ⟨0, 1⟩ hvar hnone).1

end Ty
end LetPoly
