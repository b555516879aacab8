import LetPoly.Proofs.History

/-!
# An instance renews no more than it has to

`Ty.freshInstance` returns the resolved form of a type.  The vars that occur in a non-generic type
are kept, and each of the others is replaced by a new var of the session wherever it occurs.  The
new vars are the next ones of the session, in the order in which the old ones are first met, and no
other var is made; no type changes its meaning on the way, and no var its name
(`freshInstance_minimal`).
-/

namespace LetPoly

open StoreM

def Store.nextVars (s : Store) (i n : Nat) : List Var :=
  (List.range n).map fun k => ⟨i, s.madeBy i + k⟩

namespace Ty

variable {s s' : Store} {i : Nat} {N : Set Var} {us : List Var} {nonGeneric : List Ty} {t t' : Ty}

/-- the replacements are the next vars in the order of first occurrence -/
theorem map_replacement (s : Store) (i : Nat) (N : Set Var) (us : List Var) :
    (generics N us).map (replacement s i N us) = s.nextVars i (generics N us).length := by
  induction us using List.reverseRecOn with
  | nil => rfl
  | append_singleton us v ih =>
    have hbefore : (generics N us).map (replacement s i N (us ++ [v]))
        = s.nextVars i (generics N us).length := by
      rw [← ih]
      exact List.map_congr_left fun w hw => replacement_append (mem_generics.1 hw).1 [v]
    by_cases h : v ∈ N ∨ v ∈ us
    · rw [generics_known h, hbefore]
    · obtain ⟨hN, hus⟩ := not_or.1 h
      have hnew : v ∉ generics N us := fun hv => hus (mem_generics.1 hv).1
      have hv : replacement s i N (us ++ [v]) v = ⟨i, s.madeBy i + (generics N us).length⟩ := by
        rw [replacement_of_not_mem hN, generics_next hN hus, List.idxOf_append_of_notMem hnew,
          List.idxOf_cons_self, Nat.add_zero]
      rw [generics_next hN hus, List.map_append, hbefore, List.map_singleton, hv,
        List.length_append, List.length_singleton, Store.nextVars, Store.nextVars,
        List.range_succ, List.map_append, List.map_singleton]

/-- `t'` is `t` with its bindings resolved and its vars replaced by `ρ`: those of `N` stay, and the
others get the next vars of `i`.  Nothing else has happened between `s` and `s'`. -/
structure MinimalCopy (s : Store) (i : Nat) (N : Set Var) (t t' : Ty) (s' : Store)
    (ρ : Var → Var) : Prop where
  term_eq : t'.term = (s.resolve t).subst fun v => .var (ρ v)
  keep : ∀ v ∈ N, ρ v = v
  order : (generics N (s.resolve t).vars).map ρ
    = s.nextVars i (generics N (s.resolve t).vars).length
  new : ∀ v ∈ generics N (s.resolve t).vars, ¬ s.Made (ρ v)
  distinct : Set.InjOn ρ {v | v ∈ generics N (s.resolve t).vars}
  has : s'.Has t'
  unbound : ∀ v ∈ t'.term.vars, s'.binding? v = none
  size : s'.sessions.size = s.sessions.size
  made : s'.madeBy i = s.madeBy i + (generics N (s.resolve t).vars).length
  others : ∀ j ≠ i, s'.madeBy j = s.madeBy j
  resolve : ∀ u, s'.resolve u = s.resolve u
  names : s.SameNames s'

theorem Copy.minimal {m' : List (Var × Var)} (hs : s.Sound)
    (h : Copy s i N [] (s.resolve t) s t' m' s') (hnames : s.SameNames s') :
    MinimalCopy s i N t t' s' (replacement s i N (s.resolve t).vars) where
  term_eq := h.term_eq
  keep _ := replacement_of_mem
  order := map_replacement s i N _
  new _ hv := not_made_replacement (mem_generics.1 hv).2
  distinct _ hv _ hw :=
    replacement_inj (mem_generics.1 hv).1 (mem_generics.1 hv).2 (mem_generics.1 hw).2
  has := h.has
  unbound w hw := by
    rw [h.term_eq, Term.mem_vars_subst] at hw
    obtain ⟨v, hv, hw⟩ := hw
    rw [Term.vars_var, List.mem_singleton] at hw
    rw [h.keeps.bound, hw]
    by_cases hN : v ∈ N
    · rw [replacement_of_mem hN]
      exact hs.acyclic.unbound_of_mem hv
    · exact Store.binding?_of_not_made (not_made_replacement hN)
  size := h.copied.size
  made := h.copied.made
  others := h.copied.others
  resolve := h.keeps.resolve_eq hs.acyclic
  names := hnames

theorem freshInstance_minimal (hs : s.Sound) (hg : ∀ u ∈ nonGeneric, s.Has u)
    (hi : i < s.sessions.size) (ht : s.Has t) :
    ∃ t' s' ρ, t.freshInstance nonGeneric i s = .ok t' s' ∧
      MinimalCopy s i (s.varsOf nonGeneric) t t' s' ρ := by
  obtain ⟨t', s', hrun, m', h⟩ := (ends_freshInstance_copy hs hg hi ht).exists_ok
  have hnames := (closed_sameNames.freshInstance t nonGeneric i s).ok hrun
  exact ⟨t', s', _, hrun, h.minimal hs hnames⟩

/-- a type that has a var directly and also at the end of a chain -/
def metTwice : Ty := .op 3 funcName [.var ⟨0, 2⟩, .var ⟨0, 0⟩]

/-- the var that is met twice is replaced by one new var, next to a var that is kept -/
theorem freshInstance_minimal_of_metTwice :
    Ends (metTwice.freshInstance [.var ⟨0, 1⟩] 0) pairStore
        (fun t' s' =>
          alike t' (.op 5 funcName [.var ⟨0, 3⟩, .op 4 pairName [.var ⟨0, 1⟩, .var ⟨0, 3⟩]]) ∧
          s'.madeBy 0 = 4) never ∧
      ∃ t' s' ρ, metTwice.freshInstance [.var ⟨0, 1⟩] 0 pairStore = .ok t' s' ∧
        MinimalCopy pairStore 0 (pairStore.varsOf [.var ⟨0, 1⟩]) metTwice t' s' ρ := by
  refine ⟨by decide +kernel, freshInstance_minimal reached_pairStore.sound ?_ ?_ ⟨rfl, ?_⟩⟩
  · intro u hu
    rw [List.mem_singleton] at hu
    exact hu ▸ ⟨rfl, by decide +kernel⟩
  · decide +kernel
  · decide +kernel

end Ty
end LetPoly
