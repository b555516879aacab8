import LetPoly.Proofs.Store.Frame
import LetPoly.Proofs.Store.Occurs
import LetPoly.Proofs.Term.Print
import LetPoly.Store.Unify

/-!
# Instances are renamings of the generic vars

`Ty.freshInstance` returns the resolved form of a type in which every generic var is replaced by a
new var of its own, and every var of a non-generic type is kept.  The new vars are made one after
the other, in the order in which the generic vars are first met (`ends_freshInstance_copy`).

* `generics N us`        the vars of a list that are generic, each once, in that order;
* `replacement`          the var that stands for a var in the copy;
* `Copied s₀ i N us`     the invariant of a copy that has met the vars `us`;
* `Instance`             the renaming alone, without the numbers (`ends_freshInstance`).
-/

namespace LetPoly

open StoreM

namespace Ty

/-! ## generic vars -/

open Classical in
/-- the vars of a list outside of `N`, each once, in the order of first occurrence -/
noncomputable def generics (N : Set Var) (us : List Var) : List Var :=
  (us.filter (· ∉ N)).eraseDups

open Classical in
/-- what stands for `v` in a copy begun in `s₀`: the vars of `N` stay, and the others, met in the
order of `us`, are replaced by the vars that `i` makes next -/
noncomputable def replacement (s₀ : Store) (i : Nat) (N : Set Var) (us : List Var)
    (v : Var) : Var :=
  if v ∈ N then v else ⟨i, s₀.madeBy i + (generics N us).idxOf v⟩

variable {s₀ s s' : Store} {rank : Var → Nat} {i : Nat} {N : Set Var} {us ws : List Var} {v w : Var}
  {m m' : List (Var × Var)}

theorem mem_generics : v ∈ generics N us ↔ v ∈ us ∧ v ∉ N := by
  simp [generics]

theorem generics_append (us ws : List Var) :
    ∃ rest, generics N (us ++ ws) = generics N us ++ rest := by
  rw [generics, List.filter_append, List.eraseDups_append]
  exact ⟨_, rfl⟩

theorem generics_known (h : v ∈ N ∨ v ∈ us) : generics N (us ++ [v]) = generics N us := by
  rw [generics, List.filter_append, List.eraseDups_append]
  by_cases hN : v ∈ N
  · simp [generics, hN, List.removeAll]
  · simp [generics, hN, h.resolve_left hN, List.removeAll]

theorem generics_next (hN : v ∉ N) (h : v ∉ us) :
    generics N (us ++ [v]) = generics N us ++ [v] := by
  rw [generics, List.filter_append, List.eraseDups_append]
  simp [generics, hN, h, List.removeAll, List.eraseDups_cons]

theorem replacement_of_mem (h : v ∈ N) : replacement s₀ i N us v = v := if_pos h

theorem replacement_of_not_mem (h : v ∉ N) :
    replacement s₀ i N us v = ⟨i, s₀.madeBy i + (generics N us).idxOf v⟩ := if_neg h

theorem replacement_append (hv : v ∈ us) (ws : List Var) :
    replacement s₀ i N (us ++ ws) v = replacement s₀ i N us v := by
  by_cases hN : v ∈ N
  · rw [replacement_of_mem hN, replacement_of_mem hN]
  · obtain ⟨rest, hrest⟩ := generics_append (N := N) us ws
    rw [replacement_of_not_mem hN, replacement_of_not_mem hN, hrest,
      List.idxOf_append_of_mem (mem_generics.2 ⟨hv, hN⟩)]

/-- different vars have different replacements -/
theorem replacement_inj (hv : v ∈ us) (hN : v ∉ N) (hN' : w ∉ N)
    (h : replacement s₀ i N us v = replacement s₀ i N us w) : v = w := by
  rw [replacement_of_not_mem hN, replacement_of_not_mem hN', Var.mk.injEq] at h
  exact (List.idxOf_inj (mem_generics.2 ⟨hv, hN⟩)).1 (Nat.add_left_cancel h.2)

theorem not_made_replacement (hN : v ∉ N) : ¬ s₀.Made (replacement s₀ i N us v) := by
  rw [replacement_of_not_mem hN, Store.Made]
  exact Nat.not_lt.2 (Nat.le_add_right _ _)

/-! ## a copy in progress -/

/-- a copy begun in `s₀`, with new vars from `i`, has met the vars `us` when it has come to `s`;
`m` has the replacements made so far -/
structure Copied (s₀ : Store) (i : Nat) (N : Set Var) (us : List Var) (m : List (Var × Var))
    (s : Store) : Prop where
  keeps : s₀.Keeps s
  size : s.sessions.size = s₀.sessions.size
  made : s.madeBy i = s₀.madeBy i + (generics N us).length
  others : ∀ j ≠ i, s.madeBy j = s₀.madeBy j
  known : ∀ v ∈ generics N us, m.lookup v = some (replacement s₀ i N us v)
  unknown : ∀ v ∉ generics N us, m.lookup v = none

/-- what copying a term `r` makes of `m` in `s`: the copy `t` and the replacements `m'` in `s'` -/
structure Copy (s₀ : Store) (i : Nat) (N : Set Var) (us : List Var) (r : Term Var) (s : Store)
    (t : Ty) (m' : List (Var × Var)) (s' : Store) : Prop where
  keeps : s.Keeps s'
  copied : Copied s₀ i N (us ++ r.vars) m' s'
  has : s'.Has t
  term_eq : t.term = r.subst fun v => .var (replacement s₀ i N (us ++ r.vars) v)

theorem Copied.made_replacement (h : Copied s₀ i N us m s) (hv : v ∈ generics N us) :
    s.Made (replacement s₀ i N us v) := by
  rw [replacement_of_not_mem (mem_generics.1 hv).2, Store.Made, h.made]
  exact Nat.add_lt_add_left (List.idxOf_lt_length_of_mem hv) _

theorem Copied.quiet (h : Copied s₀ i N us m s) (hk : s.Keeps s') (hv : s.SameVars s') :
    Copied s₀ i N us m s' :=
  ⟨h.keeps.trans hk, hv.size.trans h.size, (hv.madeBy i).trans h.made,
    fun j hj => (hv.madeBy j).trans (h.others j hj), h.known, h.unknown⟩

theorem Copied.congr {us' : List Var} (h : Copied s₀ i N us m s)
    (heq : generics N us' = generics N us) : Copied s₀ i N us' m s := by
  refine ⟨h.keeps, h.size, heq ▸ h.made, h.others, fun v hv => ?_, fun v hv => ?_⟩
  · rw [heq] at hv
    rw [h.known v hv, replacement, replacement, heq]
  · exact h.unknown v (heq ▸ hv)

theorem lookup_cons_self (v w : Var) (m : List (Var × Var)) : ((v, w) :: m).lookup v = some w := by
  rw [List.lookup_cons, beq_iff_eq.2 rfl]

theorem lookup_cons_of_ne {u v : Var} (h : u ≠ v) (w : Var) (m : List (Var × Var)) :
    ((v, w) :: m).lookup u = m.lookup u := by
  rw [List.lookup_cons, beq_eq_false_iff_ne.2 h]

/-- the replacement of a var that has not been met before is the next var of the session -/
theorem Copied.nextVar_eq (h : Copied s₀ i N us m s) (hN : v ∉ N) (hv : v ∉ us) :
    s.nextVar i = replacement s₀ i N (us ++ [v]) v := by
  have hnew : v ∉ generics N us := fun hmem => hv (mem_generics.1 hmem).1
  rw [replacement_of_not_mem hN, generics_next hN hv, List.idxOf_append_of_notMem hnew,
    List.idxOf_cons_self, Nat.add_zero, Store.nextVar, h.made]

theorem Copied.next (h : Copied s₀ i N us m s) (hi : i < s.sessions.size) (hN : v ∉ N)
    (hv : v ∉ us) : Copied s₀ i N (us ++ [v]) ((v, s.nextVar i) :: m) (s.pushVar i) := by
  have hgen := generics_next hN hv
  refine ⟨h.keeps.trans (Store.keeps_pushVar hi), ?_, ?_, fun j hj => ?_, fun u hu => ?_,
    fun u hu => ?_⟩
  · rw [← h.size]
    exact s.size_modifySession _ _
  · rw [Store.madeBy_pushVar hi, if_pos rfl, h.made, hgen, List.length_append,
      List.length_singleton, Nat.add_assoc]
  · rw [Store.madeBy_pushVar hi, if_neg (Ne.symm hj), h.others j hj]
  · by_cases huv : u = v
    · rw [huv, lookup_cons_self, h.nextVar_eq hN hv]
    · rw [hgen, List.mem_append, List.mem_singleton] at hu
      have hus := hu.resolve_right huv
      rw [lookup_cons_of_ne huv, h.known u hus, replacement_append (mem_generics.1 hus).1]
  · rw [hgen, List.mem_append, List.mem_singleton] at hu
    rw [lookup_cons_of_ne fun huv => hu (.inr huv), h.unknown u fun hus => hu (.inl hus)]

theorem Copy.cons {s₁ s₂ : Store} {m₁ m₂ : List (Var × Var)} {k : Nat} {n : String} {r : Term Var}
    {rs : List (Term Var)} {t : Ty} {ts : List Ty} (h₁ : Copy s₀ i N us r s t m₁ s₁)
    (h₂ : Copy s₀ i N (us ++ r.vars) (.op n rs) s₁ (op k n ts) m₂ s₂) :
    Copy s₀ i N us (.op n (r :: rs)) s (op k n (t :: ts)) m₂ s₂ := by
  have hvars : us ++ (Term.op n (r :: rs)).vars = us ++ r.vars ++ (Term.op n rs).vars := by
    rw [Term.vars_op, Term.vars_op, List.flatMap_cons, List.append_assoc]
  refine ⟨h₁.keeps.trans h₂.keeps, hvars ▸ h₂.copied, ?_, ?_⟩
  · rw [Store.has_op]
    intro a ha
    rcases List.mem_cons.1 ha with rfl | ha
    · exact h₂.keeps.has_of_has h₁.has
    · exact Store.has_op.1 h₂.has a ha
  · have hts := h₂.term_eq
    -- the other arguments bring more vars, but the replacements in `t` stay
    have ht : t.term = r.subst fun v =>
        .var (replacement s₀ i N (us ++ r.vars ++ (Term.op n rs).vars) v) := by
      rw [h₁.term_eq]
      refine Term.subst_congr fun v hv => ?_
      rw [replacement_append (List.mem_append_right us hv)]
    rw [term_op, Term.subst_op, Term.op.injEq] at hts
    rw [hvars, term_op, Term.subst_op, List.map_cons, List.map_cons, ht, hts.2]

/-- a copy under another mark, built in a step that changes no meaning -/
theorem Copy.remark {s₁ s₂ : Store} {m₁ : List (Var × Var)} {k l : Nat} {n : String} {r : Term Var}
    {ts : List Ty} (h : Copy s₀ i N us r s (op k n ts) m₁ s₁) (hk : s₁.Keeps s₂)
    (hv : s₁.SameVars s₂) : Copy s₀ i N us r s (op l n ts) m₁ s₂ where
  keeps := h.keeps.trans hk
  copied := h.copied.quiet hk hv
  has := Store.has_op.2 fun a ha => hk.has_of_has (Store.has_op.1 h.has a ha)
  term_eq := by rw [← h.term_eq, term_op, term_op]

theorem Copy.after {s₁ s₂ : Store} {m₁ : List (Var × Var)} {r : Term Var} {t : Ty}
    (h : Copy s₀ i N us r s₁ t m₁ s₂) (hk : s.Keeps s₁) : Copy s₀ i N us r s t m₁ s₂ :=
  { h with keeps := hk.trans h.keeps }

/-! ## steps of a copy -/

theorem ends_copying_bind {α β : Type} {x : Copying α} {k : α → Copying β}
    {Q : β × List (Var × Var) → Store → Prop} {R : Failure → Store → Prop} :
    Ends ((x >>= k) m) s Q R ↔ Ends (x m) s (fun p s' => Ends (k p.1 p.2) s' Q R) R :=
  ends_bind_iff

theorem ends_copying_get {α : Type} {k : List (Var × Var) → Copying α}
    {Q : α × List (Var × Var) → Store → Prop} {R : Failure → Store → Prop} :
    Ends ((get >>= k) m) s Q R ↔ Ends (k m m) s Q R := Iff.rfl

theorem ends_copying_getThe {α : Type} {k : Store → Copying α}
    {Q : α × List (Var × Var) → Store → Prop} {R : Failure → Store → Prop} :
    Ends ((getThe Store >>= k) m) s Q R ↔ Ends (k s m) s Q R := Iff.rfl

theorem ends_copying_lift {α : Type} {x : StoreM α} {Q : α × List (Var × Var) → Store → Prop}
    {R : Failure → Store → Prop} :
    Ends ((liftM x : Copying α) m) s Q R ↔ Ends x s (fun a s' => Q (a, m) s') R :=
  ends_bind_iff

variable {nonGeneric : List Ty}

theorem isGeneric_iff {v : Var} :
    (∀ t ∈ nonGeneric, ¬ s.Occurs (var v) t) ↔ v ∉ s.varsOf nonGeneric := by
  constructor
  · rintro h ⟨t, ht, hv⟩
    exact h t ht ⟨v, rfl, hv⟩
  · rintro h t ht ⟨w, hw, hv⟩
    cases hw
    exact h ⟨t, ht, hv⟩

theorem ends_copyVar (hs : s.Sound) (hg : ∀ t ∈ nonGeneric, s.Has t) (hN : s.varsOf nonGeneric = N)
    (hi : i < s.sessions.size) (hv : s.Made v) (hc : Copied s₀ i N us m s) :
    Ends (copyVar nonGeneric i v m) s
      (fun p s' => Copy s₀ i N us (.var v) s p.1 p.2 s') never := by
  have hstill := still_isGeneric (var v) nonGeneric s
  rw [copyVar, ends_copying_bind, ends_copying_lift]
  refine ((ends_isGeneric hs hg).and hstill).mono (fun b s₁ h => ?_) fun _ _ h => h.1
  obtain ⟨⟨hk, hb⟩, hst⟩ := h
  rw [isGeneric_iff, hN] at hb
  have hc₁ := hc.quiet hk.toKeeps hst.toSameVars
  cases b with
  | false =>
    have hvN : v ∈ N := by
      by_contra h
      cases hb.2 h
    refine ⟨hk.toKeeps, hc₁.congr (generics_known (.inl hvN)), Store.has_var.2 (hk.made v hv), ?_⟩
    rw [term_var, Term.subst_var, replacement_of_mem hvN]
  | true =>
    have hvN : v ∉ N := hb.1 rfl
    rw [if_pos rfl, ends_copying_get]
    -- a generic var has its replacement in `m` exactly if it has been met
    by_cases hus : v ∈ us
    · have hgen : v ∈ generics N us := mem_generics.2 ⟨hus, hvN⟩
      rw [hc.known v hgen]
      refine ⟨hk.toKeeps, hc₁.congr (generics_known (.inr hus)),
        Store.has_var.2 (hc₁.made_replacement hgen), ?_⟩
      rw [term_var, Term.subst_var, Term.vars_var, replacement_append hus]
    · rw [hc.unknown v fun h => hus (mem_generics.1 h).1, ends_copying_bind, ends_copying_lift]
      have hi₁ : i < s₁.sessions.size := Nat.lt_of_lt_of_le hi hk.sessions
      refine ⟨hk.toKeeps.trans (Store.keeps_pushVar hi₁), hc₁.next hi₁ hvN hus,
        Store.has_var.2 ((Store.made_pushVar hi₁ _).2 (.inr rfl)), ?_⟩
      rw [Term.subst_var, Term.vars_var, ← hc₁.nextVar_eq hvN hus]
      rfl

theorem ends_copyAllWith {onward : Ty → Copying Ty} {copyVar : Var → Copying Ty} {as : List Ty}
    (hs : s.Acyclic)
    (h : ∀ a ∈ as, ∀ us m s', s.Keeps s' → Copied s₀ i N us m s' →
      Ends (copyWith onward copyVar a m) s'
        (fun p s'' => Copy s₀ i N us (s'.resolve a) s' p.1 p.2 s'') never)
    (hc : Copied s₀ i N us m s) (k : Nat) (n : String) :
    Ends (copyAllWith onward copyVar as m) s
      (fun p s' => Copy s₀ i N us (s.resolve (op k n as)) s (op k n p.1) p.2 s') never := by
  induction as generalizing s us m with
  | nil =>
    refine ⟨.refl s, ?_, Store.has_op.2 nofun, ?_⟩
    · rw [Store.resolve_op, Term.vars_op]
      exact (List.append_nil us).symm ▸ hc
    · rw [Store.resolve_op, term_op, Term.subst_op]
      rfl
  | cons a as ih =>
    rw [copyAllWith, ends_copying_bind]
    refine (h a List.mem_cons_self us m s (.refl s) hc).ok_mono fun p s₁ h₁ => ?_
    rw [ends_copying_bind]
    refine (ih (h₁.keeps.acyclic hs) (fun b hb us' m' s' hk => h b (List.mem_cons_of_mem a hb)
      us' m' s' (h₁.keeps.trans hk)) h₁.copied).ok_mono fun q s₂ h₂ => ?_
    have hres : s₁.resolve = s.resolve := funext (h₁.keeps.resolve_eq hs)
    rw [hres, Store.resolve_op] at h₂
    rw [Store.resolve_op, List.map_cons]
    exact h₁.cons h₂

/-- the copy up to bound vars, given one that goes on at a bound var -/
theorem ends_copyWith {onward : Ty → Copying Ty} {fuel : Nat}
    (hon : ∀ (s : Store) (v : Var) us m, s.Sound → s.Ranked rank → s.Made v → rank v ≤ fuel →
      (∃ u, s.binding? v = some u) → Copied s₀ i N us m s →
      Ends (onward (var v) m) s (fun p s' => Copy s₀ i N us (s.value v) s p.1 p.2 s') never)
    (hg : ∀ t ∈ nonGeneric, s₀.Has t) (hN : s₀.varsOf nonGeneric = N)
    (hi : i < s₀.sessions.size) (hs₀ : s₀.Sound) {t : Ty} (hr : s.Ranked rank) (ht : s.Has t)
    (hf : ∀ v ∈ t.term.vars, rank v ≤ fuel) (hc : Copied s₀ i N us m s) :
    Ends (copyWith onward (copyVar nonGeneric i) t m) s
      (fun p s' => Copy s₀ i N us (s.resolve t) s p.1 p.2 s') never := by
  induction t generalizing s us m with
  | var v =>
    have hs := hc.keeps.sound hs₀
    have hv := Store.has_var.1 ht
    rw [copyWith, ends_copying_getThe]
    cases hb : s.binding? v with
    | none =>
      rw [Store.resolve_var, Store.value_of_unbound hb]
      have hN' := (hc.keeps.varsOf_eq hs₀.acyclic nonGeneric).trans hN
      exact ends_copyVar hs (fun t ht => hc.keeps.has_of_has (hg t ht)) hN'
        (Nat.lt_of_lt_of_le hi hc.keeps.sessions) hv hc
    | some u => exact hon s v us m hs hr hv (hf v (List.mem_singleton_self v)) ⟨u, hb⟩ hc
  | op k n as ih =>
    have hs := hc.keeps.sound hs₀
    have hargs : ∀ a ∈ as, ∀ us' m' s', s.Keeps s' → Copied s₀ i N us' m' s' →
        Ends (copyWith onward (copyVar nonGeneric i) a m') s'
          (fun p s'' => Copy s₀ i N us' (s'.resolve a) s' p.1 p.2 s'') never := by
      intro a ha us' m' s' hk hc'
      exact ih a ha (hk.ranked rank hr) (hk.has_of_has (Store.has_op.1 ht a ha))
        (fun v hv => hf v (mem_vars_of_arg ha hv)) hc'
    rw [copyWith, ends_copying_bind]
    refine (ends_copyAllWith hs.acyclic hargs hc k n).ok_mono fun p s₁ h₁ => ?_
    rw [ends_copying_lift]
    exact h₁.remark ((ends_newOp n p.1).ok rfl).2.toKeeps ⟨rfl, fun _ => rfl⟩
  | hole => exact absurd ht Store.not_has_hole

theorem ends_copyWithin (hg : ∀ t ∈ nonGeneric, s₀.Has t) (hN : s₀.varsOf nonGeneric = N)
    (hi : i < s₀.sessions.size) (hs₀ : s₀.Sound) {fuel : Nat} {t : Ty} (hr : s.Ranked rank)
    (ht : s.Has t) (hf : ∀ v ∈ t.term.vars, rank v ≤ fuel) (hc : Copied s₀ i N us m s) :
    Ends (copyWithin (copyVar nonGeneric i) fuel t m) s
      (fun p s' => Copy s₀ i N us (s.resolve t) s p.1 p.2 s') never := by
  induction fuel generalizing s t us m with
  | zero =>
    rw [copyWithin]
    refine ends_copyWith (fun s v us m _ hr _ hv hb => ?_) hg hN hi hs₀ hr ht hf hc
    obtain ⟨u, hb⟩ := hb
    have := hr.pos hb
    omega
  | succ fuel ih =>
    rw [copyWithin]
    refine ends_copyWith (fun s v us m hs hr hm hv hb hc => ?_) hg hN hi hs₀ hr ht hf hc
    obtain ⟨u, hb⟩ := hb
    have hprune := prune_eq hs.acyclic (var v)
    have hk := (quiet_prune hs.acyclic (var v)).toKeeps
    have hsame := ((still_prune (var v) s).ok hprune).toSameVars
    rw [ends_copying_bind, ends_copying_lift, ends_of_ok hprune]
    have hlast := hk.has_of_has (hs.has_last (Store.has_var.2 hm))
    refine (ih (hk.ranked rank hr) hlast (fun w hw => ?_) (hc.quiet hk hsame)).ok_mono
      fun p s₂ h => ?_
    · -- behind a bound var all ranks are smaller, so the fuel that is left is enough
      have := hr.lt_of_mem_last hs.acyclic hb hw
      omega
    · rw [hk.resolve_eq hs.acyclic, hs.acyclic.resolve_last] at h
      exact h.after hk

/-! ## the instance -/

theorem ends_freshInstance_copy (hs : s.Sound) (hg : ∀ t ∈ nonGeneric, s.Has t)
    (hi : i < s.sessions.size) {t : Ty} (ht : s.Has t) :
    Ends (freshInstance t nonGeneric i) s (fun t' s' =>
      ∃ m', Copy s i (s.varsOf nonGeneric) [] (s.resolve t) s t' m' s') never := by
  obtain ⟨rank, hr, hle⟩ := hs.acyclic.exists_rank
  have hc : Copied s i (s.varsOf nonGeneric) [] [] s :=
    ⟨.refl s, rfl, rfl, fun _ _ => rfl, nofun, fun _ _ => rfl⟩
  rw [freshInstance, ends_get]
  exact (ends_copyWithin hg rfl hi hs hr ht (fun v _ => hle v) hc).bind fun p s' h => ⟨p.2, h⟩

/-- `t'` in `s'` is an instance of `t` in `s`: a copy of its resolved form that keeps the vars of
`N` and replaces every other var by a new one of its own -/
structure Instance (s : Store) (N : Set Var) (t t' : Ty) (s' : Store) (ρ : Var → Var) : Prop where
  keeps : s.Keeps s'
  has : s'.Has t'
  keep : ∀ v ∈ N, ρ v = v
  not_made : ∀ v ∈ (s.resolve t).vars, v ∉ N → ¬ s.Made (ρ v)
  inj : ∀ v ∈ (s.resolve t).vars, ∀ v' ∈ (s.resolve t).vars, v ∉ N → v' ∉ N → ρ v = ρ v' → v = v'
  term_eq : t'.term = (s.resolve t).subst fun v => .var (ρ v)

theorem ends_freshInstance (hs : s.Sound) (hg : ∀ t ∈ nonGeneric, s.Has t)
    (hi : i < s.sessions.size) {t : Ty} (ht : s.Has t) :
    Ends (freshInstance t nonGeneric i) s
      (fun t' s' => ∃ ρ, Instance s (s.varsOf nonGeneric) t t' s' ρ) never := by
  refine (ends_freshInstance_copy hs hg hi ht).ok_mono fun t' s' h => ?_
  obtain ⟨m', h⟩ := h
  exact ⟨replacement s i (s.varsOf nonGeneric) (s.resolve t).vars, h.keeps, h.has,
    fun _ => replacement_of_mem, fun _ _ => not_made_replacement,
    fun _ hv _ _ => replacement_inj hv, h.term_eq⟩

end Ty
end LetPoly
