import LetPoly.Proofs.Parallel.Steps
import LetPoly.Proofs.Store.Instance

/-!
# Copies in two runs

A copy replaces the same vars in both runs, so the tables of replacements correspond entry by entry
(`Renaming.table`).  The copies are compared by recursion on the fuel of the first run; a run
without fuel left counts as out, and `inStep_freshInstance` has none of those.
-/

namespace LetPoly

open StoreM Store Ty

def Renaming.table (r : Renaming) (m : List (Var × Var)) : List (Var × Var) :=
  m.map fun p => (r.var p.1, r.var p.2)

variable {r : Renaming} {out : Failure → Prop} {s s' t t' : Store} {ty ty' : Ty} {v : Var}
  {m m' : List (Var × Var)}

theorem Renaming.lookup_table (r : Renaming) (m : List (Var × Var)) (v : Var) :
    (r.table m).lookup (r.var v) = (m.lookup v).map r.var := by
  induction m with
  | nil => rfl
  | cons p m ih =>
    obtain ⟨u, w⟩ := p
    by_cases h : v = u
    · subst h
      rw [lookup_cons_self, Option.map_some]
      exact lookup_cons_self _ _ _
    · rw [lookup_cons_of_ne h, ← ih]
      exact lookup_cons_of_ne (fun heq => h (r.injective heq)) _ _

/-! ## steps of two copies -/

def Renaming.MapsCopy (r : Renaming) (p p' : Ty × List (Var × Var)) (_ _ : Store) : Prop :=
  r.Maps p.1 p'.1 ∧ p'.2 = r.table p.2

theorem InStep.copying_bind {α β γ δ : Type} {act : Copying α} {act' : Copying β}
    {k : α → Copying γ} {k' : β → Copying δ}
    {X : α × List (Var × Var) → β × List (Var × Var) → Store → Store → Prop}
    {Z : γ × List (Var × Var) → δ × List (Var × Var) → Store → Store → Prop}
    (h : InStep r out (act m) s (act' m') s' X)
    (hk : ∀ p p' t t', Advance r s t t' → X p p' t t' →
      InStep r out (k p.1 p.2) t (k' p'.1 p'.2) t' Z) :
    InStep r out ((act >>= k) m) s ((act' >>= k') m') s' Z := h.bind hk

theorem InStep.copying_step {α β : Type} {act : StoreM α} {act' : StoreM β}
    {X : α → β → Store → Store → Prop} (h : InStep r out act s act' s' X) :
    InStep r out ((liftM act : Copying α) m) s ((liftM act' : Copying β) m') s'
      fun p p' t t' => (p.2 = m ∧ p'.2 = m') ∧ X p.1 p'.1 t t' :=
  h.bind fun _ _ _ _ hadv hX => .pure hadv.parallel ⟨⟨rfl, rfl⟩, hX⟩

theorem InStep.copying_lift {α β γ δ : Type} {act : StoreM α} {act' : StoreM β}
    {k : α → Copying γ} {k' : β → Copying δ} {X : α → β → Store → Store → Prop}
    {Z : γ × List (Var × Var) → δ × List (Var × Var) → Store → Store → Prop}
    (h : InStep r out act s act' s' X)
    (hk : ∀ a b t t', Advance r s t t' → X a b t t' →
      InStep r out (k a m) t (k' b m') t' Z) :
    InStep r out (((liftM act : Copying α) >>= k) m) s
      (((liftM act' : Copying β) >>= k') m') s' Z := by
  refine h.copying_step.copying_bind fun p p' t t' hadv ⟨⟨hm, hm'⟩, hX⟩ => ?_
  rw [hm, hm']
  exact hk p.1 p'.1 t t' hadv hX

theorem InStep.copying_get {α β : Type} {k : List (Var × Var) → Copying α}
    {k' : List (Var × Var) → Copying β}
    {Z : α × List (Var × Var) → β × List (Var × Var) → Store → Store → Prop}
    (h : InStep r out (k m m) s (k' m' m') s' Z) :
    InStep r out ((get >>= k) m) s ((get >>= k') m') s' Z := h

theorem InStep.copying_getThe {α β : Type} {k : Store → Copying α} {k' : Store → Copying β}
    {Z : α × List (Var × Var) → β × List (Var × Var) → Store → Store → Prop}
    (h : InStep r out (k s m) s (k' s' m') s' Z) :
    InStep r out ((getThe Store >>= k) m) s ((getThe Store >>= k') m') s' Z := h

/-- a session of the run, and types that a copy may share -/
structure Sharing (r : Renaming) (s : Store) (nonGeneric nonGeneric' : List Ty) (i : Nat) :
    Prop where
  maps : List.Forall₂ r.Maps nonGeneric nonGeneric'
  has : ∀ u ∈ nonGeneric, s.Has u
  session_lt : i < s.sessions.size
  own : i ∈ r.own

variable {nonGeneric nonGeneric' : List Ty} {i : Nat}

theorem Sharing.later (h : Sharing r s nonGeneric nonGeneric' i) (hadv : Advance r s t t') :
    Sharing r t nonGeneric nonGeneric' i :=
  ⟨h.maps, fun u hu => hadv.stays.binds.grows.has (h.has u hu),
    h.session_lt.trans_le hadv.stays.binds.grows.sessions, h.own⟩

theorem inStep_copyVar (h : Parallel r s s') (hsh : Sharing r s nonGeneric nonGeneric' i) (v : Var)
    (m : List (Var × Var)) :
    InStep r out (copyVar nonGeneric i v m) s
      (copyVar nonGeneric' (r.session i) (r.var v) (r.table m)) s' r.MapsCopy := by
  refine (inStep_isGeneric h hsh.maps hsh.has v).copying_lift fun b b' t t' hadv (hb : b' = b) => ?_
  subst hb
  cases b' with
  | false => exact .pure hadv.parallel ⟨.var r v, rfl⟩
  | true =>
    rw [if_pos rfl, if_pos rfl]
    refine .copying_get ?_
    rw [r.lookup_table]
    cases m.lookup v with
    | some w => exact .pure hadv.parallel ⟨.var r w, rfl⟩
    | none =>
      have hsh := hsh.later hadv
      refine (inStep_newVar hadv.parallel hsh.session_lt hsh.own).copying_lift ?_
      rintro w w' u u' hadv' ⟨rfl, -⟩
      exact .pure hadv'.parallel ⟨.var r w, rfl⟩

/-- a copy goes on alike at bound vars that correspond -/
def CopiesAlike (r : Renaming) (out : Failure → Prop) (nonGeneric nonGeneric' : List Ty) (i : Nat)
    (copy copy' : Ty → Copying Ty) : Prop :=
  ∀ (s s' : Store) (t t' : Ty) (m : List (Var × Var)), Parallel r s s' →
    Sharing r s nonGeneric nonGeneric' i → r.Maps t t' →
      InStep r out (copy t m) s (copy' t' (r.table m)) s' r.MapsCopy

theorem copiesAlike_with {onward onward' : Ty → Copying Ty}
    (hon : CopiesAlike r out nonGeneric nonGeneric' i onward onward') :
    CopiesAlike r out nonGeneric nonGeneric' i (copyWith onward (copyVar nonGeneric i))
      (copyWith onward' (copyVar nonGeneric' (r.session i))) := by
  intro s s' t t' m h hsh htt'
  induction t generalizing s s' t' m with
  | var v =>
    rw [htt'.of_var, copyWith, copyWith]
    refine .copying_getThe ?_
    have hiff := h.unbound_iff (v := v)
    cases hb : s.binding? v with
    | none =>
      rw [hiff.2 hb]
      exact inStep_copyVar h hsh v m
    | some u =>
      obtain ⟨u', hu'⟩ := Option.ne_none_iff_exists'.1 fun hn => by rw [hiff.1 hn] at hb; cases hb
      rw [hu']
      exact hon s s' _ _ m h hsh (.var r v)
  | op k n as ih =>
    obtain ⟨l, bs, rfl, -, hargs⟩ := htt'.of_op
    have hall : InStep r out (copyAllWith onward (copyVar nonGeneric i) as m) s
        (copyAllWith onward' (copyVar nonGeneric' (r.session i)) bs (r.table m)) s'
        fun p p' _ _ => List.Forall₂ r.Maps p.1 p'.1 ∧ p'.2 = r.table p.2 := by
      clear htt'
      induction hargs generalizing s s' m with
      | nil => exact .pure h ⟨.nil, rfl⟩
      | @cons a b as bs hab _ ihas =>
        rw [copyAllWith, copyAllWith]
        refine (ih a List.mem_cons_self s s' b m h hsh hab).copying_bind ?_
        rintro p p' t t' hadv ⟨hp, hm⟩
        have hsh := hsh.later hadv
        rw [hm]
        refine (ihas (fun a ha => ih a (List.mem_cons_of_mem _ ha)) t t' p.2 hadv.parallel
          hsh).copying_bind ?_
        rintro q q' u u' hadv' ⟨hq, hm'⟩
        exact .pure hadv'.parallel ⟨.cons hp hq, hm'⟩
    rw [copyWith, copyWith]
    refine hall.copying_bind ?_
    rintro p p' t t' hadv ⟨hp, hm⟩
    refine (inStep_newOp hadv.parallel hp).copying_step.mono ?_
    rintro q q' u u' - ⟨⟨hq, hq'⟩, hmaps⟩
    exact ⟨hmaps, by rw [hq, hq', hm]⟩
  | hole => cases htt'.whole

theorem copiesAlike_out_left (copy' : Ty → Copying Ty) :
    CopiesAlike r Endless nonGeneric nonGeneric' i (fun _ => throw .endlessChain) copy' :=
  fun s _ _ _ _ _ _ _ => .out_left (t := s) rfl rfl

theorem copiesAlike_out_right (copy : Ty → Copying Ty) :
    CopiesAlike r Endless nonGeneric nonGeneric' i copy fun _ => throw .endlessChain :=
  fun _ s' _ _ _ _ _ _ => .out_right (u := s') rfl rfl

theorem copiesAlike_within (fuel fuel' : Nat) :
    CopiesAlike r Endless nonGeneric nonGeneric' i (copyWithin (copyVar nonGeneric i) fuel)
      (copyWithin (copyVar nonGeneric' (r.session i)) fuel') := by
  induction fuel generalizing fuel' with
  | zero =>
    intro s s' t t' m h hsh htt'
    cases fuel' with
    | zero => exact copiesAlike_with (copiesAlike_out_left _) s s' t t' m h hsh htt'
    | succ fuel' => exact copiesAlike_with (copiesAlike_out_left _) s s' t t' m h hsh htt'
  | succ fuel ih =>
    intro s s' t t' m h hsh htt'
    cases fuel' with
    | zero => exact copiesAlike_with (copiesAlike_out_right _) s s' t t' m h hsh htt'
    | succ fuel' =>
      refine copiesAlike_with (fun s s' t t' m h hsh htt' => ?_) s s' t t' m h hsh htt'
      refine (inStep_prune h (h.maps_last htt')).copying_lift fun w w' t t' hadv ⟨hw, _⟩ => ?_
      exact ih fuel' t t' w w' m hadv.parallel (hsh.later hadv) hw

/-- a copy looks its type up first, and copies the end of the chain -/
theorem freshInstance_eq (hs : s.Acyclic) (ty : Ty) (nonGeneric : List Ty) (i : Nat) :
    ∃ fuel, ty.freshInstance nonGeneric i s =
      (do (copyWithin (copyVar nonGeneric i) fuel (← ty.prune)).run' [] : StoreM Ty) s := by
  rcases s.ended_or_bound ty with hend | ⟨v, u, rfl, hb⟩
  · refine ⟨s.varCount, ?_⟩
    have hlook : ty.prune s = .ok ty s := pruneWithin_ended hend
    rw [bind_of_ok hlook]
    rfl
  · obtain ⟨rank, hr, hle⟩ := hs.exists_rank
    have hpos := hr.pos hb
    obtain ⟨fuel, hfuel⟩ := Nat.exists_eq_add_of_lt (hpos.trans_le (hle v))
    refine ⟨fuel, ?_⟩
    obtain ⟨s₁, hlook⟩ : ∃ s₁, prune (var v) s = .ok (s.last (var v)) s₁ := ⟨_, prune_eq hs _⟩
    have hlift : (liftM (prune (var v)) : Copying Ty) [] s = .ok (s.last (var v), []) s₁ :=
      bind_of_ok hlook _
    have hget (k : Store → Copying Ty) : (getThe Store >>= k) [] s = k s [] s := rfl
    have hcopy : copyWithin (copyVar nonGeneric i) (fuel + 1) (var v) [] s =
        copyWithin (copyVar nonGeneric i) fuel (s.last (var v)) [] s₁ := by
      rw [copyWithin, copyWith, hget, hb]
      exact bind_of_ok hlift _
    rw [freshInstance, get_bind, hfuel, Nat.zero_add, bind_of_ok hlook]
    show EStateM.map _ _ s = EStateM.map _ _ s₁
    rw [EStateM.map, EStateM.map, hcopy]

theorem inStep_freshInstance (h : Parallel r s s') (hsh : Sharing r s nonGeneric nonGeneric' i)
    (htt' : r.Maps (s.last ty) (s'.last ty')) (hty : s.Has ty) (hty' : s'.Has ty') :
    InStep r (fun _ => False) (ty.freshInstance nonGeneric i) s
      (ty'.freshInstance nonGeneric' (r.session i)) s' fun w w' _ _ => r.Maps w w' := by
  have hcopy : InStep r Endless (ty.freshInstance nonGeneric i) s
      (ty'.freshInstance nonGeneric' (r.session i)) s' fun w w' _ _ => r.Maps w w' := by
    obtain ⟨fuel, hrun⟩ := freshInstance_eq h.sound.acyclic ty nonGeneric i
    obtain ⟨fuel', hrun'⟩ := freshInstance_eq h.sound'.acyclic ty' nonGeneric' (r.session i)
    refine .of_eq hrun hrun' ((inStep_prune h htt').bind fun u u' t t' hadv ⟨hu, _⟩ => ?_)
    refine (copiesAlike_within fuel fuel' t t' u u' [] hadv.parallel (hsh.later hadv) hu).bind ?_
    intro p p' w w' hadv' ⟨hp, _⟩
    exact .pure hadv'.parallel hp
  refine hcopy.strict ?_ ?_
  · have hends := ends_freshInstance h.sound hsh.has hsh.session_lt hty
    exact (hends.ok_mono fun _ _ _ => trivial).safe
  · refine ((ends_freshInstance h.sound' (h.forall₂_has hsh.maps hsh.has) ?_ hty').ok_mono
      fun _ _ _ => trivial).safe
    exact h.session_lt i hsh.session_lt

end LetPoly
