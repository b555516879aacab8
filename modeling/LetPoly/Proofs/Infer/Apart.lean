import LetPoly.Proofs.Infer.Principal

/-!
# A non-generic var that no type in scope has

Which vars of a type are generic depends on the vars of the non-generic types.  So a non-generic var
makes no difference, as long as it is unbound and no type in scope has it: searching it finds
nothing and follows no chain.  Inference takes the very same steps with it and without it
(`infer_inserts`).

* `Inserts v ts ts'`     `ts'` is `ts` with the var `v` somewhere in it;
* `Store.Avoids`         copying a type never comes to `v`;
* `Context.Apart`        no type in scope has `v`, at the start and later.
-/

namespace LetPoly

open StoreM

/-- one list has the var `v` in addition -/
inductive Inserts (v : Var) : List Ty → List Ty → Prop where
  | here (ts : List Ty) : Inserts v ts (.var v :: ts)
  | there (t : Ty) {ts ts' : List Ty} (h : Inserts v ts ts') : Inserts v (t :: ts) (t :: ts')

variable {s t : Store} {ty : Ty} {nonGeneric nonGeneric' : List Ty} {v w : Var} {i : Nat}
  {m : List (Var × Var)}

namespace Ty

/-! ## searching -/

theorem occursIn_unbound (hb : s.binding? v = none) (hne : w ≠ v) :
    occursIn (var w) (var v) s = .ok false s := by
  have hsearch (onward : Ty → StoreM Bool) :
      occursWith onward (var w) (var v) s = .ok (same (var w) (var v)) s := by
    rw [occursWith, get_bind, hb]
    rfl
  have hsame : same (var w) (var v) = false := beq_eq_false_iff_ne.2 hne
  rw [hsame] at hsearch
  rw [occursIn, get_bind]
  cases s.varCount with
  | zero => exact hsearch _
  | succ fuel => exact hsearch _

theorem occursInAny_inserts (h : Inserts v nonGeneric nonGeneric') (hs : s.Sound)
    (hg : ∀ u ∈ nonGeneric, s.Has u) (hb : s.binding? v = none) (hne : w ≠ v) :
    occursInAny (var w) nonGeneric' s = occursInAny (var w) nonGeneric s := by
  induction h generalizing s with
  | here ts =>
    rw [occursInAny, bind_of_ok (occursIn_unbound hb hne)]
    rfl
  | there u h ih =>
    obtain ⟨hu, hg⟩ := List.forall_mem_cons.1 hg
    rw [occursInAny, occursInAny]
    refine (ends_occursIn hs hu).bind_congr rfl ?_
    rintro b t ⟨hq, -⟩
    cases b with
    | true => rfl
    | false =>
      exact ih (hq.sound hs) (fun u hu => hq.has_of_has (hg u hu)) ((hq.bound v).2 hb)

theorem isGeneric_inserts (h : Inserts v nonGeneric nonGeneric') (hs : s.Sound)
    (hg : ∀ u ∈ nonGeneric, s.Has u) (hb : s.binding? v = none) (hne : w ≠ v) :
    isGeneric (var w) nonGeneric' s = isGeneric (var w) nonGeneric s :=
  (ends_occursInAny hs hg).bind_congr (occursInAny_inserts h hs hg hb hne) fun _ _ _ => rfl

end Ty

/-! ## copying -/

/-- copying a type of the store never comes to the unbound var `v` -/
structure Store.Avoids (s : Store) (v : Var) (nonGeneric : List Ty) (i : Nat) (ty : Ty) : Prop where
  sound : s.Sound
  nonGeneric : ∀ u ∈ nonGeneric, s.Has u
  session_lt : i < s.sessions.size
  unbound : s.binding? v = none
  has : s.Has ty
  not_mem : v ∉ (s.resolve ty).vars

theorem Store.Avoids.keeps (h : s.Avoids v nonGeneric i ty) (hk : s.Keeps t) :
    t.Avoids v nonGeneric i ty where
  sound := hk.sound h.sound
  nonGeneric u hu := hk.has_of_has (h.nonGeneric u hu)
  session_lt := h.session_lt.trans_le hk.sessions
  unbound := (hk.bound v).2 h.unbound
  has := hk.has_of_has h.has
  not_mem := by
    rw [hk.resolve_eq h.sound.acyclic]
    exact h.not_mem

theorem Store.Avoids.arg {k : Nat} {n : String} {as : List Ty} {a : Ty}
    (h : s.Avoids v nonGeneric i (.op k n as)) (ha : a ∈ as) : s.Avoids v nonGeneric i a :=
  { h with
    has := has_op.1 h.has a ha
    not_mem := fun hv => h.not_mem <| by
      rw [resolve_op, Term.mem_vars_op]
      exact ⟨_, List.mem_map_of_mem ha, hv⟩ }

namespace Ty

/-- two copies take the same steps from `s`, which change no meaning -/
structure CopiedAlike {α : Type} (copy copy' : Copying α) (m : List (Var × Var)) (s : Store) :
    Prop where
  run_eq : copy' m s = copy m s
  keeps : Ends (copy m) s (fun _ t => s.Keeps t) fun _ _ => True

namespace CopiedAlike

variable {α β : Type} {copy copy' : Copying α} {k k' : α → Copying β}

theorem bind (h : CopiedAlike copy copy' m s)
    (hk : ∀ (p : α × List (Var × Var)) t, s.Keeps t → CopiedAlike (k p.1) (k' p.1) p.2 t) :
    CopiedAlike (copy >>= k) (copy' >>= k') m s where
  run_eq := h.keeps.bind_congr h.run_eq fun p t hkeeps => (hk p t hkeeps).run_eq
  keeps := ends_copying_bind.2 <| h.keeps.ok_mono fun p t hkeeps =>
    (hk p t hkeeps).keeps.ok_mono fun _ _ hkeeps' => hkeeps.trans hkeeps'

theorem step {act act' : StoreM α} (hrun : act' s = act s)
    (h : Ends act s (fun _ t => s.Keeps t) fun _ _ => True) :
    CopiedAlike (liftM act) (liftM act') m s where
  run_eq := h.bind_congr hrun fun _ _ _ => rfl
  keeps := ends_copying_lift.2 h

theorem after_ok {act : StoreM α} {a : α} (hact : act s = .ok a t) (hk : s.Keeps t)
    (h : CopiedAlike (k a) (k' a) m t) :
    CopiedAlike (liftM act >>= k) (liftM act >>= k') m s := by
  have hlift : (liftM act : Copying α) m s = .ok (a, m) t := bind_of_ok hact _
  have hrun (k : α → Copying β) : (liftM act >>= k) m s = k a m t :=
    bind_of_ok hlift fun p => k p.1 p.2
  refine ⟨by rw [hrun, hrun, h.run_eq], ?_⟩
  exact ends_copying_bind.2 ((ends_of_ok hlift).2 (h.keeps.ok_mono fun _ _ => hk.trans))

theorem getThe {k k' : Store → Copying α} (h : CopiedAlike (k s) (k' s) m s) :
    CopiedAlike (MonadStateOf.get >>= k) (MonadStateOf.get >>= k') m s := ⟨h.run_eq, h.keeps⟩

theorem pure (a : α) : CopiedAlike (Pure.pure a) (Pure.pure a) m s := ⟨rfl, .refl s⟩

end CopiedAlike

theorem copyVar_inserts (h : Inserts v nonGeneric nonGeneric')
    (ha : s.Avoids v nonGeneric i (var w)) (hb : s.binding? w = none) (m : List (Var × Var)) :
    CopiedAlike (copyVar nonGeneric i w) (copyVar nonGeneric' i w) m s := by
  have hne : w ≠ v := by
    have hmem := ha.not_mem
    rw [Store.resolve_var, Store.value_of_unbound hb, Term.vars_var, List.mem_singleton] at hmem
    exact Ne.symm hmem
  have hsearch : Ends (isGeneric (var w) nonGeneric) s (fun _ t => s.Keeps t) fun _ _ => True :=
    ((ends_isGeneric ha.sound ha.nonGeneric).ok_mono fun _ _ h => h.1.toKeeps).safe
  refine (CopiedAlike.step (isGeneric_inserts h ha.sound ha.nonGeneric ha.unbound hne)
    hsearch).bind fun p t hk => ?_
  have hnew : Ends (newVar i) t (fun _ u => t.Keeps u) fun _ _ => True :=
    ((ends_newVar (ha.keeps hk).session_lt).ok_mono fun _ _ hv => hv.keeps).safe
  refine ⟨rfl, ?_⟩
  cases p.1 with
  | false => exact .refl t
  | true =>
    rw [if_pos rfl, ends_copying_get]
    cases p.2.lookup w with
    | some u => exact .refl t
    | none => exact ends_copying_bind.2 (ends_copying_lift.2 hnew)

/-- the copy up to bound vars, given one that goes on at a bound var -/
theorem copyWith_inserts {onward onward' : Ty → Copying Ty} (h : Inserts v nonGeneric nonGeneric')
    (hon : ∀ s w m, s.Avoids v nonGeneric i (var w) →
      CopiedAlike (onward (var w)) (onward' (var w)) m s)
    (ha : s.Avoids v nonGeneric i ty) (m : List (Var × Var)) :
    CopiedAlike (copyWith onward (copyVar nonGeneric i) ty)
      (copyWith onward' (copyVar nonGeneric' i) ty) m s := by
  induction ty generalizing s m with
  | var w =>
    rw [copyWith, copyWith]
    refine .getThe ?_
    cases hb : s.binding? w with
    | none => exact copyVar_inserts h ha hb m
    | some u => exact hon s w m ha
  | op k n as ih =>
    rw [copyWith, copyWith]
    have hall : CopiedAlike (copyAllWith onward (copyVar nonGeneric i) as)
        (copyAllWith onward' (copyVar nonGeneric' i) as) m s := by
      have hargs : ∀ a ∈ as, s.Avoids v nonGeneric i a := fun a => ha.arg
      clear ha
      induction as generalizing s m with
      | nil => exact .pure []
      | cons a as ihas =>
        obtain ⟨hhead, htail⟩ := List.forall_mem_cons.1 hargs
        rw [copyAllWith, copyAllWith]
        refine (ih a List.mem_cons_self hhead m).bind fun p t hk => ?_
        have hrest := ihas (fun b hb => ih b (List.mem_cons_of_mem a hb)) p.2
          fun b hb => (htail b hb).keeps hk
        exact hrest.bind fun q u _ => .pure _
    refine hall.bind fun p t hk => .step rfl ?_
    exact ((ends_newOp n p.1).ok_mono fun _ _ h => h.2.toKeeps).safe
  | hole => exact absurd ha.has Store.not_has_hole

theorem copyWithin_inserts (h : Inserts v nonGeneric nonGeneric') (fuel : Nat)
    (ha : s.Avoids v nonGeneric i ty) (m : List (Var × Var)) :
    CopiedAlike (copyWithin (copyVar nonGeneric i) fuel ty)
      (copyWithin (copyVar nonGeneric' i) fuel ty) m s := by
  induction fuel generalizing s ty m with
  | zero =>
    rw [copyWithin, copyWithin]
    refine copyWith_inserts h (fun s w m _ => ⟨rfl, ?_⟩) ha m
    show Ends (throw .endlessChain : StoreM (Ty × List (Var × Var))) s _ _
    exact trivial
  | succ fuel ih =>
    rw [copyWithin, copyWithin]
    refine copyWith_inserts h (fun s w m ha => ?_) ha m
    have hk := (quiet_prune ha.sound.acyclic (var w)).toKeeps
    refine .after_ok (prune_eq ha.sound.acyclic (var w)) hk (ih (.keeps ?_ hk) m)
    have hmem := ha.not_mem
    rw [← ha.sound.acyclic.resolve_last] at hmem
    exact { ha with
      has := ha.sound.has_last ha.has
      not_mem := hmem }

theorem freshInstance_inserts (h : Inserts v nonGeneric nonGeneric')
    (ha : s.Avoids v nonGeneric i ty) :
    freshInstance ty nonGeneric' i s = freshInstance ty nonGeneric i s := by
  have hrun := (copyWithin_inserts h s.varCount ha []).run_eq
  show EStateM.map _ _ s = EStateM.map _ _ s
  rw [EStateM.map, EStateM.map, hrun]

end Ty

/-! ## inferring -/

/-- `v` is an unbound var of the store, and no type in scope has it -/
structure Context.Apart (Γ : Context) (s : Store) (v : Var) : Prop where
  made : s.Made v
  unbound : s.binding? v = none
  not_mem : ∀ x ty, Γ.scope.get? x = some ty → v ∉ (s.resolve ty).vars

namespace Context.Apart

variable {Γ : Context} {x : String}

theorem not_mem_free (h : Γ.Apart s v) : v ∉ (Γ.env s).freeVars := by
  intro hv
  obtain ⟨-, x, ty, hx, hmem⟩ := Context.mem_freeVars_env.1 hv
  exact h.not_mem x ty hx hmem

/-- steps that bind free vars and new ones leave `v` apart -/
theorem later (h : Γ.Apart s v) (hΓ : Γ.Usable i s) (hb : Binds (Γ.env s).freeVars s t) :
    Γ.Apart t v where
  made := hb.grows.made v h.made
  unbound := (hb.touches v h.made h.unbound).1 h.not_mem_free
  not_mem x ty hx := by
    have hsub : s.orNew (Γ.env s).freeVars ⊆ {w | w ≠ v} := fun w hw heq =>
      h.not_mem_free (heq ▸ hw (heq ▸ h.made))
    have hvars : ∀ w ∈ (s.resolve ty).vars, w ∈ {w | w ≠ v} := fun w hw heq =>
      h.not_mem x ty hx (heq ▸ hw)
    intro hv
    have hty := hΓ.within.scope x ty hx
    exact hb.touches.mem_resolve hb.grows hΓ.sound hty hsub hvars v hv rfl

theorem keeps (h : Γ.Apart s v) (hs : s.Sound) (hk : s.Keeps t) : Γ.Apart t v where
  made := hk.made v h.made
  unbound := (hk.bound v).2 h.unbound
  not_mem x ty hx := by
    rw [hk.resolve_eq hs.acyclic]
    exact h.not_mem x ty hx

theorem bindGeneric (h : Γ.Apart s v) (x : String) (hty : v ∉ (s.resolve ty).vars) :
    (Γ.bindGeneric x ty).Apart s v where
  made := h.made
  unbound := h.unbound
  not_mem y u hy := by
    rw [Context.bindGeneric, Scope.get?_extend] at hy
    split at hy
    · cases hy
      exact hty
    · exact h.not_mem y u hy

/-- a type over free vars and new ones does not have `v` -/
theorem not_mem_of_over (h : Γ.Apart s v) (ho : Over (Γ.env s).freeVars s t ty) :
    v ∉ (t.resolve ty).vars := fun hv => h.not_mem_free (ho.vars v hv h.made)

theorem bindFixed (h : Γ.Apart s v) (hs : s.Sound) (hw : Fresh s t w) (x : String) :
    (Γ.bindFixed x (.var w)).Apart t v := by
  have hnew : v ∉ (t.resolve (.var w)).vars := by
    rw [Store.resolve_var, Store.value_of_unbound hw.unbound, Term.vars_var, List.mem_singleton]
    rintro rfl
    exact hw.not_made h.made
  have hΓ := (h.keeps hs hw.keeps).bindGeneric x hnew
  exact ⟨hΓ.made, hΓ.unbound, hΓ.not_mem⟩

end Context.Apart

/-- a non-generic var apart from the scope makes no difference to inference -/
theorem infer_inserts {Γ : Context} (e : Expr) (h : Inserts v Γ.nonGeneric nonGeneric')
    (ha : Γ.Apart s v) (hΓ : Γ.Usable i s) :
    e.infer i { Γ with nonGeneric := nonGeneric' } s = e.infer i Γ s := by
  induction e generalizing Γ nonGeneric' s with
  | name x =>
    rw [Expr.infer, Expr.infer]
    cases hx : Γ.scope.get? x with
    | none => rfl
    | some ty =>
      exact Ty.freshInstance_inserts h ⟨hΓ.sound, hΓ.within.nonGeneric, hΓ.session_lt, ha.unbound,
        hΓ.within.scope x ty hx, ha.not_mem x ty hx⟩
  | fn p body ih =>
    rw [Expr.infer, Expr.infer]
    -- the new var for the parameter is another one, and is non-generic in both runs
    refine (ends_newVar hΓ.session_lt).bind_congr rfl fun w t hw => ?_
    have hΓ₁ := hΓ.bindFixed p hw
    refine (hΓ₁.infers body).bind_congr ?_ fun _ _ _ => rfl
    exact ih (.there _ h) (ha.bindFixed hΓ.sound hw p) hΓ₁
  | app func arg ihf iha =>
    rw [Expr.infer, Expr.infer]
    refine (hΓ.infers func).bind_congr (ihf h ha hΓ) fun f t hf => ?_
    have hΓ₁ := hΓ.later hf.binds.grows
    exact (hΓ₁.infers arg).bind_congr (iha h (ha.later hΓ hf.binds) hΓ₁) fun _ _ _ => rfl
  | letIn x value body ihv ihb =>
    rw [Expr.infer, Expr.infer]
    refine (hΓ.infers value).bind_congr (ihv h ha hΓ) fun u t hu => ?_
    -- the type of the value is over the free vars of the scope and new ones, so without `v`
    have ha₁ := (ha.later hΓ hu.binds).bindGeneric x (ha.not_mem_of_over hu.result)
    have h₁ : Inserts v (Γ.bindGeneric x u).nonGeneric nonGeneric' := h
    exact ihb h₁ ha₁ ((hΓ.later hu.binds.grows).bindGeneric x hu.result.has)
  | letRec x value body ihv ihb =>
    rw [Expr.infer, Expr.infer]
    refine (ends_newVar hΓ.session_lt).bind_congr rfl fun w t₁ hw => ?_
    have hΓ₁ := hΓ.bindFixed x hw
    have ha₁ := ha.bindFixed hΓ.sound hw x
    refine (hΓ₁.infers value).bind_congr (ihv (.there _ h) ha₁ hΓ₁) fun u t₂ hu => ?_
    have hg₂ := hu.binds.grows
    have hself : t₂.Has (.var w) := Store.has_var.2 (hg₂.made w hw.made)
    refine (Ty.ends_unify hg₂.sound hself hu.result.has).bind_congr rfl fun _ t₃ hn => ?_
    have hrec := rec_binds hΓ.sound hw hu hn.toNarrows
    have hΓ₃ := hΓ.later ((hw.keeps.grows hΓ.sound).trans hrec.grows)
    have ha₃ := ha₁.later hΓ₁ hrec
    have h₃ : Inserts v (Γ.bindGeneric x (.var w)).nonGeneric nonGeneric' := h
    exact ihb h₃ ⟨ha₃.made, ha₃.unbound, ha₃.not_mem⟩
      (hΓ₃.bindGeneric x (Store.has_var.2 (hrec.grows.made w hw.made)))

end LetPoly
