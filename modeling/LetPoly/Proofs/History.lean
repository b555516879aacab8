import LetPoly.Examples
import LetPoly.Proofs.Analyser
import LetPoly.Proofs.Inference
import LetPoly.Proofs.Scope
import LetPoly.Proofs.Store.Render

/-!
# Whole runs

A store without vars is acyclic, and every operation keeps it so, also one that fails halfway: see
`grows_after` for a single step and `Reached.sound` for a run.  No step takes a binding back.  What
was equal stays equal, and a bound var leads to the same end as what it was bound to before.
-/

namespace LetPoly

open StoreM

/-- the operations on a store, each with its arguments -/
inductive Op where
  | newSession (first : String)
  | newVar (session : Nat)
  | newOp (name : String) (args : List Ty)
  | standardScope (session : Nat)
  | prune (t : Ty)
  | occursIn (sought t : Ty)
  | fresh (t : Ty) (nonGeneric : List Ty) (session : Nat)
  | unify (left right : Ty)
  | render (t : Ty)
  | inferType (e : Expr) (scope : Scope Ty) (session : Option Nat)
  | analyse (analyser : Analyser) (e : Expr) (Γ : Context)

/-- the store that an analyser leaves behind, whether it returns or fails -/
def AnalyserM.after {α : Type} (act : AnalyserM α) (a : Analyser) (s : Store) : Store :=
  match act (a, s) with
  | .ok _ (_, s') => s'
  | .error _ (_, s') => s'

namespace Op

/-- the store that an operation leaves behind, whether it returns or fails -/
def after (s : Store) : Op → Store
  | newSession first => StoreM.after (StoreM.newSession first) s
  | newVar session => StoreM.after (StoreM.newVar session) s
  | newOp name args => StoreM.after (StoreM.newOp name args) s
  | standardScope session => StoreM.after (LetPoly.standardScope session) s
  | prune t => StoreM.after t.prune s
  | occursIn sought t => StoreM.after (Ty.occursIn sought t) s
  | fresh t nonGeneric session => StoreM.after (t.freshInstance nonGeneric session) s
  | unify left right => StoreM.after (Ty.unify left right) s
  | render t => StoreM.after t.render s
  | inferType e scope session => StoreM.after (e.inferType scope session) s
  | analyse analyser e Γ => (AnalyserM.analyse e Γ).after analyser s

/-- the store has all sessions and types that an operation is given -/
def Within (s : Store) : Op → Prop
  | newSession _ => True
  | newVar session => session < s.sessions.size
  | newOp _ args => ∀ t ∈ args, s.Has t
  | standardScope session => session < s.sessions.size
  | prune t => s.Has t
  | occursIn sought t => s.Has sought ∧ s.Has t
  | fresh t nonGeneric session =>
    s.Has t ∧ (∀ u ∈ nonGeneric, s.Has u) ∧ session < s.sessions.size
  | unify left right => s.Has left ∧ s.Has right
  | render t => s.Has t
  | inferType _ scope session => scope.Within s ∧ ∀ i ∈ session, i < s.sessions.size
  | analyse analyser _ Γ => Γ.Within s ∧ analyser.session < s.sessions.size

end Op

/-- the stores that runs lead to, from stores without any vars -/
inductive Reached : Store → Prop where
  | start {s : Store} (h : ∀ v, ¬ s.Made v) : Reached s
  | step {s : Store} {o : Op} (h : Reached s) (ho : o.Within s) : Reached (o.after s)

variable {s s' : Store} {o : Op}

/-! ## the standard scope -/

theorem ends_newVar_has {s₀ : Store} {ts : List Ty} {i : Nat} (hi : i < s₀.sessions.size)
    (hk : s₀.Keeps s) (hts : ∀ t ∈ ts, s.Has t) :
    Ends (newVar i) s (fun v s' => s₀.Keeps s' ∧ ∀ t ∈ .var v :: ts, s'.Has t) never := by
  refine (ends_newVar (hi.trans_le hk.sessions)).ok_mono fun v s' hv => ?_
  refine ⟨hk.trans hv.keeps, List.forall_mem_cons.2 ⟨Store.has_var.2 hv.made, fun t ht => ?_⟩⟩
  exact hv.keeps.has_of_has (hts t ht)

theorem ends_newOp_has {s₀ : Store} {ts as : List Ty} (n : String) (hk : s₀.Keeps s)
    (hts : ∀ t ∈ ts, s.Has t) (has : ∀ a ∈ as, a ∈ ts) :
    Ends (newOp n as) s (fun u s' => s₀.Keeps s' ∧ ∀ t ∈ u :: ts, s'.Has t) never := by
  refine (ends_newOp n as).ok_mono fun u s' ⟨hu, hq⟩ => ?_
  refine ⟨hk.trans hq.toKeeps, List.forall_mem_cons.2 ⟨?_, fun t ht => hq.has_of_has (hts t ht)⟩⟩
  rw [hu, Store.has_op]
  exact fun a ha => hq.has_of_has (hts a (has a ha))

theorem ends_standardScope_within {session : Nat} (hi : session < s.sessions.size) :
    Ends (standardScope session) s (fun scope s' => s.Keeps s' ∧ scope.Within s') never := by
  have hconst : ∀ t ∈ [Ty.bool, Ty.int], s.Has t := by
    simp [Ty.bool, Ty.int, Store.has_op]
  rw [standardScope]
  -- three vars, then the operators of `pair`, `cond`, `zero`, `pred` and `times`
  refine (ends_newVar_has hi (.refl s) hconst).bind fun v₁ _ ⟨hk, h⟩ => ?_
  refine (ends_newVar_has hi hk h).bind fun v₂ _ ⟨hk, h⟩ => ?_
  refine (ends_newVar_has hi hk h).bind fun v₃ _ ⟨hk, h⟩ => ?_
  refine (ends_newOp_has _ hk h (by simp)).bind fun _ _ ⟨hk, h⟩ => ?_
  refine (ends_newOp_has _ hk h (by simp)).bind fun _ _ ⟨hk, h⟩ => ?_
  refine (ends_newOp_has _ hk h (by simp)).bind fun _ _ ⟨hk, h⟩ => ?_
  refine (ends_newOp_has _ hk h (by simp)).bind fun _ _ ⟨hk, h⟩ => ?_
  refine (ends_newOp_has _ hk h (by simp)).bind fun _ _ ⟨hk, h⟩ => ?_
  refine (ends_newOp_has _ hk h (by simp)).bind fun _ _ ⟨hk, h⟩ => ?_
  refine (ends_newOp_has _ hk h (by simp)).bind fun _ _ ⟨hk, h⟩ => ?_
  refine (ends_newOp_has _ hk h (by simp)).bind fun _ _ ⟨hk, h⟩ => ?_
  refine (ends_newOp_has _ hk h (by simp)).bind fun _ _ ⟨hk, h⟩ => ?_
  refine (ends_newOp_has _ hk h (by simp)).bind fun _ _ ⟨hk, h⟩ => ?_
  refine ⟨hk, fun x t hx => h t ?_⟩
  have hmem := Scope.mem_of_get?_ofList hx
  simp only [List.mem_cons, Prod.mk.injEq, List.not_mem_nil, or_false] at hmem
  rcases hmem with ⟨-, rfl⟩ | ⟨-, rfl⟩ | ⟨-, rfl⟩ | ⟨-, rfl⟩ | ⟨-, rfl⟩ | ⟨-, rfl⟩ <;> simp

theorem ends_standardScope {session : Nat} (hi : session < s.sessions.size) :
    Ends (standardScope session) s (fun _ s' => s.Keeps s') never :=
  (ends_standardScope_within hi).ok_mono fun _ _ h => h.1

/-! ## single steps -/

theorem after_analyse (e : Expr) (Γ : Context) (a : Analyser) (s : Store) :
    (AnalyserM.analyse e Γ).after a s = StoreM.after (e.infer a.session Γ) s := by
  rw [AnalyserM.after, analyse_eq, StoreM.after]
  cases e.infer a.session Γ s <;> rfl

/-- no operation takes a binding back or closes a circle, whether it returns or fails -/
theorem grows_after (hs : s.Sound) (ho : o.Within s) : s.Grows (o.after s) := by
  cases o with
  | newSession first =>
    refine Ends.after ((ends_newSession first).mono (fun _ _ h => h.1.grows hs) ?_)
    rintro _ _ rfl
    exact .refl hs
  | newVar session => exact (ends_newVar ho).safe_after fun _ _ h => h.keeps.grows hs
  | newOp n args => exact (ends_newOp n args).safe_after fun _ _ h => h.2.grows hs
  | standardScope session => exact (ends_standardScope ho).safe_after fun _ _ h => h.grows hs
  | prune t => exact (Ty.ends_prune hs.acyclic t).safe_after fun _ _ h => h.2.grows hs
  | occursIn sought t => exact (Ty.ends_occursIn hs ho.2).safe_after fun _ _ h => h.1.grows hs
  | fresh t nonGeneric session =>
    obtain ⟨ht, hg, hi⟩ := ho
    exact (Ty.ends_freshInstance hs hg hi ht).safe_after fun _ _ ⟨_, h⟩ => h.keeps.grows hs
  | unify left right =>
    exact ((Ty.ends_unify hs ho.1 ho.2).mono (fun _ _ h => h.grows) fun _ _ h => h.grows).after
  | render t =>
    exact ((Ty.ends_render hs ho).mono (fun _ _ h => h.grows hs) fun _ _ h => h.2.1.grows hs).after
  | inferType e scope session =>
    exact ((ends_inferType hs ho.1 ho.2).mono (fun _ _ h => h.1.grows) fun _ _ h => h.1.grows).after
  | analyse a e Γ =>
    rw [Op.after, after_analyse]
    have h := infers e hs ho.1 ho.2
    exact (h.mono (fun _ _ h => h.binds.grows) fun _ _ h => h.binds.grows).after

/-! ## runs -/

theorem Reached.sound (h : Reached s) : s.Sound := by
  induction h with
  | @start s h =>
    have hnone : ∀ v, s.binding? v = none := fun v => Store.binding?_of_not_made (h v)
    have hranked : s.Ranked fun _ => 0 := fun v t ht => by rw [hnone v] at ht; cases ht
    exact ⟨hranked.acyclic, fun v t ht => by rw [hnone v] at ht; cases ht⟩
  | step _ ho ih => exact (grows_after ih ho).sound

/-- bindings are kept: they may only be made, and their chains cut short -/
structure Monotone (s s' : Store) : Prop where
  bound : ∀ v, s.binding? v ≠ none → s'.binding? v ≠ none
  equal : ∀ t u, s.resolve t = s.resolve u → s'.resolve t = s'.resolve u
  /-- a bound var leads to where the type that it was bound to leads -/
  target : ∀ v t, s.binding? v = some t → s'.last (.var v) = s'.last t

theorem Store.Grows.monotone (h : s.Grows s') (hs : s.Sound) : Monotone s s' where
  bound v hv hv' := hv (h.unbound v hv')
  equal _ _ htu := h.resolve_congr hs.acyclic htu
  target v t ht := by
    have hlast : s.last (.var v) = s.last t := hs.acyclic.last_eq (Store.leads_var ht .refl)
    rw [h.last (.var v), hlast, ← h.last t]

/-- a store that a run has reached is acyclic, and every further step keeps its bindings -/
theorem reached_acyclic_monotone (h : Reached s) :
    s.Acyclic ∧ ∀ o : Op, o.Within s → Monotone s (o.after s) :=
  ⟨h.sound.acyclic, fun _ ho => (grows_after h.sound ho).monotone h.sound⟩

/-- three vars, and the first of them bound to an operator over the second and the third -/
def pairStore : Store :=
  Op.after (Op.after (Op.after (Op.after (Op.after {} (.newSession "α")) (.newVar 0)) (.newVar 0))
    (.newVar 0)) (.unify (.var ⟨0, 0⟩) (.op 2 Ty.pairName [.var ⟨0, 1⟩, .var ⟨0, 2⟩]))

theorem reached_pairStore : Reached pairStore := by
  have h₀ : Reached {} := .start fun v => Nat.not_lt_zero v.id
  refine .step (.step (.step (.step (.step h₀ trivial) ?_) ?_) ?_) ⟨⟨rfl, ?_⟩, rfl, ?_⟩
  · exact Nat.zero_lt_one
  · exact Nat.zero_lt_one
  · exact Nat.zero_lt_one
  · decide +kernel
  · decide +kernel

/-- two types whose first arguments can be equal, but not whose second ones -/
def circleLeft : Ty := .op 3 Ty.funcName [.var ⟨0, 1⟩, .var ⟨0, 0⟩]

def circleRight : Ty := .op 4 Ty.funcName [.int, .var ⟨0, 2⟩]

/-- unification that finds a circle after it has bound another var -/
theorem reached_acyclic_monotone_of_circle :
    Ends (Ty.unify circleLeft circleRight) pairStore (fun _ _ => False) (fun _ _ => True) ∧
      ((Op.unify circleLeft circleRight).after pairStore).binding? ⟨0, 1⟩ ≠ none ∧
      pairStore.Acyclic ∧
      Monotone pairStore ((Op.unify circleLeft circleRight).after pairStore) := by
  obtain ⟨hacyclic, hstep⟩ := reached_acyclic_monotone reached_pairStore
  have ho : (Op.unify circleLeft circleRight).Within pairStore :=
    ⟨⟨rfl, by decide +kernel⟩, rfl, by decide +kernel⟩
  exact ⟨by decide +kernel, by decide +kernel, hacyclic, hstep _ ho⟩

end LetPoly
