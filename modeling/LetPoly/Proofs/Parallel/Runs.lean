import LetPoly.Proofs.Parallel.Operations

/-!
# Whole runs, side by side

A run is a list of calls, and it goes on after a call that fails.  From stores that differ only in
their chains, a run gives the same answers and leaves such stores behind (`Parallel.run`).  With one
store on both sides, this is what a run leaves alone (`stays_run`).
-/

namespace LetPoly

open StoreM Store

/-- what a run is made of: operations on the store, and checks of expressions -/
inductive Call where
  | op (o : Op)
  | check (exampleName : String) (e : Expr) (scope : Scope Ty) (format : Format)
    (session : Option Nat)

namespace Call

def perform : Call → StoreM Answer
  | op o => o.perform
  | check x e scope format session => return .text (← e.check x scope format session)

/-- the store has all sessions and types that a call is given -/
def Within (s : Store) : Call → Prop
  | op o => o.Within s
  | check _ _ scope _ session => scope.Within s ∧ ∀ i ∈ session, i < s.sessions.size

def after (s : Store) (c : Call) : Store := StoreM.after c.perform s

def AllWithin (s : Store) : List Call → Prop
  | [] => True
  | c :: cs => c.Within s ∧ AllWithin (c.after s) cs

def answers (s : Store) : List Call → List (Except Failure Answer)
  | [] => []
  | c :: cs => c.perform.result s :: answers (c.after s) cs

end Call

def Store.run (s : Store) (cs : List Call) : Store := cs.foldl Call.after s

variable {s s' : Store} {c : Call} {cs ds : List Call}

theorem Store.run_append (s : Store) (cs ds : List Call) : s.run (cs ++ ds) = (s.run cs).run ds :=
  List.foldl_append

theorem Scope.Within.mono {scope : Scope Ty} (h : scope.Within s)
    (hmade : ∀ v, s.Made v → s'.Made v) : scope.Within s' := fun x t hx => (h x t hx).mono hmade

theorem Call.Within.mono (h : c.Within s) (hmade : ∀ v, s.Made v → s'.Made v)
    (hsize : s.sessions.size ≤ s'.sessions.size) : c.Within s' := by
  cases c with
  | check x e scope format session => exact ⟨h.1.mono hmade, fun i hi => (h.2 i hi).trans_le hsize⟩
  | op o =>
    cases o with
    | newSession first => exact h
    | newVar session => exact Nat.lt_of_lt_of_le h hsize
    | newOp n args => exact fun t ht => (h t ht).mono hmade
    | standardScope session => exact Nat.lt_of_lt_of_le h hsize
    | prune t => exact Has.mono h hmade
    | occursIn sought t => exact ⟨h.1.mono hmade, h.2.mono hmade⟩
    | fresh t nonGeneric session =>
      exact ⟨h.1.mono hmade, fun u hu => (h.2.1 u hu).mono hmade, h.2.2.trans_le hsize⟩
    | unify left right => exact ⟨h.1.mono hmade, h.2.mono hmade⟩
    | render t => exact Has.mono h hmade
    | inferType e scope session => exact ⟨h.1.mono hmade, fun i hi => (h.2 i hi).trans_le hsize⟩
    | analyse a e Γ => exact ⟨h.1.mono hmade, h.2.trans_le hsize⟩

/-! ## runs with the same vars and operators -/

theorem inStep_call (h : Parallel .same s s') (hc : c.Within s) :
    InStep .same (fun _ => False) c.perform s c.perform s' fun x x' _ _ => x' = x := by
  cases c with
  | op o => exact inStep_perform h hc
  | check x e scope format session =>
    have hst : Start .same s scope session := hc.1.start hc.2 fun _ _ => trivial
    have hrun : InStep .same (fun _ => False) (e.check x scope format session) s
        (e.check x scope format (session.map Renaming.same.session)) s' fun x x' _ _ => x' = x :=
      inStep_check x e format h Renaming.ahead_same hst
    rw [Renaming.map_session .same trivial] at hrun
    exact hrun.then_return _

theorem Parallel.call (h : Parallel .same s s') (hc : c.Within s) :
    c.perform.result s' = c.perform.result s ∧ Parallel .same (c.after s) (c.after s') :=
  ⟨(inStep_call h hc).result_eq Renaming.ahead_same trivial,
    ((inStep_call h hc).advance Renaming.ahead_same).parallel⟩

/-- the chains of a store have no bearing on any answer -/
theorem Parallel.run (h : Parallel .same s s') (hcs : Call.AllWithin s cs) :
    Call.answers s' cs = Call.answers s cs ∧ Parallel .same (s.run cs) (s'.run cs) := by
  induction cs generalizing s s' with
  | nil => exact ⟨rfl, h⟩
  | cons c cs ih =>
    obtain ⟨hc, hcs⟩ := hcs
    obtain ⟨hanswer, hafter⟩ := h.call hc
    obtain ⟨hanswers, hrun⟩ := ih hafter hcs
    refine ⟨?_, hrun⟩
    rw [Call.answers, Call.answers, hanswer, hanswers]

theorem Parallel.allWithin (h : Parallel .same s s') (hcs : Call.AllWithin s cs) :
    Call.AllWithin s' cs := by
  induction cs generalizing s s' with
  | nil => trivial
  | cons c cs ih => exact ⟨hcs.1.mono h.made (h.session_next 0).le, ih (h.call hcs.1).2 hcs.2⟩

/-! ## one run -/

theorem stays_call (hs : s.Sound) (hc : c.Within s) : Stays .same s (c.after s) :=
  ((inStep_call (.refl_same hs) hc).advance Renaming.ahead_same).stays

theorem stays_run (hs : s.Sound) (hcs : Call.AllWithin s cs) : Stays .same s (s.run cs) := by
  induction cs generalizing s with
  | nil => exact .refl hs
  | cons c cs ih =>
    have hc := stays_call hs hcs.1
    exact hc.trans (ih hc.binds.sound hcs.2)

end LetPoly
