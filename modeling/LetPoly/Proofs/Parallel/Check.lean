import LetPoly.Check
import LetPoly.Proofs.Parallel.Infer

/-!
# Checks in two runs

A report shows types that were at fault, so parallel stores give reports in the same words as long
as neither run is ahead with its names.  A check reports every failure of inference, and fails
itself only if no names are left.
-/

namespace LetPoly

open StoreM Store

variable {r : Renaming} {out : Failure → Prop} {s s' t t' : Store} {ty ty' : Ty} {i : Nat}

/-! ## the same words -/

/-- if neither run is ahead, vars that correspond have the same name -/
theorem Renaming.ShowsAlike.text_eq_text {u : Term Var} {x x' : String}
    (h : r.ShowsAlike t t' u x x') (hp : Parallel r t t') (hr : ∀ i, r.ahead i = 0) : x' = x := by
  rw [h.text_eq, h.text_eq', Term.print_rename]
  refine Term.print_congr fun v hv => ?_
  rw [nameText, nameText, hp.label v (h.shown v hv), hr]
  simp

theorem inStep_text (h : Parallel r s s') (hr : ∀ i, r.ahead i = 0) (hty : r.Shows s ty)
    (htt' : r.Maps ty ty') :
    InStep r out ty.render s ty'.render s' fun x x' _ _ => x' = x :=
  (inStep_render h hty htt').mono fun _ _ _ _ hadv hx => hx.text_eq_text hadv.parallel hr

theorem inStep_texts {α : Type} {a b a' b' : Ty} (h : Parallel r s s') (hr : ∀ i, r.ahead i = 0)
    (ha : r.Shows s a) (hb : r.Shows s b) (haa' : r.Maps a a') (hbb' : r.Maps b b')
    (f : String → String → α) :
    InStep r out (do let x ← a.render; let y ← b.render; return f x y : StoreM α) s
      (do let x ← a'.render; let y ← b'.render; return f x y : StoreM α) s'
      fun x x' _ _ => x' = x := by
  refine (inStep_text h hr ha haa').bind fun x x' t t' hadv hx => ?_
  refine (inStep_text hadv.parallel hr (hadv.stays.shows h hb) hbb').bind
    fun y y' u u' hadv' hy => ?_
  exact .pure hadv'.parallel (by rw [hx, hy])

/-! ## reports -/

theorem inStep_return {α : Type} (h : Parallel r s s') (a : α) :
    InStep r out (pure a : StoreM α) s (pure a : StoreM α) s' fun x x' _ _ => x' = x := .pure h rfl

/-- a step with the same result in both runs may be used in the same way -/
theorem InStep.then_return {α β : Type} {act act' : StoreM α}
    (h : InStep r out act s act' s' fun x x' _ _ => x' = x) (f : α → β) :
    InStep r out (do return f (← act)) s (do return f (← act')) s' fun x x' _ _ => x' = x :=
  h.bind fun x x' _ _ hadv hx => .pure hadv.parallel (by rw [hx])

theorem inStep_reportCircular {a b a' b' : Ty} (h : Parallel r s s') (hr : ∀ i, r.ahead i = 0)
    (ha : r.Shows s a) (hb : r.Shows s b) (haa' : r.Maps a a') (hbb' : r.Maps b b')
    (format : Format) (source path : String) :
    InStep r out ((Problem.circular a b).report format source path) s
      ((Problem.circular a' b').report format source path) s' fun x x' _ _ => x' = x := by
  cases format with
  | json =>
    have hfields : InStep r out ((Problem.circular a b).fields source path) s
        ((Problem.circular a' b').fields source path) s' fun x x' _ _ => x' = x :=
      inStep_texts h hr ha hb haa' hbb' _
    exact hfields.then_return _
  | long =>
    have hexplanation : InStep r out ((Problem.circular a b).explanation source path) s
        ((Problem.circular a' b').explanation source path) s' fun x x' _ _ => x' = x :=
      inStep_texts h hr ha hb haa' hbb' _
    exact hexplanation.then_return _
  | short => exact inStep_return h _

/-- all failures but a circle have nothing to show, so their reports are the same -/
theorem inStep_reportSame (f : Failure) (hf : ∀ a b, f ≠ .problem (.circular a b))
    (h : Parallel r s s') (format : Format) (source path : String) :
    InStep r out (f.report format source path) s (f.report format source path) s'
      fun x x' _ _ => x' = x := by
  have hinternal : InStep r out
      (note (.internalError f.kind f.notes) >>= fun _ => pure (Report.internal f.kind format path)) s
      (note (.internalError f.kind f.notes) >>= fun _ => pure (Report.internal f.kind format path)) s'
      fun x x' _ _ => x' = x :=
    (inStep_note h fun _ => rfl).bind fun _ _ _ _ hadv _ => inStep_return hadv.parallel _
  cases f with
  | problem p =>
    cases p with
    | circular a b => exact absurd rfl (hf a b)
    | mismatch l r => cases format <;> exact inStep_return h _
    | undefinedName x => cases format <;> exact inStep_return h _
    | output fault => cases format <;> exact inStep_return h _
    | general notes => cases format <;> exact inStep_return h _
  | namesExhausted => exact hinternal
  | notOneCharacter n => exact hinternal
  | missingType use => exact hinternal
  | endlessChain => exact hinternal
  | foreign kind notes => exact hinternal

theorem inStep_report {f g : Failure} (h : Parallel r s s') (hr : ∀ i, r.ahead i = 0)
    (hfg : r.MapsFailure s s' f g) (format : Format) (source path : String) :
    InStep r out (f.report format source path) s (g.report format source path) s'
      fun x x' _ _ => x' = x := by
  cases hfg with
  | circular ha hb haa' hbb' => exact inStep_reportCircular h hr ha hb haa' hbb' format source path
  | mismatch ha hb =>
    rw [ha.text_eq_text h hr, hb.text_eq_text h hr]
    exact inStep_reportSame (.problem (.mismatch _ _)) (fun _ _ => nofun) h format source path
  | undefinedName x =>
    exact inStep_reportSame (.problem (.undefinedName x)) (fun _ _ => nofun) h format source path
  | namesExhausted =>
    exact inStep_reportSame .namesExhausted (fun _ _ => nofun) h format source path
  | notOneCharacter n =>
    exact inStep_reportSame (.notOneCharacter n) (fun _ _ => nofun) h format source path

/-! ## checks -/

/-- a type or a failure of inference, as both runs have it -/
inductive Renaming.MapsOutcome (r : Renaming) (t t' : Store) :
    Except Failure Ty → Except Failure Ty → Prop where
  | ok {u u' : Ty} (hu : r.Shows t u) (huu' : r.Maps u u') : MapsOutcome r t t' (.ok u) (.ok u')
  | error {f g : Failure} (hfg : r.MapsFailure t t' f g) : MapsOutcome r t t' (.error f) (.error g)

variable {scope : Scope Ty} {session : Option Nat} {e : Expr}

theorem inferOrFail_of_ok {u : Ty} (h : e.inferType scope session s = .ok u t) :
    e.inferOrFail scope session s = .ok (.ok u) t := by
  rw [Expr.inferOrFail, h]

theorem inferOrFail_of_error {f : Failure} (h : e.inferType scope session s = .error f t) :
    e.inferOrFail scope session s = .ok (.error f) t := by
  rw [Expr.inferOrFail, h]

theorem inStep_inferOrFail (e : Expr) (h : Parallel r s s') (hr : ∀ i, r.ahead i = 0)
    (hst : Start r s scope session) :
    InStep r out (e.inferOrFail scope session) s
      (e.inferOrFail scope (session.map r.session)) s'
      fun x x' t t' => r.MapsOutcome t t' x x' := by
  rcases (inStep_inferType e h hst).alike hr with
    ⟨u, t, u', t', hu, hu', hadv, hmaps, hshows⟩ | ⟨f, t, g, t', hf, hg, hadv, hfg⟩
  · exact .of_ok (inferOrFail_of_ok hu) (inferOrFail_of_ok hu') hadv (.ok hshows hmaps)
  · exact .of_ok (inferOrFail_of_error hf) (inferOrFail_of_error hg) hadv (.error hfg)

/-- what a check makes of the outcome of inference -/
def Expr.conclude (exampleName : String) (e : Expr) (format : Format) :
    Except Failure Ty → StoreM String
  | .ok t => return e.text ++ " : " ++ (← t.render)
  | .error f => do
    noteFailed exampleName f
    return e.text ++ " : " ++ (← f.report format e.text exampleName)

theorem check_eq (x : String) (e : Expr) (scope : Scope Ty) (format : Format)
    (session : Option Nat) :
    e.check x scope format session = e.inferOrFail scope session >>= e.conclude x format := by
  rw [Expr.check]
  rfl

theorem inStep_noteFailed (x : String) {f g : Failure} (h : Parallel r s s')
    (hfg : r.MapsFailure s s' f g) :
    InStep r out (noteFailed x f) s (noteFailed x g) s' fun _ _ _ _ => True := by
  cases hfg with
  | circular => exact inStep_note h fun _ => rfl
  | mismatch => exact inStep_note h fun _ => rfl
  | undefinedName y => exact inStep_note h fun _ => rfl
  | namesExhausted => exact .pure h trivial
  | notOneCharacter n => exact .pure h trivial

theorem inStep_conclude (x : String) (e : Expr) (format : Format) (h : Parallel r s s')
    (hr : ∀ i, r.ahead i = 0) {y y' : Except Failure Ty} (hy : r.MapsOutcome s s' y y') :
    InStep r out (e.conclude x format y) s (e.conclude x format y') s' fun x x' _ _ => x' = x := by
  cases hy with
  | ok hu huu' => exact (inStep_text h hr hu huu').then_return _
  | error hfg =>
    refine (inStep_noteFailed x h hfg).bind fun _ _ t t' hadv _ => ?_
    exact (inStep_report hadv.parallel hr (hadv.mapsFailure h hfg) format e.text x).then_return _

/-- a check says the same in both runs -/
theorem inStep_check (x : String) (e : Expr) (format : Format) (h : Parallel r s s')
    (hr : ∀ i, r.ahead i = 0) (hst : Start r s scope session) :
    InStep r out (e.check x scope format session) s
      (e.check x scope format (session.map r.session)) s' fun x x' _ _ => x' = x := by
  rw [check_eq, check_eq]
  exact (inStep_inferOrFail e h hr hst).bind fun y y' t t' hadv hy =>
    inStep_conclude x e format hadv.parallel hr hy

end LetPoly
