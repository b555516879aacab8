import LetPoly.Proofs.Inference
import LetPoly.Proofs.Recording.Unify
import LetPoly.Proofs.Infer.Steps

/-!
# The account of an inference

The text of inference once more, watched: whatever a step binds gets into a record.  The watched run
does what inference does, and the account says neither more nor less than its record: one line for
each var that was bound, in the order in which they were bound, and one line behind them on how the
run has ended (`Expr.inferType_account`).  No var is bound twice, so there are as many lines as vars
that were bound, also when the run fails.
-/

namespace LetPoly

open StoreM
open Store (chainStore)

namespace Watched

def infer (session : Nat) : Expr → Context → Recording Ty
  | .name x, Γ => do
    match Γ.scope.get? x with
    | some t => t.freshInstance Γ.nonGeneric session
    | none =>
      if isInteger x then return Ty.int
      note (.undefinedName x)
      throw (.problem (.undefinedName x))
  | .fn p body, Γ => do
    let param := Ty.var (← newVar session)
    let result ← infer session body (Γ.bindFixed p param)
    newFunc param result
  | .app f a, Γ => do
    let func ← infer session f Γ
    let arg ← infer session a Γ
    let result := Ty.var (← newVar session)
    unify (← newFunc arg result) func
    return result
  | .letIn x value body, Γ => do
    let t ← infer session value Γ
    infer session body (Γ.bindGeneric x t)
  | .letRec x value body, Γ => do
    let target := Ty.var (← newVar session)
    let t ← infer session value (Γ.bindFixed x target)
    unify target t
    infer session body (Γ.bindGeneric x target)

def inferType (e : Expr) (scope : Scope Ty) (session : Option Nat) : Recording Ty := do
  let own ← match session with
    | some i => pure i
    | none => newSession firstName
  let t ← infer own e { scope }
  note (.inferred t)
  return t

end Watched

variable {s s' : Store} {Γ : Context} {i : Nat}

/-! ## inference -/

namespace Store

def SameEvents (s s' : Store) : Prop := s'.events = s.events

instance : IsPreorder Store SameEvents where
  refl _ := rfl
  trans _ _ _ h h' := h'.trans h

end Store

/-- copying writes nothing to the account -/
theorem closed_sameEvents : Closed.Copy fun _ act => Preserves Store.SameEvents act where
  toSteps := steps_preserves
  prune t s := (closed_still.prune t s).mono (fun _ _ h => h.events) fun _ _ h => h.events
  newVar _ _ := rfl
  newOp _ _ _ := rfl

theorem watches_copy {t : Ty} (hΓ : Γ.Usable i s) (ht : s.Has t) :
    Watches (observe (t.freshInstance Γ.nonGeneric i)) (t.freshInstance Γ.nonGeneric i) s := by
  have hevents := closed_sameEvents.freshInstance t Γ.nonGeneric i s
  have hends := Ty.ends_freshInstance hΓ.sound hΓ.within.nonGeneric hΓ.session_lt ht
  refine .observe hΓ.sound ((hends.and hevents).mono ?_ fun _ _ h => h.1)
  rintro t' s' ⟨⟨ρ, h⟩, he⟩
  exact ⟨h.keeps, he⟩

theorem watches_newVar (hs : s.Sound) (hi : i < s.sessions.size) :
    Watches (observe (newVar i)) (newVar i) s := by
  have hevents : Ends (newVar i) s (fun _ s' => s'.events = s.events) never := rfl
  refine .observe hs (((ends_newVar hi).and hevents).mono (fun _ _ h => ?_) fun _ _ h => h.1)
  exact ⟨h.1.keeps, h.2⟩

theorem watches_newFunc (hs : s.Sound) (a r : Ty) :
    Watches (observe (newFunc a r)) (newFunc a r) s := by
  have hends := ends_newOp (s := s) Ty.funcName [a, r]
  exact .observe hs ⟨(hends.ok rfl).2.toKeeps, rfl⟩

theorem watches_undefined (hs : s.Sound) (x : String) :
    Watches (do
        observe (note (.undefinedName x))
        throw (.problem (.undefinedName x)) : Recording Ty)
      (do
        note (.undefinedName x)
        throw (.problem (.undefinedName x))) s := by
  refine ⟨[], fun before => ?_, .inr ⟨_, .undefinedName, ?_⟩⟩
  · show EStateM.bind _ _ _ = _
    rw [EStateM.bind, Watches.observe_note, List.append_nil]
    rfl
  · exact accounts_of_noted hs ((ends_note _).ok rfl).toKeeps rfl

theorem watches_infer (e : Expr) (hΓ : Γ.Usable i s) :
    Watches (Watched.infer i e Γ) (e.infer i Γ) s := by
  induction e generalizing Γ s with
  | name x =>
    rw [Expr.infer, Watched.infer]
    cases hx : Γ.scope.get? x with
    | some t => exact watches_copy hΓ (hΓ.within.scope x t hx)
    | none =>
      by_cases hn : isInteger x
      · simp only [hn, if_true]
        exact .pure hΓ.sound _
      · simp only [hn, Bool.false_eq_true, if_false]
        exact watches_undefined hΓ.sound x
  | fn p body ih =>
    rw [Expr.infer, Watched.infer]
    refine .bind (watches_newVar hΓ.sound hΓ.session_lt) fun v s₁ hv _ => ?_
    have hΓ₁ := hΓ.bindFixed p ((ends_newVar hΓ.session_lt).ok hv)
    refine .bind (ih hΓ₁) fun r s₂ _ hg => ?_
    exact watches_newFunc hg.sound _ _
  | app func arg ihf iha =>
    rw [Expr.infer, Watched.infer]
    refine .bind (ihf hΓ) fun t s₁ hf hg₁ => ?_
    have hf := (hΓ.infers func).ok hf
    have hΓ₁ := hΓ.later hg₁
    refine .bind (iha hΓ₁) fun a s₂ ha hg₂ => ?_
    have ha := (hΓ₁.infers arg).ok ha
    have hi₂ := (hΓ₁.later hg₂).session_lt
    refine .bind (watches_newVar hg₂.sound hi₂) fun v s₃ hv hg₃ => ?_
    have hv := (ends_newVar hi₂).ok hv
    refine .bind (watches_newFunc hg₃.sound a (.var v)) fun l s₄ hl hg₄ => ?_
    obtain ⟨rfl, hq⟩ := (ends_newOp Ty.funcName [a, .var v]).ok hl
    obtain ⟨hb₄, hot, hol⟩ := app_over s₃.nextMark hΓ.sound hΓ.within hf ha hv hq.toKeeps
    refine .bind (Ty.watches_unify hg₄.sound hol.has hot.has) fun _ s₅ _ hg₅ => ?_
    exact .pure hg₅.sound _
  | letIn x value body ihv ihb =>
    rw [Expr.infer, Watched.infer]
    refine .bind (ihv hΓ) fun t s₁ hv hg => ?_
    have hv := (hΓ.infers value).ok hv
    exact ihb ((hΓ.later hg).bindGeneric x hv.result.has)
  | letRec x value body ihv ihb =>
    rw [Expr.infer, Watched.infer]
    refine .bind (watches_newVar hΓ.sound hΓ.session_lt) fun v s₁ hv hg₁ => ?_
    have hv := (ends_newVar hΓ.session_lt).ok hv
    have hΓ₁ := hΓ.bindFixed x hv
    refine .bind (ihv hΓ₁) fun t s₂ ht hg₂ => ?_
    have ht := (hΓ₁.infers value).ok ht
    have hself : s₂.Has (.var v) := Store.has_var.2 (hg₂.made v hv.made)
    refine .bind (Ty.watches_unify hg₂.sound hself ht.result.has) fun _ s₃ _ hg₃ => ?_
    have hΓ₃ := hΓ.later (hg₁.trans (hg₂.trans hg₃))
    exact ihb (hΓ₃.bindGeneric x (hg₃.has hself))

namespace Watched

def own : Option Nat → Recording Nat
  | some i => pure i
  | none => observe (newSession firstName)

theorem inferType_eq (e : Expr) (scope : Scope Ty) (session : Option Nat) :
    inferType e scope session = (do
      let t ← infer (← own session) e { scope }
      observe (note (.inferred t))
      return t) := by
  cases session <;> rfl

end Watched

theorem watches_own {session : Option Nat} (hs : s.Sound) :
    Watches (Watched.own session) (ownSession session) s := by
  cases session with
  | some i => exact .pure hs i
  | none =>
    have hopen : Ends (newSession firstName) s
        (fun _ s' => s.Keeps s' ∧ s'.events = s.events) never := ⟨s.keeps_pushSession _, rfl⟩
    exact .observe hs hopen

/-! ## the account -/

def Store.lines (s : Store) : List String := s.events.toList.map Event.text

def bindingLine (v : Var) (t : Ty) : String :=
  "[DEBUG] (@" ++ toString v.id ++ ") ~ (" ++ t.text ++ ")"

/-- the last line of a run that fails -/
inductive FailureLine (s' : Store) : Failure → String → Prop where
  | circular {v : Var} {t : Ty} : FailureLine s' (.problem (.circular (.var v) t))
      ("[CRITICAL] Circularity detected in (@" ++ toString v.id ++ ") ~ (" ++ t.text ++ ")")
  | mismatch {l r : Ty} {leftText rightText : String} (hne : l.Differ r)
      (hl : s'.Spells (s'.resolve l) leftText) (hr : s'.Spells (s'.resolve r) rightText) :
    FailureLine s' (.problem (.mismatch leftText rightText))
      ("[CRITICAL] Cannot unify: (" ++ l.text ++ ") ~ (" ++ r.text ++ ")")
  /-- the clashing types could not be shown -/
  | namesExhausted {l r : Ty} (hne : l.Differ r) (h : s'.Exhausted) :
    FailureLine s' .namesExhausted
      ("[CRITICAL] Cannot unify: (" ++ l.text ++ ") ~ (" ++ r.text ++ ")")
  | undefinedName {x : String} : FailureLine s' (.problem (.undefinedName x))
      ("[ERROR] Undefined name: " ++ x)

/-- a run from `s` to `s'` has bound the vars of `bs`, each once, in this order, and no others, and
has written a line on each of them, a last line behind them, and no more -/
structure Account (s : Store) (bs : List (Var × Ty)) (last : String) (s' : Store) : Prop where
  binds : s.BindsAll bs s'
  lines_eq : s'.lines = s.lines ++ bs.map (fun b => bindingLine b.1 b.2) ++ [last]
  ncard_eq : {v | s.binding? v = none ∧ s'.binding? v ≠ none}.ncard = bs.length

namespace Event

theorem text_bound (v : Var) (t : Ty) : (bound v t).text = bindingLine v t := by
  show "[" ++ "DEBUG" ++ "] " ++ ("(" ++ ("@" ++ toString v.id) ++ ") ~ (" ++ t.text ++ ")") = _
  rw [bindingLine, ← String.toList_inj]
  simp

theorem text_inferred (t : Ty) : (inferred t).text = "[DEBUG] inferred type: " ++ t.text := by
  show "[" ++ "DEBUG" ++ "] " ++ ("inferred type: " ++ t.text) = _
  rw [← String.toList_inj]
  simp

theorem text_circular (v : Var) (t : Ty) : (circular v t).text =
    "[CRITICAL] Circularity detected in (@" ++ toString v.id ++ ") ~ (" ++ t.text ++ ")" := by
  show "[" ++ "CRITICAL" ++ "] " ++ ("Circularity detected in " ++
    ("(" ++ ("@" ++ toString v.id) ++ ") ~ (" ++ t.text ++ ")")) = _
  rw [← String.toList_inj]
  simp

theorem text_clash (l r : Ty) : (clash l r).text =
    "[CRITICAL] Cannot unify: (" ++ l.text ++ ") ~ (" ++ r.text ++ ")" := by
  show "[" ++ "CRITICAL" ++ "] " ++ ("Cannot unify: " ++
    ("(" ++ l.text ++ ") ~ (" ++ r.text ++ ")")) = _
  rw [← String.toList_inj]
  simp

theorem text_undefinedName (x : String) :
    (undefinedName x).text = "[ERROR] Undefined name: " ++ x := by
  show "[" ++ "ERROR" ++ "] " ++ ("Undefined name: " ++ x) = _
  rw [← String.toList_inj]
  simp

end Event

theorem StoreM.Accounts.account {bs : List (Var × Ty)} {e : Event}
    (h : Accounts s bs [e] s') : Account s bs e.text s' where
  binds := h.toBindsAll
  lines_eq := by
    rw [Store.lines, h.events_eq, Store.lines, List.map_append, List.map_append, List.map_map]
    simp only [Function.comp_def, Event.text_bound, List.map_singleton]
  ncard_eq := h.ncard_eq

theorem StoreM.Reason.line {f : Failure} {e : Event} (h : Reason s' f e) : FailureLine s' f e.text := by
  cases h with
  | circular =>
    rw [Event.text_circular]
    exact .circular
  | mismatch hne hl hr =>
    rw [Event.text_clash]
    exact .mismatch hne hl hr
  | namesExhausted hne h =>
    rw [Event.text_clash]
    exact .namesExhausted hne h
  | undefinedName =>
    rw [Event.text_undefinedName]
    exact .undefinedName

theorem Rejection.ne_endlessChain {f : Failure} (h : Rejection f s') : f ≠ .endlessChain := by
  rcases h with h | ⟨x, rfl⟩
  · exact h.ne_endlessChain
  · simp

/-- an inference writes one line for each var that it binds, in the order in which it binds them, and
one line on how it ends -/
theorem Expr.inferType_account (e : Expr) {scope : Scope Ty} {session : Option Nat} (hs : s.Sound)
    (hscope : scope.Within s) (hi : ∀ i ∈ session, i < s.sessions.size) :
    ∃ bs, Watched.inferType e scope session (s, []) = recorded bs (e.inferType scope session s) ∧
      Ends (e.inferType scope session) s
        (fun t s' => Account s bs ("[DEBUG] inferred type: " ++ t.text) s')
        fun f s' => ∃ line, FailureLine s' f line ∧ Account s bs line s' := by
  have hrun : Watches (do Watched.infer (← Watched.own session) e { scope })
      (do e.infer (← ownSession session) { scope }) s := by
    refine (watches_own hs).bind fun i s₁ hi₁ hg => ?_
    obtain ⟨hk, hlt⟩ := (ends_ownSession hi).ok hi₁
    exact watches_infer e ⟨hg.sound, hscope.context.mono hk.made, hlt⟩
  obtain ⟨bs, hw, hends⟩ := hrun.noted .inferred
  have hrejects := ends_inferType (e := e) hs hscope hi
  rw [inferType_eq, Watched.inferType_eq, ← bind_assoc, ← bind_assoc] at *
  refine ⟨bs, hw [], (hends.and hrejects).mono (fun t s' h => ?_) fun f s' h => ?_⟩
  · rw [← Event.text_inferred]
    exact h.1.account
  · obtain ⟨hstop, -, hrej, -⟩ := h
    rcases hstop with hfuel | ⟨e, hr, ha⟩
    · exact absurd hfuel hrej.ne_endlessChain
    · exact ⟨_, hr.line, ha.account⟩

/-- an identity that is called, and its result called once more -/
def callOfResult : Expr := .app (.app (.name "id") (.name "5")) (.name "6")

/-- both vars of the first call are bound before the second one fails -/
theorem inferType_account_of_callOfResult :
    ∃ bs f s' line, Watched.inferType callOfResult identityScope (some 0) (chainStore, [])
        = .error f (s', bs) ∧
      FailureLine s' f line ∧ Account chainStore bs line s' ∧
      {v | chainStore.binding? v = none ∧ s'.binding? v ≠ none}.ncard = 2 := by
  have hrun : Ends (callOfResult.inferType identityScope (some 0)) chainStore (fun _ _ => False)
      fun _ s' => s'.lines.length = 3 := by decide +kernel
  have hi : ∀ i ∈ some 0, i < chainStore.sessions.size := by decide
  obtain ⟨bs, hwatched, haccount⟩ :=
    Expr.inferType_account callOfResult Store.sound_chainStore within_identityScope hi
  cases h : callOfResult.inferType identityScope (some 0) chainStore with
  | ok t s' => exact (hrun.ok h).elim
  | error f s' =>
    obtain ⟨line, hline, ha⟩ := haccount.error h
    have hlines := hrun.error h
    rw [ha.lines_eq, List.length_append, List.length_append, List.length_map] at hlines
    refine ⟨bs, f, s', line, by rw [hwatched, h, recorded], hline, ha, ?_⟩
    rw [ha.ncard_eq]
    have hnone : chainStore.lines.length = 0 := by decide
    simp only [List.length_singleton] at hlines
    omega

end LetPoly
