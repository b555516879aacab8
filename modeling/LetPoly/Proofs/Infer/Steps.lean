import LetPoly.Proofs.Infer.Principal

/-!
# What inference does, step by step

Inference is a run of a few steps: it makes vars and operators, copies types, unifies them, and
stops at a name that is undefined.  So what these steps do to a sound store, inference does
(`Tracks.infer`), by induction on the expression.
-/

namespace LetPoly

open StoreM

/-- for the steps of inference in session `i`, `P` says what one that returns does to the store, and
`R` what one that fails does; both go through steps before -/
structure Tracks (i : Nat) (P : Store → Store → Prop) (R : Store → Failure → Store → Prop) :
    Prop where
  refl (s : Store) : P s s
  trans {s s₁ s₂ : Store} : P s s₁ → P s₁ s₂ → P s s₂
  before {s s₁ s₂ : Store} {f : Failure} : P s s₁ → R s₁ f s₂ → R s f s₂
  newVar {s : Store} (hi : i < s.sessions.size) : Ends (newVar i) s (fun _ s' => P s s') never
  newOp (s : Store) (n : String) (as : List Ty) : Ends (newOp n as) s (fun _ s' => P s s') never
  copy {s : Store} {t : Ty} {nonGeneric : List Ty} (hs : s.Sound) (hn : ∀ u ∈ nonGeneric, s.Has u)
    (hi : i < s.sessions.size) (ht : s.Has t) :
    Ends (t.freshInstance nonGeneric i) s (fun _ s' => P s s') never
  unify {s : Store} {l r : Ty} (hs : s.Sound) (hl : s.Has l) (hr : s.Has r) :
    Ends (Ty.unify l r) s (fun _ s' => P s s') (R s)
  undefined (s : Store) (x : String) :
    Ends (note (.undefinedName x)) s (fun _ s' => R s (.problem (.undefinedName x)) s') never

variable {i : Nat} {P : Store → Store → Prop} {R : Store → Failure → Store → Prop} {s s₁ : Store}
  {Γ : Context} {α β : Type}

/-- a first step, with what else is known of it -/
theorem Tracks.bind (h : Tracks i P R) {act : StoreM β} {k : β → StoreM α} {Q : β → Store → Prop}
    {R' : Failure → Store → Prop} (hact : Ends act s (fun _ s' => P s s') (R s))
    (hQ : Ends act s Q R') (hk : ∀ b s₁, Q b s₁ → Ends (k b) s₁ (fun _ s' => P s₁ s') (R s₁)) :
    Ends (act >>= k) s (fun _ s' => P s s') (R s) := by
  refine ((hact.and hQ).error_mono fun _ _ hR => hR.1).bind fun b s₁ ⟨hP, hb⟩ => ?_
  exact (hk b s₁ hb).mono (fun _ _ hP' => h.trans hP hP') fun _ _ hR => h.before hP hR

theorem Tracks.infer (h : Tracks i P R) (e : Expr) (hΓ : Γ.Usable i s) :
    Ends (e.infer i Γ) s (fun _ s' => P s s') (R s) := by
  induction e generalizing Γ s with
  | name x =>
    rw [Expr.infer]
    split
    · next t hx =>
      exact (h.copy hΓ.sound hΓ.within.nonGeneric hΓ.session_lt (hΓ.within.scope x t hx)).safe
    · split
      · exact h.refl s
      · exact (h.undefined s x).safe.bind fun _ s₁ hR => hR
  | fn p body ih =>
    rw [Expr.infer]
    refine h.bind (h.newVar hΓ.session_lt).safe (ends_newVar hΓ.session_lt) fun v s₁ hv => ?_
    have hΓ₁ := hΓ.bindFixed p hv
    exact h.bind (ih hΓ₁) (hΓ₁.infers body) fun r s₂ _ => (h.newOp s₂ _ _).safe
  | app func arg ihf iha =>
    rw [Expr.infer]
    refine h.bind (ihf hΓ) (hΓ.infers func) fun t s₁ hf => ?_
    have hΓ₁ := hΓ.later hf.binds.grows
    refine h.bind (iha hΓ₁) (hΓ₁.infers arg) fun a s₂ ha => ?_
    have hi₂ := (hΓ₁.later ha.binds.grows).session_lt
    refine h.bind (h.newVar hi₂).safe (ends_newVar hi₂) fun v s₃ hv => ?_
    refine h.bind (h.newOp s₃ _ _).safe (ends_newOp Ty.funcName [a, .var v]) fun l s₄ hl => ?_
    obtain ⟨rfl, hq⟩ := hl
    obtain ⟨hb₄, hot, hol⟩ := app_over s₃.nextMark hΓ.sound hΓ.within hf ha hv hq.toKeeps
    have hu := h.unify hb₄.sound hol.has hot.has
    exact h.bind hu hu fun _ s₅ _ => h.refl s₅
  | letIn x value body ihv ihb =>
    rw [Expr.infer]
    refine h.bind (ihv hΓ) (hΓ.infers value) fun t s₁ hv => ?_
    exact ihb ((hΓ.later hv.binds.grows).bindGeneric x hv.result.has)
  | letRec x value body ihv ihb =>
    rw [Expr.infer]
    refine h.bind (h.newVar hΓ.session_lt).safe (ends_newVar hΓ.session_lt) fun v s₁ hv => ?_
    have hΓ₁ := hΓ.bindFixed x hv
    refine h.bind (ihv hΓ₁) (hΓ₁.infers value) fun t s₂ ht => ?_
    have hg₂ := ht.binds.grows
    have hself : s₂.Has (.var v) := Store.has_var.2 (hg₂.made v hv.made)
    refine h.bind (h.unify hg₂.sound hself ht.result.has)
      (Ty.ends_unify hg₂.sound hself ht.result.has) fun _ s₃ hu => ?_
    -- the body is in the context of the whole definition, with the target added
    have hg₃ := hg₂.trans hu.grows
    have hΓ₃ := hΓ.later ((hv.keeps.grows hΓ.sound).trans hg₃)
    exact ihb (hΓ₃.bindGeneric x (Store.has_var.2 (hg₃.made v hv.made)))

end LetPoly
