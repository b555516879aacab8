import LetPoly.Proofs.Environment
import LetPoly.Proofs.Infer.Steps
import LetPoly.Proofs.Store.Frame
import LetPoly.Proofs.Store.Unifying

/-!
# Inference uses up no display names

Types are not shown while they are inferred, so no var gets a name (`Store.SameNames`).  The
exception is a mismatch, which is shown at once: then the vars of the two operators that clash get
names, in the order in which they are shown, and no others do (`NamesSpent`).
-/

namespace LetPoly

open StoreM
open Store (Named SameNames chainStore)

/-- two operators that cannot be equal, and the account of `s` ends with them -/
structure Clashed (s : Store) (l r : Ty) : Prop where
  noted : s.events.back? = some (.clash l r)
  differ : ∃ k j n m as bs, l = .op k n as ∧ r = .op j m bs ∧ ¬ (n = m ∧ as.length = bs.length)

/-- the vars of two types, in the order in which they are shown one after the other -/
noncomputable def Store.varsInOrder (s : Store) (l r : Ty) : List Var :=
  (s.resolve l).vars ++ (s.resolve r).vars

/-- what a failed run that started in `s` has done to names -/
inductive NamesSpent (s : Store) : Failure → Store → Prop where
  | circular {v t : Ty} {s' : Store} (h : s.SameNames s') :
    NamesSpent s (.problem (.circular v t)) s'
  | undefinedName {x : String} {s' : Store} (h : s.SameNames s') :
    NamesSpent s (.problem (.undefinedName x)) s'
  | mismatch {l r : Ty} {leftText rightText : String} {s' : Store} (h : Clashed s' l r)
    (hl : s'.Spells (s'.resolve l) leftText) (hr : s'.Spells (s'.resolve r) rightText)
    (hn : Named (s.unnamed (s'.varsInOrder l r)) s s') :
    NamesSpent s (.problem (.mismatch leftText rightText)) s'
  /-- the names ran out while the two operators were being shown -/
  | namesExhausted {l r : Ty} {pre post : List Var} {w : Var} {s' : Store} (h : Clashed s' l r)
    (heq : s.unnamed (s'.varsInOrder l r) = pre ++ w :: post) (hn : Named pre s s') :
    NamesSpent s .namesExhausted s'

variable {s s₁ s' : Store} {l r : Ty} {f : Failure} {task : Ty.Task} {o : Ty.Outcome}

/-! ## single steps -/

theorem Store.SameNames.named_nil (h : s.SameNames s₁) : Named (s.unnamed []) s s₁ :=
  .of_same h.label h.cursor

theorem Store.SameNames.unnamed_eq (h : s.SameNames s₁) (vs : List Var) :
    s₁.unnamed vs = s.unnamed vs := (h.named_nil.unnamed_append vs).symm

/-- until the first name is given, names are what they were -/
theorem NamesSpent.before (h : NamesSpent s₁ f s') (hn : s.SameNames s₁) : NamesSpent s f s' := by
  cases h with
  | circular h => exact .circular (trans_of SameNames hn h)
  | undefinedName h => exact .undefinedName (trans_of SameNames hn h)
  | mismatch h hl hr hn' =>
    rw [hn.unnamed_eq] at hn'
    exact .mismatch h hl hr (hn.named_nil.append hn')
  | namesExhausted h heq hn' =>
    rw [hn.unnamed_eq] at heq
    exact .namesExhausted h heq (hn.named_nil.append hn')

theorem Store.Quiet.varsInOrder_eq (h : s.Quiet s') (hs : s.Acyclic) (l r : Ty) :
    s'.varsInOrder l r = s.varsInOrder l r := by
  rw [varsInOrder, varsInOrder, h.resolve_eq hs, h.resolve_eq hs]

theorem NamesSpent.of_out (h : s.OutOfNames (s.varsInOrder l r) f s') (hs : s.Acyclic)
    (hc : Clashed s' l r) : NamesSpent s f s' := by
  obtain ⟨pre, w, post, heq, hpre, -⟩ := h.stopped
  rw [← h.quiet.varsInOrder_eq hs] at heq
  rw [h.failure]
  exact .namesExhausted hc heq hpre

namespace Ty

theorem spends_bindVar {v : Var} {t : Ty} (hs : s.Sound) (ht : s.Has t) :
    Ends (bindVar v t) s (fun _ s' => s.SameNames s') (NamesSpent s) := by
  refine ((sameNames_bindVar v t s).and (ends_bindVar hs ht)).mono (fun _ _ h => h.1) ?_
  rintro f s' ⟨hn, rfl, -⟩
  exact .circular hn

/-- both operators are shown, in the store in which the clash was noted -/
theorem spends_clash {k j : Nat} {n m : String} {as bs : List Ty} (hs : s.Sound)
    (hl : s.Has (op k n as)) (hr : s.Has (op j m bs)) (hne : ¬ (n = m ∧ as.length = bs.length)) :
    Ends (clash (op k n as) (op j m bs)) s (fun _ _ => False) (NamesSpent s) := by
  generalize hl' : op k n as = l at *
  generalize hr' : op j m bs = r at *
  have hnote : Ends (note (.clash l r)) s (fun _ s₁ => s.Quiet s₁ ∧ s.SameNames s₁ ∧
      s₁.events.back? = some (.clash l r)) never :=
    ⟨(ends_note (.clash l r)).ok rfl, ⟨fun _ => rfl, fun _ => rfl⟩, Array.back?_push⟩
  refine hnote.safe.bind fun _ s₁ ⟨hq₁, hn₁, hback⟩ => ?_
  have hs₁ := hq₁.sound hs
  -- the account stays as it is while types are shown
  have hclashed : ∀ {s'}, s₁.Unmoved s' → Clashed s' l r := fun hu =>
    ⟨hu.events ▸ hback, k, j, n, m, as, bs, hl'.symm, hr'.symm, hne⟩
  have hshow := (shows_render hs₁ (hq₁.has_of_has hl)).and (unmoved_render l s₁)
  refine (hshow.error_mono ?_).bind ?_
  · rintro f s' ⟨hout, hu⟩
    exact (NamesSpent.of_out (hout.append _) hs₁.acyclic (hclashed hu)).before hn₁
  rintro leftText s₂ ⟨ha, hu⟩
  have hs₂ := ha.quiet.sound hs₁
  have hr₂ := ha.quiet.has_of_has (hq₁.has_of_has hr)
  have hshow' := (shows_render hs₂ hr₂).and (unmoved_render r s₂)
  rw [ha.quiet.resolve_eq hs₁.acyclic] at hshow'
  refine (hshow'.error_mono ?_).bind ?_
  · rintro f s' ⟨hout, hu'⟩
    have hout₁ := hout.after ha.quiet ha.named
    exact (NamesSpent.of_out hout₁ hs₁.acyclic (hclashed (hu.trans hu'))).before hn₁
  · rintro rightText s₃ ⟨hb, hu'⟩
    have hq := ha.quiet.trans hb.quiet
    refine (NamesSpent.mismatch (hclashed (hu.trans hu')) ?_ ?_ ?_).before hn₁
    · rw [hq.resolve_eq hs₁.acyclic]
      exact ha.spells.keep hb.named
    · rw [hq.resolve_eq hs₁.acyclic]
      exact hb.spells
    · rw [hq.varsInOrder_eq hs₁.acyclic, Store.varsInOrder, ha.named.unnamed_append]
      exact ha.named.append hb.named

/-! ## unification and inference -/

/-- names are spent by the call that fails, if at all -/
theorem Unifying.spends (h : Unifying s task o) (hready : task.Ready s) :
    Ends (fun _ => o) s (fun _ s' => s.SameNames s') (NamesSpent s) := by
  have hbefore : ∀ {s s₁ : Store} {o : Outcome}, s.SameNames s₁ →
      Ends (fun _ => o) s₁ (fun _ s' => s₁.SameNames s') (NamesSpent s₁) →
      Ends (fun _ => o) s (fun _ s' => s.SameNames s') (NamesSpent s) := by
    intro s s₁ o hn h
    exact h.mono (fun _ _ h => trans_of SameNames hn h) fun _ _ h => h.before hn
  induction h with
  | lookUp hl hr _ ih =>
    have hl' := (closed_sameNames.prune _ _).ok hl
    have hr' := (closed_sameNames.prune _ _).ok hr
    exact hbefore (trans_of SameNames hl' hr') (ih (hready.lookUp hl hr).ready)
  | same => exact refl_of SameNames _
  | left _ => exact spends_bindVar hready.sound hready.right
  | right _ => exact spends_bindVar hready.sound hready.left
  | clash hne =>
    exact (spends_clash hready.sound hready.left hready.right hne).ok_mono fun _ _ h => h.elim
  | operators hlen _ ih => exact ih (hready.operators hlen)
  | missing _ _ hole =>
    rcases hole with rfl | rfl
    · exact absurd hready.left Store.not_has_hole
    · exact absurd hready.right Store.not_has_hole
  | done => exact refl_of SameNames _
  | next h _ ih ihrest =>
    exact hbefore (ih hready.head) (ihrest (hready.rest (h.equated hready.head).grows))
  | stop _ ih => exact ih hready.head

theorem spends_unify (hs : s.Sound) (hl : s.Has l) (hr : s.Has r) :
    Ends (unify l r) s (fun _ s' => s.SameNames s') (NamesSpent s) :=
  ((unifying_iff hs hl hr).2 rfl).spends ⟨hs, hl, hr, trivial⟩

end Ty

theorem tracks_names (i : Nat) : Tracks i SameNames NamesSpent where
  refl := refl_of SameNames
  trans := trans_of SameNames
  before hn h := h.before hn
  newVar {s} _ := ⟨s.label?_pushVar i, s.cursor_pushVar i⟩
  newOp _ _ _ := ⟨fun _ => rfl, fun _ => rfl⟩
  copy hs hn hi ht :=
    ((closed_sameNames.freshInstance _ _ i _).and (Ty.ends_freshInstance hs hn hi ht)).mono
      (fun _ _ h => h.1) fun _ _ h => h.2
  unify := Ty.spends_unify
  undefined _ _ := .undefinedName ⟨fun _ => rfl, fun _ => rfl⟩

/-! ## the session that the names are from -/

/-- no session but `i` has made a var -/
def Store.OnlyMakes (i : Nat) (s s' : Store) : Prop := ∀ j ≠ i, s'.madeBy j = s.madeBy j

theorem tracks_onlyMakes (i : Nat) :
    Tracks i (Store.OnlyMakes i) fun s _ s' => Store.OnlyMakes i s s' where
  refl _ _ _ := rfl
  trans h h' j hj := (h' j hj).trans (h j hj)
  before h h' j hj := (h' j hj).trans (h j hj)
  newVar {s} hi j hj := by
    show (s.pushVar i).madeBy j = s.madeBy j
    rw [Store.madeBy_pushVar hi, if_neg (Ne.symm hj)]
  newOp _ _ _ _ _ := rfl
  copy hs hn hi ht :=
    (Ty.ends_freshInstance_copy hs hn hi ht).ok_mono fun _ _ ⟨_, h⟩ => h.copied.others
  unify _ _ _ := (closed_sameVars.unify _ _ _).mono (fun _ _ h j _ => h.madeBy j)
    fun _ _ h j _ => h.madeBy j
  undefined _ _ _ _ := rfl

/-- the vars that got names in an inference are new ones of its session -/
theorem named_infer (e : Expr) {i : Nat} {scope : Scope Ty} (hs : s.Sound) (hscope : scope.Within s)
    (hi : i < s.sessions.size) : Ends (e.infer i { scope }) s (fun _ _ => True)
      fun _ s' => ∀ ws, Named ws s s' → ∀ w ∈ ws, w.session = i := by
  have honly := (tracks_onlyMakes i).infer e ⟨hs, hscope.context, hi⟩
  refine ((untouched_infer hs hscope.context hi).and honly).mono (fun _ _ _ => trivial) ?_
  rintro f s' ⟨hun, honly⟩ ws hn w hw
  obtain ⟨code, hcode⟩ := hn.isSome hw
  have hmade' : s'.Made w := by
    by_contra hm
    rw [Store.label?_of_not_made hm] at hcode
    cases hcode
  have hmade : ¬ s.Made w := by
    intro hm
    rw [hun.label w hm (by simp [Store.varsOf]), hn.unnamed w hw] at hcode
    cases hcode
  by_contra hne
  rw [Store.Made, honly w.session hne] at hmade'
  exact hmade hmade'

/-- the clashing types of a mismatch, and the vars `ws` that got names for it -/
structure ShownMismatch (own : Nat) (s : Store) (leftText rightText : String) (s' : Store)
    (l r : Ty) (ws : List Var) : Prop where
  clashed : Clashed s' l r
  left : s'.Spells (s'.resolve l) leftText
  right : s'.Spells (s'.resolve r) rightText
  /-- the vars without a name, in the order of first occurrence, those of the left type first -/
  vars_eq : ws = s.unnamed (s'.varsInOrder l r)
  named : Named ws s s'
  session : ∀ w ∈ ws, w.session = own
  cursor : s'.cursor own = s.cursor own + ws.length

/-- once its session is open, inference uses up no names; only a mismatch names the vars of the two
types that clash, and those alone -/
theorem inferType_names (e : Expr) {scope : Scope Ty} {session : Option Nat} (hs : s.Sound)
    (hscope : scope.Within s) (hi : ∀ i ∈ session, i < s.sessions.size) :
    ∃ own s₀, ownSession session s = .ok own s₀ ∧
      (∀ t s', e.inferType scope session s = .ok t s' → s₀.SameNames s') ∧
      (∀ v t s', e.inferType scope session s = .error (.problem (.circular v t)) s' →
        s₀.SameNames s') ∧
      (∀ x s', e.inferType scope session s = .error (.problem (.undefinedName x)) s' →
        s₀.SameNames s') ∧
      ∀ leftText rightText s',
        e.inferType scope session s = .error (.problem (.mismatch leftText rightText)) s' →
        ∃ l r ws, ShownMismatch own s₀ leftText rightText s' l r ws := by
  obtain ⟨own, s₀, hown, hk, hi₀⟩ := (ends_ownSession hi).exists_ok
  have hs₀ := hk.sound hs
  have hscope₀ : scope.Within s₀ := (hscope.context.mono hk.made).scope
  have hinfer := ((tracks_names own).infer e ⟨hs₀, hscope₀.context, hi₀⟩).and
    (named_infer e hs₀ hscope₀ hi₀)
  have hrun : Ends (e.inferType scope session) s (fun _ s' => s₀.SameNames s') fun f s' =>
      NamesSpent s₀ f s' ∧ ∀ ws, Named ws s₀ s' → ∀ w ∈ ws, w.session = own := by
    rw [inferType_eq, ends_bind_iff, ends_of_ok hown]
    exact hinfer.bind fun t s₁ h => ⟨h.1.label, h.1.cursor⟩
  refine ⟨own, s₀, hown, fun t s' h => hrun.ok h, fun v t s' h => ?_, fun x s' h => ?_,
    fun leftText rightText s' h => ?_⟩
  · cases (hrun.error h).1 with
    | circular hn => exact hn
  · cases (hrun.error h).1 with
    | undefinedName hn => exact hn
  · obtain ⟨hspent, hsession⟩ := hrun.error h
    cases hspent with
    | @mismatch l r _ _ _ hc hl hr hn =>
      have hws := hsession _ hn
      refine ⟨l, r, _, hc, hl, hr, rfl, hn, hws, ?_⟩
      rw [hn.cursor, List.countP_eq_length.2 fun w hw => by simpa using hws w hw]

def callOfNumeral : Expr := .app (.name "5") (.fn "x" (.name "x"))

/-- both vars of the expected function type get names -/
theorem inferType_names_of_callOfNumeral :
    ∃ own s₀ leftText rightText s' l r ws,
      callOfNumeral.inferType identityScope (some 0) chainStore
        = .error (.problem (.mismatch leftText rightText)) s' ∧
      ShownMismatch own s₀ leftText rightText s' l r ws ∧
      s'.cursor 0 = chainStore.cursor 0 + 2 := by
  have hrun : Ends (callOfNumeral.inferType identityScope (some 0)) chainStore (fun _ _ => False)
      fun f s' => f.kind = "type_mismatch" ∧ s'.cursor 0 = chainStore.cursor 0 + 2 := by
    decide +kernel
  have hi : ∀ i ∈ some 0, i < chainStore.sessions.size := by decide
  obtain ⟨own, s₀, -, -, -, -, hmismatch⟩ :=
    inferType_names callOfNumeral Store.sound_chainStore within_identityScope hi
  cases h : callOfNumeral.inferType identityScope (some 0) chainStore with
  | ok t s' => exact (hrun.ok h).elim
  | error f s' =>
    obtain ⟨hkind, hcursor⟩ := hrun.error h
    obtain ⟨-, hrej, -⟩ :=
      (ends_inferType Store.sound_chainStore within_identityScope hi).error h
    rcases hrej with (⟨v, t, rfl⟩ | ⟨leftText, rightText, rfl⟩ | ⟨rfl, -⟩) | ⟨x, rfl⟩
    · simp [Failure.kind, Problem.name] at hkind
    · obtain ⟨l, r, ws, hshown⟩ := hmismatch leftText rightText s' h
      exact ⟨own, s₀, leftText, rightText, s', l, r, ws, rfl, hshown, hcursor⟩
    · simp [Failure.kind] at hkind
    · simp [Failure.kind, Problem.name] at hkind

end LetPoly
