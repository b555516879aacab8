import LetPoly.Proofs.Parallel.Identity

/-!
# How a check ends

A check turns the outcome of inference into a text (`check_from`).  For that it shows the types that
a report on this outcome has room for (`Format.typesShown`), and they are there
(`has_typesShown`).  So what a check does to the store after inference is to name their vars
(`displays_inferred`), and it fails only if no names are left (`ends_check`).
-/

namespace LetPoly

open StoreM Store

variable {s s₁ s₂ : Store} {a b : Ty} {f : Failure} {vs ws : List Var} {scope : Scope Ty}
  {session : Option Nat}

/-! ## the outcome of inference in a check -/

theorem inferOrFail_eq (e : Expr) (scope : Scope Ty) (session : Option Nat) (s : Store) :
    e.inferOrFail scope session s =
      .ok ((e.inferType scope session).result s) (after (e.inferType scope session) s) := by
  rw [Expr.inferOrFail, result, after]
  cases e.inferType scope session s <;> rfl

/-- a check of `e` goes on from where inference has left off -/
theorem check_from (x : String) (e : Expr) (scope : Scope Ty) (format : Format)
    (session : Option Nat) (s : Store) :
    e.check x scope format session s =
      e.conclude x format ((e.inferType scope session).result s)
        (after (e.inferType scope session) s) := by
  rw [check_eq, bind_of_ok (inferOrFail_eq e scope session s)]

/-- what inference ends in can be shown afterwards -/
theorem mapsOutcome_inferType (e : Expr) (hs : s.Sound) (hscope : scope.Within s)
    (hi : ∀ i ∈ session, i < s.sessions.size) :
    Parallel .same (after (e.inferType scope session) s) (after (e.inferType scope session) s) ∧
      Renaming.same.MapsOutcome (after (e.inferType scope session) s)
        (after (e.inferType scope session) s) ((e.inferType scope session).result s)
        ((e.inferType scope session).result s) := by
  have hst : Start .same s scope session := hscope.start hi fun _ _ => trivial
  have hrun : InStep .same (fun _ => False) (e.inferOrFail scope session) s
      (e.inferOrFail scope (session.map Renaming.same.session)) s _ :=
    inStep_inferOrFail e (.refl_same hs) Renaming.ahead_same hst
  rw [Renaming.map_session .same trivial] at hrun
  have hok := inferOrFail_eq e scope session s
  obtain ⟨hadv, hmaps⟩ := (Ends.ok hrun hok).ok hok
  exact ⟨hadv.parallel, hmaps⟩

/-! ## showing vars -/

/-- the vars of some types, in the order in which they are shown -/
noncomputable def Store.varsShown (s : Store) (ts : List Ty) : List Var :=
  ts.flatMap fun t => (s.resolve t).vars

/-- those of the vars `vs` that had no name have got one, and nothing else has changed to look at -/
structure Store.Displayed (s : Store) (vs : List Var) (s' : Store) : Prop where
  quiet : s.Quiet s'
  named : Named (s.unnamed vs) s s'

namespace Store

theorem Displayed.of_quiet (hq : s.Quiet s₁) (hn : s.SameNames s₁) : s.Displayed [] s₁ :=
  ⟨hq, .of_same hn.label hn.cursor⟩

theorem Displayed.trans (h : s.Displayed vs s₁) (h' : s₁.Displayed ws s₂) :
    s.Displayed (vs ++ ws) s₂ := by
  refine ⟨h.quiet.trans h'.quiet, ?_⟩
  rw [h.named.unnamed_append]
  exact h.named.append h'.named

theorem Displayed.varsShown_eq (h : s.Displayed vs s₁) (hs : s.Acyclic) (ts : List Ty) :
    s₁.varsShown ts = s.varsShown ts := by
  simp only [varsShown, h.quiet.resolve_eq hs]

end Store

/-- `act` shows the vars `vs`, or stops at one of them that finds no name -/
def Displays {α : Type} (s : Store) (vs : List Var) (act : StoreM α) : Prop :=
  Ends act s (fun _ s' => s.Displayed vs s') (s.OutOfNames vs)

theorem displays_render (hs : s.Sound) (ha : s.Has a) : Displays s (s.resolve a).vars a.render :=
  (Ty.shows_render hs ha).ok_mono fun _ _ h => ⟨h.quiet, h.named⟩

namespace Displays

variable {α β : Type} {act : StoreM β} {k : β → StoreM α}

theorem pure (x : α) : Displays s [] (Pure.pure x) := .of_quiet (.refl s) (refl_of SameNames s)

theorem bind (h : Displays s vs act) (hk : ∀ b s₁, s.Displayed vs s₁ → Displays s₁ ws (k b)) :
    Displays s (vs ++ ws) (act >>= k) := by
  refine Ends.bind (h.error_mono fun _ _ ho => ho.append ws) fun b s₁ hb => ?_
  exact (hk b s₁ hb).mono (fun _ _ h' => hb.trans h') fun _ _ ho => ho.after hb.quiet hb.named

theorem note (e : Event) : Displays s [] (StoreM.note e) :=
  .of_quiet ((ends_note e).ok rfl) ⟨fun _ => rfl, fun _ => rfl⟩

theorem then_return (h : Displays s vs act) (f : β → α) : Displays s vs (do return f (← act)) := by
  have := h.bind fun b s₁ _ => pure (f b)
  rwa [List.append_nil] at this

end Displays

/-! ## reports -/

/-- the types that are shown for an outcome of inference, in this order -/
def Format.typesShown (format : Format) : Except Failure Ty → List Ty
  | .ok t => [t]
  | .error (.problem (.circular inner outer)) => if format = .short then [] else [inner, outer]
  | .error _ => []

/-- reports on outcomes that correspond show types that correspond -/
theorem Renaming.MapsOutcome.typesShown {r : Renaming} {y y' : Except Failure Ty}
    (h : r.MapsOutcome s s₁ y y') (format : Format) :
    List.Forall₂ (fun a b => r.Shows s a ∧ r.Maps a b) (format.typesShown y)
      (format.typesShown y') := by
  cases h with
  | ok hu huu' => exact .cons ⟨hu, huu'⟩ .nil
  | error hfg =>
    cases hfg with
    | circular ha hb haa' hbb' =>
      rw [Format.typesShown, Format.typesShown]
      split
      · exact .nil
      · exact .cons ⟨ha, haa'⟩ (.cons ⟨hb, hbb'⟩ .nil)
    | _ => exact .nil

/-- two texts, one after the other, and what is made of them -/
theorem displays_texts {α : Type} (hs : s.Sound) (ha : s.Has a) (hb : s.Has b)
    (f : String → String → α) :
    Displays s (s.varsShown [a, b])
      (do let x ← a.render; let y ← b.render; return f x y : StoreM α) := by
  have hvars : s.varsShown [a, b] = (s.resolve a).vars ++ (s.resolve b).vars := by
    simp [Store.varsShown]
  rw [hvars]
  refine (displays_render hs ha).bind fun x s₁ hd => ?_
  have hb₁ := displays_render (hd.quiet.sound hs) (hd.quiet.has_of_has hb)
  rw [hd.quiet.resolve_eq hs.acyclic] at hb₁
  exact hb₁.then_return _

/-- only a report on a circle has types to show -/
theorem displays_report (f : Failure) (hs : s.Sound) (format : Format)
    (hf : ∀ t ∈ format.typesShown (.error f), s.Has t) (source path : String) :
    Displays s (s.varsShown (format.typesShown (.error f))) (f.report format source path) := by
  have hinternal : ∀ kind notes, Displays s []
      (do StoreM.note (.internalError kind notes); return Report.internal kind format path) :=
    fun _ _ => (Displays.note _).bind fun _ _ _ => .pure _
  cases f with
  | problem p =>
    cases p with
    | circular a b =>
      cases format with
      | json =>
        have hfields : Displays s (s.varsShown [a, b]) ((Problem.circular a b).fields source path) :=
          displays_texts hs (hf a (by simp [Format.typesShown])) (hf b (by simp [Format.typesShown]))
            _
        exact hfields.then_return _
      | long =>
        have hlong : Displays s (s.varsShown [a, b])
            ((Problem.circular a b).explanation source path) :=
          displays_texts hs (hf a (by simp [Format.typesShown])) (hf b (by simp [Format.typesShown]))
            _
        exact hlong.then_return _
      | short => exact .pure _
    | mismatch l r => cases format <;> exact .pure _
    | undefinedName x => cases format <;> exact .pure _
    | output fault => cases format <;> exact .pure _
    | general notes => cases format <;> exact .pure _
  | namesExhausted => exact hinternal _ _
  | notOneCharacter n => exact hinternal _ _
  | missingType use => exact hinternal _ _
  | endlessChain => exact hinternal _ _
  | foreign kind notes => exact hinternal _ _

theorem displays_noteFailed (x : String) (f : Failure) : Displays s [] (noteFailed x f) := by
  cases f with
  | problem p => exact .note _
  | _ => exact .pure _

theorem displays_conclude (x : String) (e : Expr) (format : Format) (y : Except Failure Ty)
    (hs : s.Sound) (hy : ∀ t ∈ format.typesShown y, s.Has t) :
    Displays s (s.varsShown (format.typesShown y)) (e.conclude x format y) := by
  cases y with
  | ok t =>
    have hvars : s.varsShown (format.typesShown (.ok t)) = (s.resolve t).vars := by
      simp [Store.varsShown, Format.typesShown]
    rw [hvars]
    exact (displays_render hs (hy t (by simp [Format.typesShown]))).then_return _
  | error f =>
    refine (displays_noteFailed x f).bind fun _ s₁ hd => ?_
    have hreport := displays_report f (hd.quiet.sound hs) format
      (fun t ht => hd.quiet.has_of_has (hy t ht)) e.text x
    rw [hd.varsShown_eq hs.acyclic] at hreport
    exact hreport.then_return _

/-! ## whole checks -/

theorem has_typesShown (e : Expr) (format : Format) (hs : s.Sound) (hscope : scope.Within s)
    (hi : ∀ i ∈ session, i < s.sessions.size) :
    ∀ t ∈ format.typesShown ((e.inferType scope session).result s),
      (after (e.inferType scope session) s).Has t := by
  obtain ⟨-, hmaps⟩ := mapsOutcome_inferType e hs hscope hi
  obtain ⟨hshows, -⟩ := (List.forall₂_and_left _ _).1 (hmaps.typesShown format)
  exact fun t ht => (hshows t ht).has

/-- after inference, a check names the vars that it shows, and nothing else changes -/
theorem displays_inferred (x : String) (e : Expr) (format : Format) (hs : s.Sound)
    (hscope : scope.Within s) (hi : ∀ i ∈ session, i < s.sessions.size) :
    Displays (after (e.inferType scope session) s)
      ((after (e.inferType scope session) s).varsShown
        (format.typesShown ((e.inferType scope session).result s)))
      (e.conclude x format ((e.inferType scope session).result s)) :=
  displays_conclude x e format _ (mapsOutcome_inferType e hs hscope hi).1.sound
    (has_typesShown e format hs hscope hi)

theorem ends_check (x : String) (e : Expr) (format : Format) (hs : s.Sound)
    (hscope : scope.Within s) (hi : ∀ i ∈ session, i < s.sessions.size) :
    Ends (e.check x scope format session) s (fun _ _ => True) fun g _ => g = .namesExhausted := by
  rw [Ends, check_from]
  exact (displays_inferred x e format hs hscope hi).mono (fun _ _ _ => trivial)
    fun _ _ h => h.failure

theorem StoreM.Ends.then_return {α β : Type} {act : StoreM α} {Q : α → Store → Prop}
    {R : Failure → Store → Prop} (h : Ends act s Q R) (f : α → β) :
    Ends (do return f (← act)) s (fun _ _ => True) R := h.bind fun _ _ _ => trivial

end LetPoly
