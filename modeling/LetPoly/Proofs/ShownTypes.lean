import LetPoly.Proofs.DisplayNames
import LetPoly.Proofs.Term.Parser

/-!
# What a shown type says

The text of a type determines the type: if two types are shown one after the other and have the same
text, they stand for the same term over the same vars (`Ty.shown_types_identify`).  Showing the first
one may name vars of the second one, but names are not taken back, so both texts go by the names
that there are in the end, and these have one owner each.

* `Store.codes`        the code points that a term is shown with;
* `Spells.text_eq_codes`   what is shown is their text;
* `Owns.codes_inj`     terms over the vars of one session that are shown alike are the same.
-/

namespace LetPoly

open StoreM

namespace Store

variable {s : Store} {t u : Term Var} {text text' : String} {i : Nat}

def code (s : Store) (v : Var) : Nat := (s.label? v).getD 0

def codes (s : Store) (t : Term Var) : List Nat := t.codes s.code

theorem Spells.text_eq_codes (h : s.Spells t text) : text = textOf (s.codes t) := by
  have hname : ∀ v ∈ t.vars, s.nameText v = labelText (s.code v) := by
    intro v hv
    obtain ⟨code, hcode⟩ := h.named v hv
    rw [nameText_of_label hcode, Store.code, hcode]
    rfl
  rw [h.text_eq, Term.print_congr hname, Term.print_eq]
  rfl

/-- if all vars of two shown terms are of one session, their code points tell the terms apart -/
theorem Owns.codes_inj (ho : s.Owns i Term.firstCode) (ht : s.Spells t text)
    (hu : s.Spells u text') (hlt : t.Legible) (hlu : u.Legible)
    (hi : ∀ v, v ∈ t.vars ∨ v ∈ u.vars → v.session = i) :
    (s.codes t = s.codes u ↔ t = u) ∧
      ((∀ v, v ∈ t.vars ∨ v ∈ u.vars → (s.code v).isValidChar) → (text = text' ↔ t = u)) := by
  have hnamed : ∀ v, v ∈ t.vars ∨ v ∈ u.vars → s.label? v = some (s.code v) := by
    intro v hv
    obtain ⟨code, hcode⟩ := hv.elim (ht.named v) (hu.named v)
    rw [Store.code, hcode]
    rfl
  have hle : ∀ v, v ∈ t.vars ∨ v ∈ u.vars → Term.firstCode ≤ s.code v := by
    intro v hv
    exact ((ho.given_iff (s.code v)).1 ⟨v, hi v hv, hnamed v hv⟩).1
  have hinj : Set.InjOn s.code {v | v ∈ t.vars ∨ v ∈ u.vars} := by
    intro v hv w hw heq
    exact ho.owner v w (hi v hv) (hi w hw) (s.code v) (hnamed v hv) (heq ▸ hnamed w hw)
  refine ⟨Term.codes_inj hlt hlu hle hinj, fun hvalid => ?_⟩
  rw [ht.text_eq_codes, hu.text_eq_codes]
  exact Term.print_inj hlt hlu hle hvalid hinj

end Store

namespace Ty

open Store

variable {s u : Store} {ty ty' : Ty} {i : Nat} {cs : List Call}

/-- both types go by the names that there are after the second one was shown -/
theorem ends_render_both (hs : s.Sound) (hty : s.Has ty) (hty' : s.Has ty') :
    Ends (do return (← ty.render, ← ty'.render)) s
      (fun texts u => Named (s.unnamed ((s.resolve ty).vars ++ (s.resolve ty').vars)) s u ∧
        u.Spells (s.resolve ty) texts.1 ∧ u.Spells (s.resolve ty') texts.2)
      (OutOfNames s ((s.resolve ty).vars ++ (s.resolve ty').vars)) := by
  refine ((shows_render hs hty).error_mono fun f u h => h.append _).bind fun text s₁ h => ?_
  have hrun := shows_render (h.quiet.sound hs) (h.quiet.has_of_has hty')
  rw [h.quiet.resolve_eq hs.acyclic] at hrun
  refine (hrun.error_mono fun f u h' => h'.after h.quiet h.named).bind fun text' s₂ h' => ?_
  refine ⟨?_, h.spells.keep h'.named, h'.spells⟩
  rw [h.named.unnamed_append]
  exact h.named.append h'.named

/-- whatever has happened in a session whose names start at `α`, and whatever its vars are bound to
now, two types of it with legible operators that are shown one after the other have the same text
exactly if they stand for the same term; the text is taken as its code points, or as it is if these
are characters.  The types cannot be shown only if there are not enough names -/
theorem shown_types_identify (hs : s.Sound)
    (hi : s.sessions[i]? = some { cells := #[], cursor := Term.firstCode })
    (hcs : Call.AllWithin s cs) (hnames : (s.run cs).SameNames u) (hu : u.Sound)
    (hty : u.Has ty) (hty' : u.Has ty') (hl : (u.resolve ty).Legible)
    (hl' : (u.resolve ty').Legible)
    (hvars : ∀ v, v ∈ (u.resolve ty).vars ∨ v ∈ (u.resolve ty').vars → v.session = i) :
    Ends (do return (← ty.render, ← ty'.render)) u
      (fun texts w =>
        texts.1 = textOf (w.codes (u.resolve ty)) ∧ texts.2 = textOf (w.codes (u.resolve ty')) ∧
        (w.codes (u.resolve ty) = w.codes (u.resolve ty') ↔ u.resolve ty = u.resolve ty') ∧
        ((∀ v, v ∈ (u.resolve ty).vars ∨ v ∈ (u.resolve ty').vars → (w.code v).isValidChar) →
          (texts.1 = texts.2 ↔ u.resolve ty = u.resolve ty')))
      fun f _ => f = .namesExhausted ∧
        ¬ u.Suffices ((u.resolve ty).vars ++ (u.resolve ty').vars) := by
  have hsize : i < s.sessions.size := (Array.getElem?_eq_some_iff.1 hi).1
  have hstays := stays_run hs hcs
  have hgrow : (s.run cs).NamesGrow u := .of_same hnames.label fun i _ => hnames.cursor i
  have howns : u.Owns i Term.firstCode :=
    hgrow.owns i _ (hsize.trans_le hstays.binds.grows.sessions)
      (hstays.names.owns i _ hsize (owns_of_new hi))
  refine (ends_render_both hu hty hty').mono (fun texts w h => ?_) fun f w h => ?_
  · obtain ⟨hnamed, hspells, hspells'⟩ := h
    exact ⟨hspells.text_eq_codes, hspells'.text_eq_codes,
      (hnamed.owns howns).codes_inj hspells hspells' hl hl' hvars⟩
  · exact ⟨h.failure, h.not_suffices⟩

def boundToShown : Store := ((startAt Term.firstCode).run showSecond).bindTo ⟨0, 0⟩ (.var ⟨0, 1⟩)

theorem sound_boundToShown : boundToShown.Sound := by
  have hmade : ∀ k < 2, ((startAt Term.firstCode).run showSecond).Made ⟨0, k⟩ := by decide +kernel
  have hsound : ((startAt Term.firstCode).run showSecond).Sound :=
    (stays_run (sound_startAt _) (allWithin_showSecond _)).binds.grows.sound
  have hval : ((startAt Term.firstCode).run showSecond).resolve (.var ⟨0, 1⟩) = .var ⟨0, 1⟩ := rfl
  refine (grows_bindTo hsound (hmade 0 (by omega)) rfl (has_var.2 (hmade 1 (by omega))) ?_).sound
  rw [hval, Term.vars_var]
  decide

def secondToFirst : Ty := .op 3 Ty.funcName [.var ⟨0, 1⟩, .var ⟨0, 0⟩]

/-- functions from either to the other are shown alike, so they are the same -/
theorem shown_types_identify_of_bound :
    Ends (do return (← firstToSecond.render, ← secondToFirst.render)) boundToShown
      (fun texts _ => texts = ("(α -> α)", "(α -> α)") ∧
        boundToShown.resolve firstToSecond = boundToShown.resolve secondToFirst)
      never := by
  have hres : boundToShown.resolve firstToSecond =
      .op Ty.funcName [.var ⟨0, 1⟩, .var ⟨0, 1⟩] := rfl
  have hres' : boundToShown.resolve secondToFirst =
      .op Ty.funcName [.var ⟨0, 1⟩, .var ⟨0, 1⟩] := rfl
  have hlegible : Term.Legible (.op Ty.funcName [.var (⟨0, 1⟩ : Var), .var ⟨0, 1⟩]) :=
    .binary (by decide) .var .var
  have hvars : ∀ v, v ∈ (boundToShown.resolve firstToSecond).vars ∨
      v ∈ (boundToShown.resolve secondToFirst).vars → v = ⟨0, 1⟩ := by
    intro v hv
    rw [hres, hres', or_self] at hv
    simpa using hv
  have hhas : boundToShown.Has firstToSecond := ⟨rfl, by decide +kernel⟩
  have hhas' : boundToShown.Has secondToFirst := ⟨rfl, by decide +kernel⟩
  have hnames : ((startAt Term.firstCode).run showSecond).SameNames boundToShown :=
    ⟨fun v => label?_assigned _ _ v _, fun i => cursor_modifyCell _ _ _ i⟩
  have hidentify := shown_types_identify (sound_startAt _) rfl (allWithin_showSecond _) hnames
    sound_boundToShown hhas hhas' hlegible hlegible fun v hv => congrArg Var.session (hvars v hv)
  have hrun : Ends (do return (← firstToSecond.render, ← secondToFirst.render)) boundToShown
      (fun texts w => texts = ("(α -> α)", "(α -> α)") ∧ w.code ⟨0, 1⟩ = Term.firstCode) never := by
    decide +kernel
  refine (hrun.and hidentify).mono (fun texts w h => ?_) fun f w h => h.1
  obtain ⟨⟨htexts, hcode⟩, -, -, -, htext⟩ := h
  have hvalid : ∀ v, v ∈ (boundToShown.resolve firstToSecond).vars ∨
      v ∈ (boundToShown.resolve secondToFirst).vars → (w.code v).isValidChar := by
    intro v hv
    rw [hvars v hv, hcode]
    decide
  exact ⟨htexts, (htext hvalid).1 (by rw [htexts])⟩

end Ty
end LetPoly
