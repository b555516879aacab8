import LetPoly.Proofs.Store.Naming
import LetPoly.Proofs.Store.Prune
import LetPoly.Proofs.Term.Print
import LetPoly.Store.LookUp

/-!
# What is shown of a type

`Ty.render` prints the resolved form of a type, after every var of it that had no display name has
got the next one of its session, in the order of first occurrence (`shows_render`).  On an acyclic
store it fails only if no names are left, and then the names given before stay.  Either way no
meaning changes: rendering names vars and shortens chains, but it binds nothing.
-/

namespace LetPoly

open StoreM

namespace Store

variable {s s' s₁ : Store} {u : Term Var} {text : String} {f : Failure}

def nameText (s : Store) (v : Var) : String := ((s.label? v).map labelText).getD ""

theorem nameText_of_label {v : Var} {code : Nat} (h : s.label? v = some code) :
    s.nameText v = labelText code := by
  rw [nameText, h]
  rfl

/-- `text` shows the term `u`, whose vars all have names then -/
structure Shown (s : Store) (u : Term Var) (text : String) (s' : Store) : Prop where
  quiet : s.Quiet s'
  named : Named (s.unnamed u.vars) s s'
  text_eq : text = u.print s'.nameText

/-- the names ran out at one of the vars `vs`, after those of the vars before it -/
structure OutOfNames (s : Store) (vs : List Var) (f : Failure) (s' : Store) : Prop where
  failure : f = .namesExhausted
  quiet : s.Quiet s'
  stopped : ∃ pre w post, s.unnamed vs = pre ++ w :: post ∧ Named pre s s' ∧
    labelBound ≤ s'.cursor w.session

/-- `act` shows the term `u` from `s` on -/
def Shows (s : Store) (u : Term Var) (act : StoreM String) : Prop :=
  Ends act s (Shown s u) (OutOfNames s u.vars)

/-- once they are named, the vars of a term keep their names -/
theorem Named.label_of_shown {vs : List Var} (h : Named (s.unnamed vs) s s') {v : Var}
    (hv : v ∈ vs) :
    ∃ code, s'.label? v = some code := by
  cases hl : s.label? v with
  | none => exact h.isSome (mem_unnamed.2 ⟨hv, hl⟩)
  | some code => exact ⟨code, h.keep hl⟩

theorem Named.print_eq {vs ws : List Var} (h : Named (s.unnamed vs) s s₁) (h' : Named ws s₁ s')
    (hu : ∀ v ∈ u.vars, v ∈ vs) : u.print s'.nameText = u.print s₁.nameText := by
  refine Term.print_congr fun v hv => ?_
  obtain ⟨code, hcode⟩ := h.label_of_shown (hu v hv)
  rw [nameText_of_label hcode, nameText_of_label (h'.keep hcode)]

/-- all vars of `u` have names, and `text` shows it with them -/
structure Spells (s : Store) (u : Term Var) (text : String) : Prop where
  named : ∀ v ∈ u.vars, ∃ code, s.label? v = some code
  text_eq : text = u.print s.nameText

theorem Shown.spells (h : s.Shown u text s') : s'.Spells u text :=
  ⟨fun _ hv => h.named.label_of_shown hv, h.text_eq⟩

theorem Spells.keep {ws : List Var} (h : s.Spells u text) (hn : Named ws s s') :
    s'.Spells u text where
  named v hv := by
    obtain ⟨code, hcode⟩ := h.named v hv
    exact ⟨code, hn.keep hcode⟩
  text_eq := by
    rw [h.text_eq]
    refine Term.print_congr fun v hv => ?_
    obtain ⟨code, hcode⟩ := h.named v hv
    rw [nameText_of_label hcode, nameText_of_label (hn.keep hcode)]

theorem Spells.unnamed_eq_nil (h : s.Spells u text) : s.unnamed u.vars = [] := by
  rw [List.eq_nil_iff_forall_not_mem]
  intro w hw
  obtain ⟨hw, hnone⟩ := mem_unnamed.1 hw
  obtain ⟨code, hcode⟩ := h.named w hw
  rw [hcode] at hnone
  cases hnone

theorem Named.unnamed_append {vs : List Var} (h : Named (s.unnamed vs) s s₁) (ws : List Var) :
    s.unnamed (vs ++ ws) = s.unnamed vs ++ s₁.unnamed ws := by
  rw [s.unnamed_append, unnamed_later fun _ => h.label?_eq_none_iff]

theorem OutOfNames.append {vs : List Var} (h : s.OutOfNames vs f s') (ws : List Var) :
    s.OutOfNames (vs ++ ws) f s' := by
  obtain ⟨pre, w, post, heq, hpre, hw⟩ := h.stopped
  have happend : s.unnamed (vs ++ ws) =
      pre ++ w :: (post ++ (s.unnamed ws).filter (· ∉ s.unnamed vs)) := by
    rw [s.unnamed_append, ← List.cons_append, ← List.append_assoc, ← heq]
  exact ⟨h.failure, h.quiet, pre, w, _, happend, hpre, hw⟩

/-- the same seen from before other vars got names -/
theorem OutOfNames.after {vs ws : List Var} (h : s₁.OutOfNames ws f s') (hq : s.Quiet s₁)
    (hn : Named (s.unnamed vs) s s₁) : s.OutOfNames (vs ++ ws) f s' := by
  obtain ⟨pre, w, post, heq, hpre, hw⟩ := h.stopped
  refine ⟨h.failure, hq.trans h.quiet, s.unnamed vs ++ pre, w, post, ?_, hn.append hpre, hw⟩
  rw [hn.unnamed_append, heq, List.append_assoc]

/-- chains may be shortened before a term is shown -/
theorem Shows.after {act : StoreM String} (h : s₁.Shows u act) (hq : s.Quiet s₁)
    (hn : Named [] s s₁) : Ends act s₁ (Shown s u) (OutOfNames s u.vars) := by
  have hnil : Named (s.unnamed []) s s₁ := hn
  refine h.mono (fun text s' h' => ⟨hq.trans h'.quiet, ?_, h'.text_eq⟩) fun f s' h' =>
    h'.after hq hnil
  have hun : s.unnamed u.vars = s₁.unnamed u.vars := hnil.unnamed_append u.vars
  rw [hun]
  exact hn.append h'.named

end Store

namespace Ty

open Store

variable {s : Store} {rank : Var → Nat}

theorem named_shortened (s : Store) (vs : List Var) (t : Ty) : Named [] s (s.shortened vs t) := by
  unfold shortened
  split
  · induction vs with
    | nil => exact .of_same (fun _ => rfl) fun _ => rfl
    | cons v vs ih =>
      have hstep : Named [] (s.pointAll vs t) (s.pointAll (v :: vs) t) :=
        .of_same (fun w => label?_assigned _ v w (some t)) fun i => cursor_modifyCell _ v _ i
      exact ih.append hstep
  · exact .of_same (fun _ => rfl) fun _ => rfl

theorem shows_nameOf {v : Var} (hv : s.Made v) : s.Shows (.var v) (nameOf v) := by
  cases hl : s.label? v with
  | some code =>
    refine (ends_of_ok (nameOf_labelled hl)).2 ⟨.refl s, ?_, (nameText_of_label hl).symm⟩
    rw [Term.vars_var, unnamed_of_label hl]
    exact .of_same (fun _ => rfl) fun _ => rfl
  | none =>
    have hun : s.unnamed (Term.var v).vars = [v] := by
      rw [Term.vars_var, unnamed_of_none hl]
      rfl
    by_cases hc : s.cursor v.session < labelBound
    · refine (ends_of_ok (nameOf_next hv hl hc)).2 ⟨s.quiet_nameNext v, ?_, ?_⟩
      · rw [hun]
        exact .next hv hl hc
      · rw [Term.print_var, nameText_of_label]
        rw [label?_nameNext hv, if_pos rfl]
    · rw [Shows, Ends, nameOf_exhausted hv hl (Nat.le_of_not_lt hc)]
      exact ⟨rfl, .refl s, [], v, [], hun, .of_same (fun _ => rfl) fun _ => rfl,
        Nat.le_of_not_lt hc⟩

/-- arguments are shown in order, each with the names that the ones before it have left -/
theorem shows_args {onward : Ty → StoreM String} {as : List Ty} (hs : s.Acyclic)
    (h : ∀ a ∈ as, ∀ s' : Store, s.Quiet s' → s'.Shows (s'.resolve a) (renderWith onward a)) :
    Ends (renderAllWith onward as) s
      (fun texts s' => s.Quiet s' ∧ Named (s.unnamed ((as.map s.resolve).flatMap Term.vars)) s s' ∧
        texts = (as.map s.resolve).map (Term.print s'.nameText))
      (OutOfNames s ((as.map s.resolve).flatMap Term.vars)) := by
  induction as generalizing s with
  | nil => exact ⟨.refl s, .of_same (fun _ => rfl) fun _ => rfl, rfl⟩
  | cons a as ih =>
    rw [renderAllWith, List.map_cons, List.flatMap_cons]
    refine ((h a List.mem_cons_self s (.refl s)).error_mono fun _ _ ho => ho.append _).bind
      fun text s₁ ⟨hq, hn, htext⟩ => ?_
    have hres : as.map s₁.resolve = as.map s.resolve :=
      List.map_congr_left fun b _ => hq.resolve_eq hs b
    have hrest := ih (hq.acyclic hs) fun b hb s₂ hq₂ =>
      h b (List.mem_cons_of_mem a hb) s₂ (hq.trans hq₂)
    rw [hres] at hrest
    refine (hrest.error_mono fun _ _ ho => ho.after hq hn).bind
      fun texts s₂ ⟨hq₂, hn₂, htexts⟩ => ⟨hq.trans hq₂, ?_, ?_⟩
    · rw [hn.unnamed_append]
      exact hn.append hn₂
    · rw [List.map_cons, htexts, htext, hn.print_eq hn₂ fun _ hv => hv]

/-- the rendering up to bound vars, given one that goes on at a bound var -/
theorem shows_with {onward : Ty → StoreM String} {fuel : Nat}
    (hon : ∀ (s : Store) (v : Var), s.Sound → s.Ranked rank → s.Made v → rank v ≤ fuel →
      (∃ u, s.binding? v = some u) → s.Shows (s.value v) (onward (var v)))
    {t : Ty} (hs : s.Sound) (hr : s.Ranked rank) (ht : s.Has t)
    (hf : ∀ v ∈ t.term.vars, rank v ≤ fuel) : s.Shows (s.resolve t) (renderWith onward t) := by
  induction t generalizing s with
  | var v =>
    have hv := Store.has_var.1 ht
    rw [Shows, renderWith, ends_get, resolve_var]
    cases hb : s.binding? v with
    | none =>
      rw [value_of_unbound hb]
      exact shows_nameOf hv
    | some u => exact hon s v hs hr hv (hf v (List.mem_singleton_self v)) ⟨u, hb⟩
  | op k n as ih =>
    rw [Shows, renderWith, resolve_op, Term.vars_op]
    have hargs := shows_args hs.acyclic fun a ha s' (hk : s.Quiet s') => by
      refine ih a ha (hk.sound hs) (hk.ranked rank hr) (hk.has_of_has (Store.has_op.1 ht a ha)) ?_
      exact fun v hv => hf v (mem_vars_of_arg ha hv)
    refine hargs.bind fun texts s' ⟨hq, hn, htexts⟩ => ⟨hq, ?_, ?_⟩
    · rwa [Term.vars_op]
    · rw [operatorText_eq, htexts, Term.print_op]
  | hole => exact absurd ht Store.not_has_hole

theorem shows_within {fuel : Nat} {t : Ty} (hs : s.Sound) (hr : s.Ranked rank) (ht : s.Has t)
    (hf : ∀ v ∈ t.term.vars, rank v ≤ fuel) : s.Shows (s.resolve t) (renderWithin fuel t) := by
  induction fuel generalizing s t with
  | zero =>
    rw [renderWithin]
    refine shows_with (fun s v _ hr _ hv ⟨u, hb⟩ => ?_) hs hr ht hf
    have := hr.pos hb
    omega
  | succ fuel ih =>
    rw [renderWithin]
    refine shows_with (fun s v hs hr hm hv ⟨u, hb⟩ => ?_) hs hr ht hf
    have hq := quiet_prune hs.acyclic (var v)
    rw [Shows, ends_bind_iff, ends_of_ok (prune_eq hs.acyclic (var v))]
    have hlast := hq.has_of_has (hs.has_last (Store.has_var.2 hm))
    have hshow := ih (hq.sound hs) (hq.ranked rank hr) hlast fun w hw => by
      have := hr.lt_of_mem_last hs.acyclic hb hw
      omega
    rw [hq.resolve_eq hs.acyclic, hs.acyclic.resolve_last, resolve_var] at hshow
    exact hshow.after hq (named_shortened s _ _)

theorem shows_render (hs : s.Sound) {t : Ty} (ht : s.Has t) : s.Shows (s.resolve t) (render t) := by
  obtain ⟨rank, hr, hle⟩ := hs.acyclic.exists_rank
  exact shows_within hs hr ht fun v _ => hle v

theorem renders_of_spells (hs : s.Sound) {t : Ty} (ht : s.Has t) {text : String}
    (h : s.Spells (s.resolve t) text) : Ends (render t) s (fun text' _ => text' = text) never := by
  have hnil := h.unnamed_eq_nil
  refine (shows_render hs ht).mono (fun text' s' hshown => ?_) fun f s' hstop => ?_
  · rw [hshown.text_eq, (h.keep hshown.named).text_eq]
  · obtain ⟨pre, w, post, heq, -⟩ := hstop.stopped
    rw [hnil] at heq
    simp at heq

/-- rendering changes no meaning, and it fails only if some session has no names left -/
theorem ends_render (hs : s.Sound) {t : Ty} (ht : s.Has t) :
    Ends (render t) s (fun _ s' => s.Quiet s') (NamesOut s) := by
  refine (shows_render hs ht).mono (fun _ _ h => h.quiet) fun f s' h => ?_
  obtain ⟨pre, w, post, heq, -, hw⟩ := h.stopped
  have hmem : w ∈ s.unnamed (s.resolve t).vars := by rw [heq]; simp
  have hmade := h.quiet.made w (hs.made_of_mem ht (mem_unnamed.1 hmem).1)
  refine ⟨h.failure, h.quiet, w.session, _, Array.getElem?_eq_getElem hmade.session_lt, ?_⟩
  rwa [cursor, Array.getElem?_eq_getElem hmade.session_lt] at hw

end Ty
end LetPoly
