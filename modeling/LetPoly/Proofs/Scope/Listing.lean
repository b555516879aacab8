import LetPoly.Proofs.Inference
import LetPoly.Proofs.DisplayNames
import LetPoly.Proofs.Scope.Order

/-!
# What is shown of a scope

A scope is shown as one line for each visible name, in the order of the names, and the vars of the
types get their display names in that order.  So the text, the names and what is left of the supply
depend on the visible bindings only, not on how the scope was nested.

* `Store.bindings`          the visible bindings with what their types stand for;
* `lists_render`       showing a scope is showing them;
* `Named.sameNames`, `OutOfNames.sameNames`   what is asked for decides which names are given;
* `render_by_bindings`      so two scopes with the same bindings are shown alike.
-/

namespace LetPoly

open StoreM Store

variable {s s₁ u u' : Store} {scope scope' : Scope Ty} {vs ws : List Var} {f f' : Failure}

/-! ## names -/

namespace Store

theorem Named.sameNames (h : Named ws s u) (h' : Named ws s u') : u.SameNames u' where
  label v := by
    by_cases hv : v ∈ ws
    · obtain ⟨pre, post, heq⟩ := List.append_of_mem hv
      rw [h.given pre v post heq, h'.given pre v post heq]
    · rw [h.others v hv, h'.others v hv]
  cursor i := by rw [h.cursor, h'.cursor]

/-- the names cannot run out at a var and be given to it -/
theorem Named.not_prefix {pre mid : List Var} {w : Var} (h : Named pre s u)
    (hw : labelBound ≤ u.cursor w.session) : ¬ Named (pre ++ w :: mid) s u' := by
  intro h'
  have hbound := h'.bound w (List.mem_append_right pre List.mem_cons_self)
  rw [h'.cursor, List.countP_append, List.countP_cons_of_pos (by simp)] at hbound
  rw [h.cursor] at hw
  omega

theorem OutOfNames.sameNames (h : s.OutOfNames vs f u) (h' : s.OutOfNames vs f' u') :
    u.SameNames u' := by
  obtain ⟨pre, w, post, heq, hnamed, hw⟩ := h.stopped
  obtain ⟨pre', w', post', heq', hnamed', hw'⟩ := h'.stopped
  -- both runs stop at the first var that finds no name
  have hsplit := List.append_eq_append_iff.1 (heq.symm.trans heq')
  rcases hsplit with ⟨mid, hpre, hmid⟩ | ⟨mid, hpre, hmid⟩
  · cases mid with
    | nil =>
      rw [List.append_nil] at hpre
      exact hnamed.sameNames (hpre ▸ hnamed')
    | cons x mid =>
      obtain ⟨rfl, -⟩ := List.cons.inj hmid
      exact absurd (hpre ▸ hnamed') (hnamed.not_prefix hw)
  · cases mid with
    | nil =>
      rw [List.append_nil] at hpre
      exact (hpre ▸ hnamed).sameNames hnamed'
    | cons x mid =>
      obtain ⟨rfl, -⟩ := List.cons.inj hmid
      exact absurd (hpre ▸ hnamed) (hnamed'.not_prefix hw')

/-! ## bindings -/

/-- the visible bindings by name, with what their types stand for -/
noncomputable def bindings (s : Store) (scope : Scope Ty) : List (String × Term Var) :=
  scope.sorted.map fun e => (e.1, s.resolve e.2)

theorem mem_bindings {x : String} {t : Term Var} :
    (x, t) ∈ s.bindings scope ↔ (scope.get? x).map s.resolve = some t := by
  rw [bindings, List.mem_map, Option.map_eq_some_iff]
  constructor
  · rintro ⟨⟨y, a⟩, he, heq⟩
    obtain ⟨rfl, rfl⟩ := Prod.mk.inj heq
    exact ⟨a, Scope.mem_sorted.1 he, rfl⟩
  · rintro ⟨a, ha, rfl⟩
    exact ⟨(x, a), Scope.mem_sorted.2 ha, rfl⟩

theorem increasing_bindings (s : Store) (scope : Scope Ty) : Increasing (s.bindings scope) :=
  List.pairwise_map.2 scope.increasing_sorted

theorem bindings_congr
    (h : ∀ x, (scope.get? x).map s.resolve = (scope'.get? x).map s.resolve) :
    s.bindings scope = s.bindings scope' :=
  (s.increasing_bindings scope).ext (s.increasing_bindings scope') fun e => by
    rw [mem_bindings, mem_bindings, h]

def line (s : Store) (b : String × Term Var) : String := b.1 ++ " : " ++ b.2.print s.nameText

/-- `lines` shows the bindings `bs`, whose vars all have names then -/
structure Listed (s : Store) (bs : List (String × Term Var)) (lines : List String) (u : Store) :
    Prop where
  quiet : s.Quiet u
  named : Named (s.unnamed (bs.flatMap fun b => b.2.vars)) s u
  lines_eq : lines = bs.map u.line

end Store

/-! ## showing -/

theorem ends_renderEntry {e : String × Ty} (hs : s.Sound) (he : s.Has e.2) :
    Ends (Scope.renderEntry e) s
      (fun line u => s.Quiet u ∧ Named (s.unnamed (s.resolve e.2).vars) s u ∧
        line = u.line (e.1, s.resolve e.2))
      (OutOfNames s (s.resolve e.2).vars) := by
  refine (Ty.shows_render hs he).bind fun text u h => ⟨h.quiet, h.named, ?_⟩
  rw [h.text_eq]
  rfl

/-- each line goes by the names that the ones before it have left -/
theorem ends_lines {es : List (String × Ty)} (hs : s.Sound) (hes : ∀ e ∈ es, s.Has e.2) :
    Ends (es.mapM Scope.renderEntry) s (Listed s (es.map fun e => (e.1, s.resolve e.2)))
      (OutOfNames s ((es.map fun e => (e.1, s.resolve e.2)).flatMap fun b => b.2.vars)) := by
  induction es generalizing s with
  | nil => exact ⟨.refl s, .of_same (fun _ => rfl) fun _ => rfl, rfl⟩
  | cons e es ih =>
    rw [List.mapM_cons, List.map_cons, List.flatMap_cons]
    have he := ends_renderEntry hs (hes e List.mem_cons_self)
    refine (he.error_mono fun _ _ h => h.append _).bind fun line s₁ ⟨hq, hn, hline⟩ => ?_
    have hrest := ih (hq.sound hs) fun e' he' => hq.has_of_has (hes e' (List.mem_cons_of_mem e he'))
    simp only [hq.resolve_eq hs.acyclic] at hrest
    refine (hrest.error_mono fun _ _ h => h.after hq hn).bind fun lines s₂ h => ?_
    refine ⟨hq.trans h.quiet, ?_, ?_⟩
    · rw [List.flatMap_cons, hn.unnamed_append]
      exact hn.append h.named
    · have hkept : s₂.line (e.1, s.resolve e.2) = s₁.line (e.1, s.resolve e.2) := by
        rw [Store.line, Store.line, hn.print_eq h.named fun _ hv => hv]
      rw [List.map_cons, hkept, hline, h.lines_eq]

theorem lists_render (hs : s.Sound) (hscope : scope.Within s) :
    Ends scope.render s
      (fun text u => ∃ lines, Listed s (s.bindings scope) lines u ∧ text = "\n".intercalate lines)
      (OutOfNames s ((s.bindings scope).flatMap fun b => b.2.vars)) := by
  have hhas : ∀ e ∈ scope.sorted, s.Has e.2 := fun e he =>
    hscope e.1 e.2 (Scope.mem_sorted.1 he)
  exact (ends_lines hs hhas).bind fun lines u h => ⟨lines, h, rfl⟩

theorem ends_renderScope (hs : s.Sound) (hscope : scope.Within s) :
    Ends scope.render s (fun _ s' => s.Quiet s') fun f _ => f = .namesExhausted := by
  refine (lists_render hs hscope).mono (fun text s' h => ?_) fun f s' h => h.failure
  obtain ⟨lines, hlist, -⟩ := h
  exact hlist.quiet

theorem Store.SameNames.line_eq (h : u.SameNames u') (b : String × Term Var) :
    u'.line b = u.line b := by
  have hname : u'.nameText = u.nameText := funext fun v => by rw [nameText, nameText, h.label v]
  rw [Store.line, Store.line, hname]

/-- two scopes that bind the same names, to types that stand for the same, are shown alike: with the
same text, and the same names are given to the same vars and left; or the names run out, and then at
the same var.  There is one line for each binding, in the order of the names, and sorting them needs
no comparison of types.  If the types themselves are the same, showing either scope is the same
action -/
theorem render_by_bindings (hs : s.Sound) (hscope : scope.Within s) (hscope' : scope'.Within s)
    (h : ∀ x, (scope.get? x).map s.resolve = (scope'.get? x).map s.resolve) :
    Ends scope.render s
      (fun text u =>
        (∃ lines, Listed s (s.bindings scope) lines u ∧ text = "\n".intercalate lines) ∧
        Ends scope'.render s (fun text' u' => text' = text ∧ u.SameNames u') never)
      (fun f u => s.OutOfNames ((s.bindings scope).flatMap fun b => b.2.vars) f u ∧
        Ends scope'.render s (fun _ _ => False) fun f' u' => f' = f ∧ u.SameNames u') ∧
    scope.NameOrder ∧
    ((∀ x, scope.get? x = scope'.get? x) → scope.render = scope'.render) := by
  have hrun' := lists_render hs hscope'
  rw [← bindings_congr h] at hrun'
  refine ⟨(lists_render hs hscope).mono (fun text u hshown => ?_) fun f u hout => ?_,
    scope.nameOrder, fun hget => ?_⟩
  · refine ⟨hshown, ?_⟩
    obtain ⟨lines, hlist, rfl⟩ := hshown
    refine hrun'.mono (fun text' u' ⟨lines', hlist', htext'⟩ => ?_) fun f' u' hout' =>
      hout'.not_suffices hlist.named.suffices
    have hnames := hlist.named.sameNames hlist'.named
    refine ⟨?_, hnames⟩
    rw [htext', hlist'.lines_eq, hlist.lines_eq]
    congr 1
    exact List.map_congr_left fun b _ => hnames.line_eq b
  · refine ⟨hout, hrun'.mono (fun text' u' ⟨lines', hlist', htext'⟩ => ?_) fun f' u' hout' => ?_⟩
    · exact hout.not_suffices hlist'.named.suffices
    · exact ⟨hout'.failure.trans hout.failure.symm, hout.sameNames hout'⟩
  · rw [Scope.render, Scope.render, Scope.sorted_congr hget]

def twoVars : Scope Ty := .ofList [("second", .var ⟨0, 1⟩), ("first", .var ⟨0, 0⟩)]

/-- the bindings of `twoVars`, one frame each, around one of which another one is hidden -/
def twoVarsNested : Scope Ty :=
  ((Scope.ofList [("first", .int)]).extend "first" (.var ⟨0, 0⟩)).extend "second" (.var ⟨0, 1⟩)

/-- both are shown by name, so the first var gets the name after that of the second one -/
theorem render_by_bindings_of_twoVars :
    ∃ u u', twoVars.render ((startAt 945).run showSecond) = .ok "first : β\nsecond : α" u ∧
      twoVarsNested.render ((startAt 945).run showSecond) = .ok "first : β\nsecond : α" u' ∧
      u.SameNames u' := by
  have hsound : ((startAt 945).run showSecond).Sound :=
    (stays_run (sound_startAt 945) (allWithin_showSecond 945)).binds.grows.sound
  have hmade : ∀ k < 2, ((startAt 945).run showSecond).Made ⟨0, k⟩ := by decide +kernel
  have hget (x : String) : twoVars.get? x = twoVarsNested.get? x := by
    rw [twoVars, twoVarsNested, Scope.get?_extend, Scope.get?_extend, Scope.ofList, Scope.ofList,
      Scope.get?_nest, Scope.get?_nest, Frame.get?_ofList, Frame.get?_ofList]
    by_cases hfirst : x = "first"
    · rw [hfirst]
      rfl
    · by_cases hsecond : x = "second"
      · rw [hsecond]
        rfl
      · have hfirst' := beq_eq_false_iff_ne.2 hfirst
        have hsecond' := beq_eq_false_iff_ne.2 hsecond
        simp [List.lookup_cons, hfirst, hfirst', hsecond, hsecond']
  have hwithin : twoVars.Within ((startAt 945).run showSecond) := by
    intro x t hx
    rcases List.mem_pair.1 (Scope.mem_of_get?_ofList hx) with heq | heq
    · obtain ⟨rfl, rfl⟩ := Prod.mk.inj heq
      exact has_var.2 (hmade 1 (by omega))
    · obtain ⟨rfl, rfl⟩ := Prod.mk.inj heq
      exact has_var.2 (hmade 0 (by omega))
  have hwithin' : twoVarsNested.Within ((startAt 945).run showSecond) := fun x t hx =>
    hwithin x t ((hget x).trans hx)
  have hall := render_by_bindings hsound hwithin hwithin' fun x => by rw [hget]
  have hsorted : twoVars.sorted = [("first", .var ⟨0, 0⟩), ("second", .var ⟨0, 1⟩)] := by
    refine (Scope.eq_sorted (.swap _ _ []) ?_).symm
    exact List.pairwise_pair.2 (by decide)
  have hrun : Ends twoVars.render ((startAt 945).run showSecond)
      (fun text _ => text = "first : β\nsecond : α") never := by
    rw [Scope.render, hsorted]
    decide +kernel
  obtain ⟨text, u, hu, rfl⟩ := hrun.exists_ok
  obtain ⟨text', u', hu', rfl, hnames⟩ := (hall.1.ok hu).2.exists_ok
  exact ⟨u, u', hu, hu', hnames⟩

end LetPoly
