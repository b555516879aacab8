import LetPoly.Proofs.Parallel.Steps
import LetPoly.Proofs.Store.Render

/-!
# Rendering in two runs

Parallel stores name the vars of corresponding types in the same order, so the texts show one term
and the stores stay parallel.  A run that is ahead may find no names left where the other one still
does; where it is not ahead, both runs fail at the same var, after the same names were given.
-/

namespace LetPoly

open StoreM Store

variable {r : Renaming} {out : Failure → Prop} {s s' t t' : Store} {ty ty' : Ty} {v w : Var}
  {vs ws pre post : List Var}

namespace Parallel

theorem countP_map (h : Parallel r s s') {i : Nat} (hi : i ∈ r.own) (hws : ∀ w ∈ ws, w ∈ r.shown) :
    (ws.map r.var).countP (·.session = r.session i) = ws.countP (·.session = i) := by
  rw [List.countP_map]
  apply List.countP_congr
  intro w hw
  simp only [Function.comp_apply, decide_eq_true_eq, r.session_var]
  constructor
  · exact h.session_inj (r.own_of_shown w (hws w hw)) hi
  · intro heq
    rw [heq]

theorem label?_eq_none_iff (h : Parallel r s s') (hv : v ∈ r.shown) :
    s'.label? (r.var v) = none ↔ s.label? v = none := by
  rw [h.label v hv, Option.map_eq_none_iff]

theorem unnamed_map (h : Parallel r s s') (hvs : ∀ v ∈ vs, v ∈ r.shown) :
    s'.unnamed (vs.map r.var) = (s.unnamed vs).map r.var := by
  induction vs with
  | nil => rfl
  | cons v vs ih =>
    obtain ⟨hv, hvs⟩ := List.forall_mem_cons.1 hvs
    rw [List.map_cons]
    cases hl : s.label? v with
    | some code =>
      have hl' : s'.label? (r.var v) = some (code + r.ahead v.session) := by
        rw [h.label v hv, hl, Option.map_some]
      rw [unnamed_of_label hl, unnamed_of_label hl', ih hvs]
    | none =>
      rw [unnamed_of_none hl, unnamed_of_none ((h.label?_eq_none_iff hv).2 hl), ih hvs,
        List.map_cons, List.filter_map]
      congr 2
      apply List.filter_congr
      intro w _
      simp [r.injective.eq_iff]

theorem named (h : Parallel r s s') (hws : ∀ w ∈ ws, w ∈ r.shown) (hn : Named ws s t)
    (hn' : Named (ws.map r.var) s' t') :
    (∀ v ∈ r.shown, t'.label? (r.var v) = (t.label? v).map fun code => code + r.ahead v.session) ∧
      ∀ i ∈ r.own, t'.cursor (r.session i) = t.cursor i + r.ahead i := by
  constructor
  · intro v hv
    have hown := r.own_of_shown v hv
    by_cases hw : v ∈ ws
    · obtain ⟨pre, post, rfl⟩ := List.append_of_mem hw
      have hpre : ∀ w ∈ pre, w ∈ r.shown := fun w hw => hws w (List.mem_append_left _ hw)
      rw [hn.given pre v post rfl, hn'.given (pre.map r.var) (r.var v) (post.map r.var)
        (by rw [List.map_append, List.map_cons]), r.session_var, h.countP_map hown hpre,
        h.cursor _ hown, Option.map_some, Nat.add_right_comm]
    · have hw' : r.var v ∉ ws.map r.var := by rwa [List.mem_map_of_injective r.injective]
      rw [hn.others v hw, hn'.others _ hw', h.label v hv]
  · intro i hi
    rw [hn.cursor, hn'.cursor, h.countP_map hi hws, h.cursor i hi, Nat.add_right_comm]

/-- the second run stops at a var that the first one has named -/
theorem ahead_of_stopped (h : Parallel r s s') (hws : ∀ w ∈ pre ++ v :: post, w ∈ r.shown)
    (hn : Named (pre ++ v :: post) s t) (hn' : Named (pre.map r.var) s' t')
    (hstop : labelBound ≤ t'.cursor (r.var v).session) :
    r.ahead v.session ≠ 0 ∧ labelBound ≤ t'.cursor (r.session v.session) := by
  have hown := r.own_of_shown v (hws v (by simp))
  rw [r.session_var] at hstop
  refine ⟨fun hahead => ?_, hstop⟩
  have hbound := hn.bound v (by simp)
  have hpre : ∀ w ∈ pre, w ∈ r.shown := fun w hw => hws w (List.mem_append_left _ hw)
  rw [hn'.cursor, h.countP_map hown hpre, h.cursor _ hown, hahead] at hstop
  rw [hn.cursor, List.countP_append, List.countP_cons_of_pos (by simp)] at hbound
  omega

/-- the second run does not get past a var that the first one has stopped at -/
theorem not_past_stopped (h : Parallel r s s') (hws : ∀ w ∈ pre ++ v :: post, w ∈ r.shown)
    (hn : Named pre s t) (hn' : Named ((pre ++ v :: post).map r.var) s' t')
    (hstop : labelBound ≤ t.cursor v.session) : False := by
  have hown := r.own_of_shown v (hws v (by simp))
  have hbound := hn'.bound (r.var v) (List.mem_map_of_mem (by simp))
  rw [r.session_var, hn'.cursor, h.countP_map hown hws, h.cursor _ hown, List.countP_append,
    List.countP_cons_of_pos (by simp)] at hbound
  rw [hn.cursor] at hstop
  omega

theorem split_map (h : s'.unnamed (vs.map r.var) = (s.unnamed vs).map r.var)
    {pre' post' : List Var} {w' : Var} (heq : s'.unnamed (vs.map r.var) = pre' ++ w' :: post') :
    ∃ pre w post, s.unnamed vs = pre ++ w :: post ∧ pre.map r.var = pre' ∧ r.var w = w' := by
  rw [h, List.map_eq_append_iff] at heq
  obtain ⟨pre, rest, hws, rfl, hrest⟩ := heq
  obtain ⟨w, post, rfl, rfl, rfl⟩ := List.map_eq_cons_iff.1 hrest
  exact ⟨pre, w, post, hws, rfl, rfl⟩

/-- where both runs stop, they have named the same vars, unless the second one is ahead -/
theorem stopped_alike (h : Parallel r s s') {f g : Failure} (hvs : ∀ v ∈ vs, v ∈ r.shown)
    (ht : s.OutOfNames vs f t) (ht' : s'.OutOfNames (vs.map r.var) g t') :
    r.GaveUp g t' ∨
      ∃ ws, (∀ w ∈ ws, w ∈ r.shown) ∧ Named ws s t ∧ Named (ws.map r.var) s' t' := by
  obtain ⟨pre, w, post, heq, hn, hstop⟩ := ht.stopped
  obtain ⟨pre', w', post', heq', hn', hstop'⟩ := ht'.stopped
  obtain ⟨pre₁, w₁, post₁, heq₁, rfl, rfl⟩ := split_map (h.unnamed_map hvs) heq'
  have hshown : ∀ x ∈ s.unnamed vs, x ∈ r.shown := fun x hx => hvs x (mem_unnamed.1 hx).1
  have hpre : ∀ x ∈ pre, x ∈ r.shown := fun x hx => hshown x (heq ▸ List.mem_append_left _ hx)
  have hpre₁ : ∀ x ∈ pre₁, x ∈ r.shown := fun x hx => hshown x (heq₁ ▸ List.mem_append_left _ hx)
  -- one of the two has named more than the other, or both have stopped at one var
  rcases List.append_eq_append_iff.1 (heq.symm.trans heq₁) with ⟨mid, rfl, hmid⟩ | ⟨mid, rfl, hmid⟩
  · cases mid with
    | nil =>
      rw [List.append_nil] at hn'
      exact .inr ⟨pre, hpre, hn, hn'⟩
    | cons x mid =>
      obtain ⟨rfl, -⟩ := List.cons.inj hmid
      exact (h.not_past_stopped hpre₁ hn hn' hstop).elim
  · cases mid with
    | nil =>
      rw [List.append_nil] at hn
      exact .inr ⟨pre₁, hpre₁, hn, hn'⟩
    | cons x mid =>
      obtain ⟨rfl, -⟩ := List.cons.inj hmid
      exact .inl ⟨ht'.failure, w₁.session, h.ahead_of_stopped hpre hn hn' hstop'⟩

/-- the second run may stop earlier only where it is ahead -/
theorem gaveUp_of_shown (h : Parallel r s s') {g : Failure} (hvs : ∀ v ∈ vs, v ∈ r.shown)
    (hn : Named (s.unnamed vs) s t) (ht' : s'.OutOfNames (vs.map r.var) g t') : r.GaveUp g t' := by
  obtain ⟨pre', w', post', heq', hn', hstop'⟩ := ht'.stopped
  obtain ⟨pre, w, post, heq, rfl, rfl⟩ := split_map (h.unnamed_map hvs) heq'
  have hshown : ∀ x ∈ s.unnamed vs, x ∈ r.shown := fun x hx => hvs x (mem_unnamed.1 hx).1
  rw [heq] at hn hshown
  exact ⟨ht'.failure, w.session, h.ahead_of_stopped hshown hn hn' hstop'⟩

/-- the second run never stops later -/
theorem not_shown_of_stopped (h : Parallel r s s') {f : Failure} (hvs : ∀ v ∈ vs, v ∈ r.shown)
    (ht : s.OutOfNames vs f t) (hn' : Named (s'.unnamed (vs.map r.var)) s' t') : False := by
  obtain ⟨pre, w, post, heq, hn, hstop⟩ := ht.stopped
  have hshown : ∀ x ∈ s.unnamed vs, x ∈ r.shown := fun x hx => hvs x (mem_unnamed.1 hx).1
  rw [h.unnamed_map hvs, heq] at hn'
  rw [heq] at hshown
  exact h.not_past_stopped hshown hn hn' hstop

end Parallel

/-! ## the text of a type -/

theorem Advance.of_named (h : Parallel r s s') (hws : ∀ w ∈ ws, w ∈ r.shown) (hn : Named ws s t)
    (hn' : Named (ws.map r.var) s' t') (hq : s.Quiet t) (hq' : s'.Quiet t') (hu : s.Unmoved t)
    (hu' : s'.Unmoved t') : Advance r s t t' where
  parallel := by
    obtain ⟨hlabel, hcursor⟩ := h.named hws hn hn'
    refine h.sameVars hu.toSameVars hu'.toSameVars (hq.sound h.sound) (hq'.sound h.sound')
      (fun v => ?_) hlabel hcursor (fun he => ?_) fun he => ?_
    · rw [hq.last_eq h.sound.acyclic, hq'.last_eq h.sound'.acyclic]
      exact h.last v
    · rw [hu.nextMark, hu'.nextMark, h.mark_eq he]
    · rw [hu.events, hu'.events, h.events_eq he]
  stays := {
    binds := .of_keeps hq.toKeeps h.sound
    names := hn.namesGrow
    new_own := fun v hm hn => absurd ((hu.made_iff v).1 hm) hn
    label_other := fun v hv => hn.others v fun hw => hv (hws v hw)
    compress := hu.compress }

theorem inStep_render (h : Parallel r s s') (hty : r.Shows s ty) (htt' : r.Maps ty ty') :
    InStep r out ty.render s ty'.render s' fun text text' t t' =>
      r.ShowsAlike t t' (s.resolve ty) text text' := by
  have hvars := hty.shown
  have hshown : ∀ w ∈ s.unnamed (s.resolve ty).vars, w ∈ r.shown :=
    fun w hw => hvars w (mem_unnamed.1 hw).1
  have hrun := (Ty.shows_render h.sound hty.has).and (Ty.unmoved_render ty s)
  have hrun' := (Ty.shows_render h.sound' (h.has htt' hty.has)).and (Ty.unmoved_render ty' s')
  rw [h.vars_eq htt'] at hrun'
  refine hrun.mono (fun text t ⟨ht, hu⟩ => hrun'.mono (fun text' t' ⟨ht', hu'⟩ => ?_)
    fun g t' ⟨ht', _⟩ => ?_) fun f t ⟨ht, hu⟩ => hrun'.mono (fun text' t' ⟨ht', _⟩ => ?_)
    fun g t' ⟨ht', hu'⟩ => ?_
  · have hn' := ht'.named
    rw [h.vars_eq htt', h.unnamed_map hvars] at hn'
    refine ⟨.of_named h hshown ht.named hn' ht.quiet ht'.quiet hu hu', hvars, fun v hv => ?_,
      ht.text_eq, ?_⟩
    · exact ht.named.label_of_shown hv
    · rw [ht'.text_eq, h.resolve_eq htt']
  · exact .inr (h.gaveUp_of_shown hvars ht.named ht')
  · have hn' := ht'.named
    rw [h.vars_eq htt'] at hn'
    exact (h.not_shown_of_stopped hvars ht hn').elim
  · refine .inr (.inr ((h.stopped_alike hvars ht ht').imp_right fun ⟨ws, hws, hn, hn'⟩ => ?_))
    rw [ht.failure, ht'.failure]
    exact ⟨.of_named h hws hn hn' ht.quiet ht'.quiet hu hu', .namesExhausted⟩

end LetPoly
