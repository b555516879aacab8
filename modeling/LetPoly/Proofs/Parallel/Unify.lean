import LetPoly.Proofs.Parallel.Render
import LetPoly.Proofs.Store.Unify

/-!
# Unification in two runs

Corresponding types are unified alike: the same pairs are met in the same order, corresponding vars
are bound, and a clash or a circle is found at the same place (`inStep_unify`).  The two runs have
different fuel, so they are compared up to runs without fuel left, of which there are none.
-/

namespace LetPoly

open StoreM Store Ty

variable {r : Renaming} {out : Failure → Prop} {s s' t t' : Store} {a b a' b' : Ty} {v : Var}

/-! ## ends of chains -/

theorem Renaming.Maps.eq_var_iff (h : r.Maps a a') : a' = .var (r.var v) ↔ a = .var v := by
  constructor
  · rintro rfl
    cases a with
    | var w =>
      have hw := h.of_var
      rw [Ty.var.injEq] at hw
      rw [r.injective hw]
    | op k n as =>
      obtain ⟨_, _, hop, -⟩ := h.of_op
      cases hop
    | hole => cases h.whole
  · rintro rfl
    exact h.of_var

theorem Parallel.ended (h : Parallel r s s') (ha : r.Maps a a') (he : s.Ended a) : s'.Ended a' := by
  intro w hw
  subst hw
  cases a with
  | var v =>
    have hv := ha.of_var
    rw [Ty.var.injEq] at hv
    rw [hv]
    exact h.unbound_iff.2 (he v rfl)
  | op k n as =>
    obtain ⟨_, _, hop, -⟩ := ha.of_op
    cases hop
  | hole => cases ha.whole

theorem Renaming.Shows.last (h : r.Shows s a) (hs : s.Sound) : r.Shows s (s.last a) := by
  refine ⟨hs.has_last h.has, fun v hv => h.shown v ?_⟩
  rwa [hs.acyclic.resolve_last] at hv

theorem Renaming.Shows.arg {k : Nat} {n : String} {as : List Ty} (h : r.Shows s (.op k n as))
    (ha : a ∈ as) : r.Shows s a := by
  refine ⟨has_op.1 h.has a ha, fun v hv => h.shown v ?_⟩
  rw [resolve_op, Term.mem_vars_op]
  exact ⟨_, List.mem_map_of_mem ha, hv⟩

theorem Renaming.Shows.var_mem (h : r.Shows s (.var v)) (hb : s.binding? v = none) :
    v ∈ r.shown := by
  refine h.shown v ?_
  rw [resolve_var, value_of_unbound hb]
  exact List.mem_singleton_self v

theorem inStep_lookUp (h : Parallel r s s') (ha : r.Maps a a') (hsh : r.Shows s a) :
    InStep r out a.prune s a'.prune s' fun u u' t _ =>
      r.Maps u u' ∧ u = s.last a ∧ s.Quiet t ∧ r.Shows t u ∧ t.Ended u := by
  refine ((inStep_prune h (h.maps_last ha)).and (ends_prune h.sound.acyclic a)).mono ?_
  rintro u u' t t' hadv ⟨⟨huu', hu⟩, -, hq⟩
  subst hu
  exact ⟨huu', rfl, hq, hadv.stays.shows h (hsh.last h.sound),
    hq.ended (h.sound.acyclic.ended_last a)⟩

/-! ## one var -/

theorem Advance.bindTo (h : Parallel r s s') (hv : r.Shows s (.var v)) (hb : s.binding? v = none)
    (ha : r.Shows s a) (haa' : r.Maps a a') (he : s.Ended a) (ho : v ∉ (s.resolve a).vars) :
    Advance r s (s.bindTo v a) (s'.bindTo (r.var v) a') := by
  have hs := h.sound.acyclic
  have hs' := h.sound'.acyclic
  have hm := has_var.1 hv.has
  have hm' := h.made v hm
  have hb' := h.unbound_iff.2 hb
  have ho' : r.var v ∉ (s'.resolve a').vars := fun hmem => ho ((h.mem_vars_iff haa').1 hmem)
  have hg := grows_bindTo h.sound hm hb ha.has ho
  have hg' := grows_bindTo h.sound' hm' hb' (h.has haa' ha.has) ho'
  have hvars : ∀ {s : Store} {v : Var} {t : Ty}, s.SameVars (s.bindTo v t) := fun {s v t} =>
    (s.still_assigned v (some t)).toSameVars
  constructor
  · refine h.sameVars hvars hvars hg.sound hg'.sound (fun w => ?_) (fun w hw => ?_)
      (fun i hi => ?_) h.mark_eq h.events_eq
    · have hlast := h.last w
      by_cases hw : s.last (.var w) = .var v
      · rw [last_bindTo_self hs hm hb ho he hw,
          last_bindTo_self hs' hm' hb' ho' (h.ended haa' he) (hlast.eq_var_iff.2 hw)]
        exact haa'
      · rw [last_bindTo_of_ne hs hm hb ho hw,
          last_bindTo_of_ne hs' hm' hb' ho' fun hw' => hw (hlast.eq_var_iff.1 hw')]
        exact hlast
    · rw [Store.bindTo, Store.bindTo, label?_assigned, label?_assigned, h.label w hw]
    · rw [Store.bindTo, Store.bindTo, cursor_modifyCell, cursor_modifyCell, h.cursor i hi]
  · refine ⟨⟨hg, touches_bindTo h.sound hm hb ha.has ho (hv.var_mem hb) ha.shown⟩,
      .of_same (fun w => s.label?_assigned v w (some a)) fun i _ => s.cursor_modifyCell v _ i,
      fun w hw hn => absurd ((made_bindTo w).1 hw) hn, fun w _ => s.label?_assigned v w (some a),
      rfl⟩

theorem inStep_bindVar (h : Parallel r s s') (hv : r.Shows s (.var v)) (hb : s.binding? v = none)
    (ha : r.Shows s a) (haa' : r.Maps a a') (he : s.Ended a) :
    InStep r out (bindVar v a) s (bindVar (r.var v) a') s' fun _ _ _ _ => True := by
  have hsought : Ends (occursIn (var v) a) s (fun b t => s.Quiet t ∧ (b ↔ s.Occurs (var v) a))
      never :=
    ends_occursIn h.sound ha.has
  have hocc : InStep r out (occursIn (var v) a) s (occursIn (var (r.var v)) a') s'
      fun c c' _ _ => c' = c := inStep_occursIn h (.var r v) haa' ha.has
  refine (hocc.and hsought).bind fun c c' t t' hadv ⟨hc, hq, hiff⟩ => ?_
  subst hc
  have hp := hadv.parallel
  have ha₁ := hadv.stays.shows h ha
  have hv₁ := hadv.stays.shows h hv
  cases c' with
  | true =>
    refine (inStep_note hp fun hx => ?_).bind fun _ _ u u' hadv' _ => ?_
    · rw [r.var_of_exact hx, haa'.eq_of_exact hx]
    · exact .throw hadv'.parallel (.circular (hadv'.stays.shows hp hv₁) (hadv'.stays.shows hp ha₁)
        (.var r v) haa')
  | false =>
    have ho : v ∉ (t.resolve a).vars := by
      rw [hq.resolve_eq h.sound.acyclic]
      exact fun hmem => nomatch hiff.2 ⟨v, rfl, hmem⟩
    have hbind := Advance.bindTo hp hv₁ ((hq.bound v).2 hb) ha₁ haa' (hq.ended he) ho
    have hassign : InStep r out (StoreM.assign v (some a)) t (StoreM.assign (r.var v) (some a')) t'
        fun _ _ _ _ => True := .of_ok rfl rfl hbind trivial
    refine hassign.bind fun _ _ u u' hadv' _ => inStep_note hadv'.parallel fun hx => ?_
    rw [r.var_of_exact hx, haa'.eq_of_exact hx]

/-! ## operators -/

theorem inStep_clash (h : Parallel r s s') (ha : r.Shows s a) (hb : r.Shows s b)
    (haa' : r.Maps a a') (hbb' : r.Maps b b') :
    InStep r out (clash a b) s (clash a' b') s' fun _ _ _ _ => True := by
  refine (inStep_note h fun hx => ?_).bind fun _ _ t t' hadv _ => ?_
  · rw [haa'.eq_of_exact hx, hbb'.eq_of_exact hx]
  have hp := hadv.parallel
  refine (inStep_render hp (hadv.stays.shows h ha) haa').bind fun x x' u u' hadv' hx => ?_
  have hb₁ := hadv'.stays.shows hp (hadv.stays.shows h hb)
  refine (inStep_render hadv'.parallel hb₁ hbb').bind fun y y' w w' hadv'' hy => ?_
  exact .throw hadv''.parallel (.mismatch (hadv''.showsAlike hadv'.parallel hx) hy)

def UnifyAlike (r : Renaming) (out : Failure → Prop) (act act' : Ty → Ty → StoreM Unit) : Prop :=
  ∀ (s s' : Store) (a b a' b' : Ty), Parallel r s s' → r.Shows s a → r.Shows s b → r.Maps a a' →
    r.Maps b b' → InStep r out (act a b) s (act' a' b') s' fun _ _ _ _ => True

theorem inStep_unifyAll {onward onward' : Ty → Ty → StoreM Unit} {as bs as' bs' : List Ty}
    (hon : ∀ a ∈ as, ∀ (s s' : Store) (b a' b' : Ty), Parallel r s s' → r.Shows s a → r.Shows s b →
      r.Maps a a' → r.Maps b b' →
        InStep r out (unifyWith onward a b) s (unifyWith onward' a' b') s' fun _ _ _ _ => True)
    (h : Parallel r s s') (has : ∀ a ∈ as, r.Shows s a) (hbs : ∀ b ∈ bs, r.Shows s b)
    (haas' : List.Forall₂ r.Maps as as') (hbbs' : List.Forall₂ r.Maps bs bs') :
    InStep r out (unifyAllWith onward as bs) s (unifyAllWith onward' as' bs') s'
      fun _ _ _ _ => True := by
  induction haas' generalizing s s' bs bs' with
  | nil => exact .pure h trivial
  | @cons a a' as as' ha _ ih =>
    cases hbbs' with
    | nil => exact .pure h trivial
    | @cons b b' bs bs' hb hbbs' =>
      obtain ⟨hsa, hsas⟩ := List.forall_mem_cons.1 has
      obtain ⟨hsb, hsbs⟩ := List.forall_mem_cons.1 hbs
      rw [unifyAllWith, unifyAllWith]
      refine (hon a List.mem_cons_self s s' b a' b' h hsa hsb ha hb).bind fun _ _ t t' hadv _ => ?_
      exact ih (fun x hx => hon x (List.mem_cons_of_mem a hx)) hadv.parallel
        (fun x hx => hadv.stays.shows h (hsas x hx)) (fun x hx => hadv.stays.shows h (hsbs x hx))
        hbbs'

/-! ## all types -/

theorem same_var_eq {v : Var} (h : r.Maps a a') : same (var (r.var v)) a' = same (var v) a := by
  rw [Bool.eq_iff_iff, same_var_left, same_var_left]
  exact h.eq_var_iff

theorem inStep_ends {onward onward' : Ty → Ty → StoreM Unit} (hon : UnifyAlike r out onward onward')
    (h : Parallel r s s') (ha : r.Shows s a) (hb : r.Shows s b) (haa' : r.Maps a a')
    (hbb' : r.Maps b b') (hea : s.Ended a) (heb : s.Ended b) :
    InStep r out (unifyEnds onward a b) s (unifyEnds onward' a' b') s' fun _ _ _ _ => True := by
  cases a with
  | var v =>
    rw [haa'.of_var, unifyEnds, unifyEnds, same_var_eq hbb']
    by_cases hsame : same (var v) b
    · simp only [hsame, if_true]
      exact .pure h trivial
    · simp only [hsame, Bool.false_eq_true, if_false]
      exact inStep_bindVar h ha (hea v rfl) hb hbb' heb
  | op k n as =>
    obtain ⟨k', as', rfl, -, -⟩ := id haa'.of_op
    cases b with
    | var w =>
      rw [hbb'.of_var]
      exact inStep_bindVar h hb (heb w rfl) ha haa' hea
    | op l m bs =>
      obtain ⟨l', bs', rfl, -, -⟩ := id hbb'.of_op
      exact hon s s' _ _ _ _ h ha hb haa' hbb'
    | hole => cases hbb'.whole
  | hole => cases haa'.whole

theorem unifyAlike_with {onward onward' : Ty → Ty → StoreM Unit}
    (hon : UnifyAlike r out onward onward') :
    UnifyAlike r out (unifyWith onward) (unifyWith onward') := by
  intro s s' a b a' b' h ha hb haa' hbb'
  induction a generalizing s s' b a' b' with
  | var v =>
    rw [haa'.of_var, unifyWith, unifyWith]
    refine (inStep_lookUp h (.var r v) ha).bind ?_
    rintro x x' t t' hadv ⟨hxx', -, -, hx, hex⟩
    have hb₁ := hadv.stays.shows h hb
    refine (inStep_lookUp hadv.parallel hbb' hb₁).bind ?_
    rintro y y' u u' hadv' ⟨hyy', -, hq, hy, hey⟩
    exact inStep_ends hon hadv'.parallel (hadv'.stays.shows hadv.parallel hx) hy hxx' hyy'
      (hq.ended hex) hey
  | op k n as ih =>
    obtain ⟨k', as', rfl, -, hargs⟩ := id haa'.of_op
    rw [unifyWith, unifyWith]
    refine (inStep_lookUp h hbb' hb).bind ?_
    rintro y y' t t' hadv ⟨hyy', -, hq, hy, hey⟩
    have hp := hadv.parallel
    have ha₁ := hadv.stays.shows h ha
    cases y with
    | var w =>
      rw [hyy'.of_var]
      exact inStep_bindVar hp hy (hey w rfl) ha₁ haa' fun v hv => by cases hv
    | op l m bs =>
      obtain ⟨l', bs', rfl, -, hbargs⟩ := id hyy'.of_op
      dsimp only
      rw [← hargs.length_eq, ← hbargs.length_eq]
      split
      · exact inStep_unifyAll ih hp (fun _ => ha₁.arg) (fun _ => hy.arg) hargs hbargs
      · exact inStep_clash hp ha₁ hy haa' hyy'
    | hole => cases hyy'.whole
  | hole => cases haa'.whole

theorem unifyAlike_within (fuel fuel' : Nat) :
    UnifyAlike r Endless (unifyWithin fuel) (unifyWithin fuel') := by
  induction fuel generalizing fuel' with
  | zero =>
    have hon : ∀ onward', UnifyAlike r Endless (fun _ _ => throw .endlessChain) onward' :=
      fun _ s _ _ _ _ _ _ _ _ _ _ => .out_left (t := s) rfl rfl
    cases fuel' with
    | zero => exact unifyAlike_with (hon _)
    | succ fuel' => exact unifyAlike_with (hon _)
  | succ fuel ih =>
    cases fuel' with
    | zero =>
      exact unifyAlike_with fun _ s' _ _ _ _ _ _ _ _ _ => .out_right (u := s') rfl rfl
    | succ fuel' => exact unifyAlike_with (ih fuel')

theorem inStep_unify (h : Parallel r s s') (ha : r.Shows s a) (hb : r.Shows s b)
    (haa' : r.Maps a a') (hbb' : r.Maps b b') :
    InStep r out (unify a b) s (unify a' b') s' fun _ _ _ _ => True := by
  have hrun : InStep r Endless (unify a b) s (unify a' b') s' fun _ _ _ _ => True :=
    unifyAlike_within s.unifyBound s'.unifyBound s s' a b a' b' h ha hb haa' hbb'
  refine (hrun.strict ?_ ?_).relax
  · exact (ends_unify h.sound ha.has hb.has).mono (fun _ _ _ => trivial) fun _ _ h =>
      h.refusal.ne_endlessChain
  · exact (ends_unify h.sound' (h.has haa' ha.has) (h.has hbb' hb.has)).mono
      (fun _ _ _ => trivial) fun _ _ h => h.refusal.ne_endlessChain

end LetPoly
