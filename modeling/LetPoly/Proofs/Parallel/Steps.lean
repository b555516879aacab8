import LetPoly.Proofs.Parallel.InStep
import LetPoly.Proofs.Store.Frame

/-!
# Basic steps of two runs

Writing to the account, building an operator, making a var, opening a session, looking up and
searching keep parallel stores parallel, and give results that correspond.
-/

namespace LetPoly

open StoreM Store

variable {r : Renaming} {out : Failure → Prop} {s s' t t' : Store} {ty ty' : Ty}

/-! ## the same vars as before -/

theorem Parallel.sameVars (h : Parallel r s s') (hv : s.SameVars t) (hv' : s'.SameVars t')
    (hsound : t.Sound) (hsound' : t'.Sound)
    (hlast : ∀ v, r.Maps (t.last (.var v)) (t'.last (.var (r.var v))))
    (hlabel : ∀ v ∈ r.shown,
      t'.label? (r.var v) = (t.label? v).map fun code => code + r.ahead v.session)
    (hcursor : ∀ i ∈ r.own, t'.cursor (r.session i) = t.cursor i + r.ahead i)
    (hmark : r.exact → t'.nextMark = t.nextMark) (hevents : r.exact → t'.events = t.events) :
    Parallel r t t' where
  sound := hsound
  sound' := hsound'
  made v hm := (hv'.made_iff _).2 (h.made v ((hv.made_iff v).1 hm))
  last := hlast
  label := hlabel
  cursor := hcursor
  session_lt i hi := by
    rw [hv.size] at hi
    rw [hv'.size]
    exact h.session_lt i hi
  session_next k := by rw [hv.size, hv'.size, h.session_next]
  ahead_next k := by rw [hv.size, h.ahead_next]
  own_next k := by rw [hv.size]; exact h.own_next k
  var_next i hi k := by rw [hv.madeBy, hv'.madeBy, h.var_next i hi]
  shown_next v hm hown := h.shown_next v (fun hm' => hm ((hv.made_iff v).2 hm')) hown
  mark_eq := hmark
  events_eq := hevents

/-- steps that only shorten chains, write to the account and take marks -/
theorem Advance.of_quiet (h : Parallel r s s') (hq : s.Quiet t) (hq' : s'.Quiet t')
    (hv : s.SameVars t) (hv' : s'.SameVars t') (hl : ∀ v, t.label? v = s.label? v)
    (hl' : ∀ v, t'.label? v = s'.label? v) (hc : ∀ i, t.cursor i = s.cursor i)
    (hc' : ∀ i, t'.cursor i = s'.cursor i) (hmark : r.exact → t'.nextMark = t.nextMark)
    (hevents : r.exact → t'.events = t.events) (hcompress : t.compress = s.compress) :
    Advance r s t t' where
  parallel := by
    refine h.sameVars hv hv' (hq.sound h.sound) (hq'.sound h.sound') (fun v => ?_) (fun v hs => ?_)
      (fun i hi => ?_) hmark hevents
    · rw [hq.last_eq h.sound.acyclic, hq'.last_eq h.sound'.acyclic]
      exact h.last v
    · rw [hl, hl', h.label v hs]
    · rw [hc, hc', h.cursor i hi]
  stays := {
    binds := .of_keeps hq.toKeeps h.sound
    names := .of_same hl fun i _ => hc i
    new_own := fun v hm hn => absurd ((hv.made_iff v).1 hm) hn
    label_other := fun v _ => hl v
    compress := hcompress }

theorem Advance.of_still (h : Parallel r s s') (hq : s.Quiet t) (hq' : s'.Quiet t')
    (hst : s.Still t) (hst' : s'.Still t') : Advance r s t t' := by
  refine .of_quiet h hq hq' hst.toSameVars hst'.toSameVars hst.label hst'.label hst.cursor
    hst'.cursor (fun he => ?_) (fun he => ?_) hst.compress
  · rw [hst.nextMark, hst'.nextMark, h.mark_eq he]
  · rw [hst.events, hst'.events, h.events_eq he]

theorem InStep.of_still {α β : Type} {act : StoreM α} {act' : StoreM β} {Q : α → Store → Prop}
    {Q' : β → Store → Prop} {X : α → β → Store → Store → Prop} (h : Parallel r s s')
    (hact : Ends act s (fun a t => s.Quiet t ∧ Q a t) never) (hstill : Preserves Still act)
    (hact' : Ends act' s' (fun b t' => s'.Quiet t' ∧ Q' b t') never)
    (hstill' : Preserves Still act') (hX : ∀ a b t t', Q a t → Q' b t' → X a b t t') :
    InStep r out act s act' s' X := by
  obtain ⟨a, t, ha, hq, hQ⟩ := hact.exists_ok
  obtain ⟨b, t', hb, hq', hQ'⟩ := hact'.exists_ok
  refine .of_ok ha hb (.of_still h hq hq' ((hstill s).ok ha) ((hstill' s').ok hb)) ?_
  exact hX a b t t' hQ hQ'

theorem inStep_note {e e' : Event} (h : Parallel r s s') (he : r.exact → e' = e) :
    InStep r out (note e) s (note e') s' fun _ _ _ _ => True := by
  refine .of_ok rfl rfl ?_ trivial
  have hq : ∀ (s : Store) e, s.Quiet { s with events := s.events.push e } := fun s _ =>
    .of_binding?_eq (Nat.le_refl _) (fun _ => Iff.rfl) fun _ => rfl
  refine .of_quiet h (hq s e) (hq s' e') ⟨rfl, fun _ => rfl⟩ ⟨rfl, fun _ => rfl⟩ (fun _ => rfl)
    (fun _ => rfl) (fun _ => rfl) (fun _ => rfl) h.mark_eq (fun hx => ?_) rfl
  show s'.events.push e' = s.events.push e
  rw [h.events_eq hx, he hx]

theorem Advance.takeMark (h : Parallel r s s') :
    Advance r s { s with nextMark := s.nextMark + 1 } { s' with nextMark := s'.nextMark + 1 } := by
  have hq : ∀ s : Store, s.Quiet { s with nextMark := s.nextMark + 1 } := fun s =>
    .of_binding?_eq (Nat.le_refl _) (fun _ => Iff.rfl) fun _ => rfl
  refine .of_quiet h (hq s) (hq s') ⟨rfl, fun _ => rfl⟩ ⟨rfl, fun _ => rfl⟩ (fun _ => rfl)
    (fun _ => rfl) (fun _ => rfl) (fun _ => rfl) (fun hx => ?_) h.events_eq rfl
  show s'.nextMark + 1 = s.nextMark + 1
  rw [h.mark_eq hx]

theorem inStep_newOp {n : String} {as bs : List Ty} (h : Parallel r s s')
    (has : List.Forall₂ r.Maps as bs) :
    InStep r out (newOp n as) s (newOp n bs) s' fun u u' _ _ => r.Maps u u' :=
  .of_ok rfl rfl (.takeMark h) (.op h.mark_eq has)

theorem inStep_prune (h : Parallel r s s') (hty : r.Maps (s.last ty) (s'.last ty')) :
    InStep r out ty.prune s ty'.prune s' fun u u' _ _ => r.Maps u u' ∧ u = s.last ty := by
  have hend : ∀ {s : Store} (ty : Ty), s.Sound →
      Ends ty.prune s (fun u t => s.Quiet t ∧ u = s.last ty) never := fun ty hs =>
    (Ty.ends_prune hs.acyclic ty).ok_mono fun _ _ h => h.symm
  refine .of_still h (hend ty h.sound) (Ty.still_prune ty) (hend ty' h.sound')
    (Ty.still_prune ty') ?_
  rintro u u' _ _ rfl rfl
  exact ⟨hty, rfl⟩

/-! ## searching -/

theorem Parallel.occurs_iff (h : Parallel r s s') (hty : r.Maps ty ty') (v : Var) :
    s'.Occurs (.var (r.var v)) ty' ↔ s.Occurs (.var v) ty := by
  constructor
  · rintro ⟨w, hw, hmem⟩
    cases hw
    exact ⟨v, rfl, (h.mem_vars_iff hty).1 hmem⟩
  · rintro ⟨w, hw, hmem⟩
    cases hw
    exact ⟨r.var v, rfl, (h.mem_vars_iff hty).2 hmem⟩

/-- a type that is sought occurs in both runs or in neither; only a var can occur at all -/
theorem Parallel.occurs_maps_iff {sought sought' : Ty} (h : Parallel r s s')
    (hso : r.Maps sought sought') (hty : r.Maps ty ty') :
    s'.Occurs sought' ty' ↔ s.Occurs sought ty := by
  cases sought with
  | var v =>
    rw [hso.of_var]
    exact h.occurs_iff hty v
  | op k n as =>
    obtain ⟨l, bs, rfl, -, -⟩ := hso.of_op
    constructor
    · rintro ⟨_, hv, -⟩
      cases hv
    · rintro ⟨_, hv, -⟩
      cases hv
  | hole => cases hso.whole

theorem bool_eq_of_iff {a b : Bool} {P P' : Prop} (ha : a ↔ P) (hb : b ↔ P') (h : P' ↔ P) :
    b = a := Bool.eq_iff_iff.2 (hb.trans (h.trans ha.symm))

theorem inStep_occursIn {sought sought' : Ty} (h : Parallel r s s') (hso : r.Maps sought sought')
    (hty : r.Maps ty ty') (hs : s.Has ty) :
    InStep r out (Ty.occursIn sought ty) s (Ty.occursIn sought' ty') s' fun b b' _ _ => b' = b :=
  .of_still h (Ty.ends_occursIn h.sound hs) (Ty.still_occursIn sought ty)
    (Ty.ends_occursIn h.sound' (h.has hty hs)) (Ty.still_occursIn sought' ty')
    fun _ _ _ _ hb hb' => bool_eq_of_iff hb hb' (h.occurs_maps_iff hso hty)

theorem Parallel.forall₂_has (h : Parallel r s s') {ts ts' : List Ty}
    (hts : List.Forall₂ r.Maps ts ts') (hs : ∀ u ∈ ts, s.Has u) : ∀ u ∈ ts', s'.Has u := by
  induction hts with
  | nil => exact nofun
  | cons hty _ ih =>
    obtain ⟨hu, hus⟩ := List.forall_mem_cons.1 hs
    exact List.forall_mem_cons.2 ⟨h.has hty hu, ih hus⟩

theorem Parallel.generic_iff (h : Parallel r s s') {ts ts' : List Ty}
    (hts : List.Forall₂ r.Maps ts ts') (v : Var) :
    (∀ u ∈ ts', ¬ s'.Occurs (.var (r.var v)) u) ↔ ∀ u ∈ ts, ¬ s.Occurs (.var v) u := by
  induction hts with
  | nil => exact ⟨fun _ => nofun, fun _ => nofun⟩
  | cons hty _ ih => rw [List.forall_mem_cons, List.forall_mem_cons, ih, h.occurs_iff hty]

theorem inStep_isGeneric {ts ts' : List Ty} (h : Parallel r s s')
    (hts : List.Forall₂ r.Maps ts ts') (hs : ∀ u ∈ ts, s.Has u) (v : Var) :
    InStep r out (Ty.isGeneric (.var v) ts) s (Ty.isGeneric (.var (r.var v)) ts') s'
      fun b b' _ _ => b' = b :=
  .of_still h (Ty.ends_isGeneric h.sound hs) (Ty.still_isGeneric (.var v) ts)
    (Ty.ends_isGeneric h.sound' (h.forall₂_has hts hs)) (Ty.still_isGeneric (.var (r.var v)) ts')
    fun _ _ _ _ hb hb' => bool_eq_of_iff hb hb' (h.generic_iff hts v)

/-! ## new vars and sessions -/

theorem Parallel.pushVar (h : Parallel r s s') {i : Nat} (hi : i < s.sessions.size)
    (hown : i ∈ r.own) : Parallel r (s.pushVar i) (s'.pushVar (r.session i)) := by
  have hi' := h.session_lt i hi
  have hk := keeps_pushVar hi
  have hk' := keeps_pushVar hi'
  have hvar : r.var (s.nextVar i) = s'.nextVar (r.session i) := h.var_next i hown 0
  exact {
    sound := hk.sound h.sound
    sound' := hk'.sound h.sound'
    made := fun v hm => by
      rw [made_pushVar hi] at hm
      rw [made_pushVar hi']
      exact hm.imp (h.made v) fun hv => by rw [hv, hvar]
    last := fun v => by
      rw [hk.last_eq h.sound.acyclic, hk'.last_eq h.sound'.acyclic]
      exact h.last v
    label := fun v hv => by rw [label?_pushVar, label?_pushVar, h.label v hv]
    cursor := fun j hj => by rw [cursor_pushVar, cursor_pushVar, h.cursor j hj]
    session_lt := fun j hj => by
      rw [Store.pushVar, size_modifySession] at hj ⊢
      exact h.session_lt j hj
    session_next := fun k => by
      rw [Store.pushVar, Store.pushVar, size_modifySession, size_modifySession, h.session_next]
    ahead_next := fun k => by rw [Store.pushVar, size_modifySession, h.ahead_next]
    own_next := fun k => by rw [Store.pushVar, size_modifySession]; exact h.own_next k
    var_next := fun j hj k => by
      rw [madeBy_pushVar hi, madeBy_pushVar hi']
      by_cases hij : i = j
      · subst hij
        rw [if_pos rfl, if_pos rfl, Nat.add_assoc, Nat.add_assoc]
        exact h.var_next i hj (1 + k)
      · rw [if_neg hij, if_neg fun heq => hij (h.session_inj hown hj heq)]
        exact h.var_next j hj k
    shown_next := fun v hm hv => h.shown_next v (fun hm' => hm (hk.made v hm')) hv
    mark_eq := h.mark_eq
    events_eq := h.events_eq }

theorem inStep_newVar {i : Nat} (h : Parallel r s s') (hi : i < s.sessions.size)
    (hown : i ∈ r.own) :
    InStep r out (newVar i) s (newVar (r.session i)) s'
      fun v v' _ _ => v' = r.var v ∧ v ∈ r.shown := by
  refine .of_ok rfl rfl ⟨h.pushVar hi hown, ?_⟩ ⟨(h.var_next i hown 0).symm, ?_⟩
  · refine ⟨.of_keeps (keeps_pushVar hi) h.sound, ?_, fun v hm hn => ?_, fun v _ => ?_, rfl⟩
    · exact .of_same (s.label?_pushVar i) fun j _ => s.cursor_pushVar i j
    · rw [((made_pushVar hi v).1 hm).resolve_left hn]
      exact hown
    · exact s.label?_pushVar i v
  · exact h.shown_next _ (s.not_made_nextVar i) hown

theorem Parallel.pushSession (h : Parallel r s s') (c : Nat) :
    Parallel r (s.pushSession c) (s'.pushSession c) := by
  have hk := keeps_pushSession s c
  have hk' := keeps_pushSession s' c
  have hmade : ∀ (s : Store) v, (s.pushSession c).Made v ↔ s.Made v := fun s v => by
    rw [Made, madeBy_pushSession, Made]
  have hnew : r.session s.sessions.size = s'.sessions.size := h.session_next 0
  exact {
    sound := hk.sound h.sound
    sound' := hk'.sound h.sound'
    made := fun v hm => (hmade s' _).2 (h.made v ((hmade s v).1 hm))
    last := fun v => by
      rw [hk.last_eq h.sound.acyclic, hk'.last_eq h.sound'.acyclic]
      exact h.last v
    label := fun v hv => by rw [label?_pushSession, label?_pushSession, h.label v hv]
    cursor := fun i hi => by
      rw [cursor_pushSession, cursor_pushSession]
      by_cases hsize : i = s.sessions.size
      · have hahead : r.ahead s.sessions.size = 0 := h.ahead_next 0
        rw [if_pos hsize, hsize, if_pos hnew, hahead, Nat.add_zero]
      · rw [if_neg hsize, if_neg fun heq => hsize ?_, h.cursor i hi]
        exact h.session_inj hi (h.own_next 0) (heq.trans hnew.symm)
    session_lt := fun i hi => by
      rw [size_pushSession] at hi ⊢
      rcases Nat.lt_succ_iff_lt_or_eq.1 hi with hi | rfl
      · exact Nat.lt_succ_of_lt (h.session_lt i hi)
      · rw [hnew]
        exact Nat.lt_succ_self _
    session_next := fun k => by
      rw [size_pushSession, size_pushSession, Nat.add_assoc, Nat.add_assoc, h.session_next]
    ahead_next := fun k => by rw [size_pushSession, Nat.add_assoc, h.ahead_next]
    own_next := fun k => by rw [size_pushSession, Nat.add_assoc]; exact h.own_next (1 + k)
    var_next := fun i hi k => by
      rw [madeBy_pushSession, madeBy_pushSession]
      exact h.var_next i hi k
    shown_next := fun v hm hv => h.shown_next v (fun hm' => hm ((hmade s v).2 hm')) hv
    mark_eq := h.mark_eq
    events_eq := h.events_eq }

theorem Stays.pushSession (hs : s.Sound) (c : Nat) : Stays r s (s.pushSession c) where
  binds := .of_keeps (keeps_pushSession s c) hs
  names := by
    refine .of_same (s.label?_pushSession c) fun i hi => ?_
    rw [cursor_pushSession, if_neg hi.ne]
  new_own v hm hn := by
    rw [Made, madeBy_pushSession] at hm
    exact absurd hm hn
  label_other v _ := s.label?_pushSession c v
  compress := rfl

theorem inStep_newSession (first : String) (h : Parallel r s s') :
    InStep r out (newSession first) s (newSession first) s' fun i i' t _ =>
      i' = r.session i ∧ i ∈ r.own ∧ i < t.sessions.size := by
  unfold newSession
  split
  · next c _ =>
    refine .of_ok rfl rfl ⟨h.pushSession c.toNat, .pushSession h.sound c.toNat⟩ ?_
    exact ⟨(h.session_next 0).symm, h.own_next 0, s.lt_size_pushSession c.toNat⟩
  · exact .throw h (.notOneCharacter _)

end LetPoly
