import LetPoly.Proofs.Store.Steps

/-!
# Display names

A session hands out its display names in the order of the code points.  `Store.cursor` is the next
one, and `nameNext` the store after a var has got it; no other basic step touches a name.

* `Store.unnamed s vs`   the vars of a list that have no name yet, in the order of first occurrence;
* `Named ws s s'`        exactly the vars `ws` got names, in this order, each the next one of its
  session;
* `Named.append`         two such runs are one;
* `Store.Owns s i c`     the names of a session are exactly those from `c` to its cursor, with one
  owner each;
* `NamesGrow s s'`       names stay once they are given, and ownership does.
-/

namespace LetPoly

open StoreM

namespace Store

variable {s s' s₁ s₂ : Store} {v w : Var} {vs ws : List Var}

def cursor (s : Store) (i : Nat) : Nat := (s.sessions[i]?).elim 0 Session.cursor

theorem Made.session_lt (h : s.Made v) : v.session < s.sessions.size := by
  by_contra hle
  rw [Made, madeBy_of_le (Nat.le_of_not_lt hle)] at h
  exact Nat.not_lt_zero _ h

theorem cursor_of_le {i : Nat} (h : s.sessions.size ≤ i) : s.cursor i = 0 := by
  rw [cursor, Array.getElem?_eq_none h, Option.elim_none]

/-! ## what the basic steps do to names -/

theorem cursor_modifySession (s : Store) (i : Nat) {f : Session → Session}
    (hf : ∀ t, (f t).cursor = t.cursor) (j : Nat) :
    (s.modifySession i f).cursor j = s.cursor j := by
  simp only [cursor, modifySession, Array.getElem?_modify]
  split
  · cases s.sessions[j]? with
    | none => rfl
    | some t => exact hf t
  · rfl

theorem cursor_modifyCell (s : Store) (v : Var) (f : Cell → Cell) (i : Nat) :
    (s.modifyCell v f).cursor i = s.cursor i :=
  s.cursor_modifySession v.session (by exact fun _ => rfl) i

theorem cursor_pushVar (s : Store) (i j : Nat) : (s.pushVar i).cursor j = s.cursor j :=
  s.cursor_modifySession i (by exact fun _ => rfl) j

theorem cursor_pushSession (s : Store) (c j : Nat) :
    (s.pushSession c).cursor j = if j = s.sessions.size then c else s.cursor j := by
  rw [cursor, pushSession, Array.getElem?_push]
  split
  · rfl
  · rfl

theorem label?_pushVar (s : Store) (i : Nat) (v : Var) : (s.pushVar i).label? v = s.label? v := by
  obtain ⟨j, k⟩ := v
  simp only [label?, cell?, pushVar, modifySession, Array.getElem?_modify]
  by_cases h : i = j
  · subst h
    cases s.sessions[i]? with
    | none => simp
    | some t =>
      simp only [if_true, Option.map_some, Option.bind_some, Array.getElem?_push]
      by_cases hk : k = t.cells.size
      · subst hk
        simp
      · rw [if_neg hk]
  · rw [if_neg h]

theorem label?_pushSession (s : Store) (c : Nat) (v : Var) :
    (s.pushSession c).label? v = s.label? v := by
  rw [label?, cell?_pushSession, label?]

theorem label?_of_not_made (h : ¬ s.Made v) : s.label? v = none := by
  rw [label?, Option.bind_eq_none_iff]
  intro c hc
  rw [← isSome_cell?, hc] at h
  exact absurd rfl h

/-! ## the next name -/

def nameNext (s : Store) (v : Var) : Store :=
  (s.modifySession v.session fun t => { t with cursor := t.cursor + 1 }).modifyCell v
    fun c => { c with label := some (s.cursor v.session) }

theorem quiet_nameNext (s : Store) (v : Var) : s.Quiet (s.nameNext v) :=
  (s.quiet_modifySession _ (by exact fun _ => rfl)).trans (quiet_named _ v _)

theorem label?_nameNext (hv : s.Made v) (w : Var) :
    (s.nameNext v).label? w = if w = v then some (s.cursor v.session) else s.label? w := by
  have hcell := s.cell?_modifySession v.session (f := fun t => { t with cursor := t.cursor + 1 })
    fun _ => rfl
  by_cases h : w = v
  · subst h
    rw [if_pos rfl, nameNext, label?, cell?_modifyCell_self, hcell]
    obtain ⟨c, hc⟩ := Option.isSome_iff_exists.1 (isSome_cell?.2 hv)
    rw [hc]
    rfl
  · rw [if_neg h, nameNext, label?_modifyCell_of_ne _ (Ne.symm h), label?, hcell, label?]

theorem cursor_nameNext (hv : s.Made v) (i : Nat) :
    (s.nameNext v).cursor i = if v.session = i then s.cursor i + 1 else s.cursor i := by
  rw [nameNext, cursor_modifyCell, cursor, modifySession, Array.getElem?_modify]
  by_cases h : v.session = i
  · subst h
    rw [if_pos rfl, if_pos rfl, cursor, Array.getElem?_eq_getElem hv.session_lt]
    rfl
  · rw [if_neg h, if_neg h, cursor]

/-! ## which vars get names -/

/-- the vars of a list without a name, each once, in the order of first occurrence -/
def unnamed (s : Store) : List Var → List Var
  | [] => []
  | v :: vs =>
    if (s.label? v).isSome then s.unnamed vs else v :: (s.unnamed vs).filter (· ≠ v)

theorem unnamed_of_label {code : Nat} (h : s.label? v = some code) (vs : List Var) :
    s.unnamed (v :: vs) = s.unnamed vs := by
  rw [unnamed, h]
  rfl

theorem unnamed_of_none (h : s.label? v = none) (vs : List Var) :
    s.unnamed (v :: vs) = v :: (s.unnamed vs).filter (· ≠ v) := by
  rw [unnamed, h]
  rfl

theorem mem_unnamed : w ∈ s.unnamed vs ↔ w ∈ vs ∧ s.label? w = none := by
  induction vs with
  | nil => simp [unnamed]
  | cons v vs ih =>
    cases h : s.label? v with
    | none =>
      rw [unnamed_of_none h, List.mem_cons, List.mem_filter, ih, List.mem_cons]
      by_cases hw : w = v
      · simp [hw, h]
      · simp [hw]
    | some code =>
      rw [unnamed_of_label h, ih, List.mem_cons]
      refine ⟨fun ⟨hw, hn⟩ => ⟨.inr hw, hn⟩, fun ⟨hw, hn⟩ => ⟨hw.resolve_left ?_, hn⟩⟩
      rintro rfl
      rw [h] at hn
      cases hn

theorem nodup_unnamed (s : Store) (vs : List Var) : (s.unnamed vs).Nodup := by
  induction vs with
  | nil => exact List.nodup_nil
  | cons v vs ih =>
    cases h : s.label? v with
    | none =>
      rw [unnamed_of_none h]
      exact List.nodup_cons.2 ⟨by simp, ih.filter _⟩
    | some code =>
      rw [unnamed_of_label h]
      exact ih

theorem unnamed_append (s : Store) (vs ws : List Var) :
    s.unnamed (vs ++ ws) = s.unnamed vs ++ (s.unnamed ws).filter (· ∉ s.unnamed vs) := by
  induction vs with
  | nil => simp [unnamed]
  | cons v vs ih =>
    cases h : s.label? v with
    | none =>
      rw [List.cons_append, unnamed_of_none h, unnamed_of_none h, ih, List.filter_append,
        List.cons_append, List.filter_filter]
      congr 2
      apply List.filter_congr
      intro w _
      by_cases hw : w = v <;> simp [hw]
    | some code => rw [List.cons_append, unnamed_of_label h, unnamed_of_label h, ih]

/-- once some vars have got names, they are passed over -/
theorem unnamed_later {us : List Var}
    (h : ∀ v, s'.label? v = none ↔ s.label? v = none ∧ v ∉ us) (ws : List Var) :
    s'.unnamed ws = (s.unnamed ws).filter (· ∉ us) := by
  induction ws with
  | nil => rfl
  | cons v ws ih =>
    cases hv : s.label? v with
    | some code =>
      have hv' : s'.label? v ≠ none := fun hn => by
        rw [((h v).1 hn).1] at hv
        cases hv
      obtain ⟨code', hcode'⟩ := Option.ne_none_iff_exists'.1 hv'
      rw [unnamed_of_label hv, unnamed_of_label hcode', ih]
    | none =>
      rw [unnamed_of_none hv]
      by_cases hu : v ∈ us
      · have hv' : s'.label? v ≠ none := fun hn => ((h v).1 hn).2 hu
        obtain ⟨code', hcode'⟩ := Option.ne_none_iff_exists'.1 hv'
        rw [unnamed_of_label hcode', ih, List.filter_cons_of_neg (by simpa using hu),
          List.filter_filter]
        apply List.filter_congr
        intro w _
        by_cases hw : w = v
        · simp [hw, hu]
        · simp [hw]
      · rw [unnamed_of_none ((h v).2 ⟨hv, hu⟩), ih, List.filter_cons_of_pos (by simpa using hu),
          List.filter_filter, List.filter_filter]
        congr 1
        apply List.filter_congr
        intro w _
        exact Bool.and_comm _ _

/-- from `s` to `s'` the vars `ws` got names, in their order, and nothing else did -/
structure Named (ws : List Var) (s s' : Store) : Prop where
  nodup : ws.Nodup
  unnamed : ∀ w ∈ ws, s.label? w = none
  /-- the name is as many places on as vars of the same session got names before -/
  given : ∀ pre w post, ws = pre ++ w :: post →
    s'.label? w = some (s.cursor w.session + pre.countP (·.session = w.session))
  others : ∀ v ∉ ws, s'.label? v = s.label? v
  cursor : ∀ i, s'.cursor i = s.cursor i + ws.countP (·.session = i)
  bound : ∀ w ∈ ws, s'.cursor w.session ≤ labelBound

namespace Named

theorem of_same (hl : ∀ v, s'.label? v = s.label? v) (hc : ∀ i, s'.cursor i = s.cursor i) :
    Named [] s s' where
  nodup := List.nodup_nil
  unnamed _ hw := nomatch hw
  given pre w post h := by simp at h
  others v _ := hl v
  cursor i := by rw [hc, List.countP_nil, Nat.add_zero]
  bound _ hw := nomatch hw

theorem next (hv : s.Made v) (h : s.label? v = none) (hc : s.cursor v.session < labelBound) :
    Named [v] s (s.nameNext v) where
  nodup := List.nodup_singleton v
  unnamed w hw := by
    rw [List.mem_singleton] at hw
    exact hw ▸ h
  given pre w post heq := by
    obtain ⟨rfl, rfl, rfl⟩ : pre = [] ∧ w = v ∧ post = [] := by
      cases pre with
      | nil => simpa [eq_comm] using heq
      | cons x pre => simp at heq
    rw [label?_nameNext hv, if_pos rfl, List.countP_nil, Nat.add_zero]
  others w hw := by
    rw [List.mem_singleton] at hw
    rw [label?_nameNext hv, if_neg hw]
  cursor i := by
    rw [cursor_nameNext hv]
    by_cases hi : v.session = i <;> simp [hi]
  bound w hw := by
    rw [List.mem_singleton] at hw
    rw [hw, cursor_nameNext hv, if_pos rfl]
    exact hc

theorem cursor_le (h : Named ws s s') (i : Nat) : s.cursor i ≤ s'.cursor i := by
  rw [h.cursor]
  exact Nat.le_add_right _ _

theorem isSome (h : Named ws s s') (hw : w ∈ ws) : ∃ code, s'.label? w = some code := by
  obtain ⟨pre, post, rfl⟩ := List.append_of_mem hw
  exact ⟨_, h.given pre w post rfl⟩

theorem label?_eq_none_iff (h : Named ws s s') :
    s'.label? v = none ↔ s.label? v = none ∧ v ∉ ws := by
  by_cases hv : v ∈ ws
  · obtain ⟨code, hcode⟩ := h.isSome hv
    simp [hcode, hv]
  · simp [h.others v hv, hv]

theorem keep (h : Named ws s s') {code : Nat} (hv : s.label? v = some code) :
    s'.label? v = some code := by
  rw [h.others, hv]
  intro hw
  rw [h.unnamed v hw] at hv
  cases hv

theorem append (h : Named ws s s₁) {us : List Var} (h' : Named us s₁ s₂) :
    Named (ws ++ us) s s₂ where
  nodup := by
    refine List.nodup_append.2 ⟨h.nodup, h'.nodup, fun v hv w hw heq => ?_⟩
    exact (h.label?_eq_none_iff.1 (h'.unnamed w hw)).2 (heq ▸ hv)
  unnamed v hv := by
    rcases List.mem_append.1 hv with hv | hv
    · exact h.unnamed v hv
    · exact (h.label?_eq_none_iff.1 (h'.unnamed v hv)).1
  given pre w post heq := by
    rcases List.append_eq_append_iff.1 heq with ⟨mid, rfl, rfl⟩ | ⟨mid, rfl, hmid⟩
    · rw [h'.given mid w post rfl, h.cursor, List.countP_append, Nat.add_assoc]
    · cases mid with
      | nil =>
        rw [List.nil_append] at hmid
        rw [h'.given [] w post hmid.symm, h.cursor, List.append_nil]
        simp
      | cons x mid =>
        rw [List.cons_append, List.cons.injEq] at hmid
        obtain ⟨rfl, rfl⟩ := hmid
        exact h'.keep (h.given pre w mid rfl)
  others v hv := by
    rw [List.mem_append, not_or] at hv
    rw [h'.others v hv.2, h.others v hv.1]
  cursor i := by rw [h'.cursor, h.cursor, List.countP_append, Nat.add_assoc]
  bound w hw := by
    rcases List.mem_append.1 hw with hw | hw
    · by_cases hu : ∃ u ∈ us, u.session = w.session
      · obtain ⟨u, hu, hs⟩ := hu
        exact hs ▸ h'.bound u hu
      · rw [h'.cursor, List.countP_eq_zero.2]
        · exact h.bound w hw
        · exact fun u hum => by simpa using fun hs => hu ⟨u, hum, hs⟩
    · exact h'.bound w hw

end Named

/-! ## who owns which name -/

/-- the `n`-th element of a list with some property, and what comes before it -/
theorem exists_split {α : Type} (p : α → Bool) {l : List α} {n : Nat} (h : n < l.countP p) :
    ∃ pre a post, l = pre ++ a :: post ∧ p a ∧ pre.countP p = n := by
  induction l generalizing n with
  | nil => simp at h
  | cons b l ih =>
    by_cases hb : p b
    · cases n with
      | zero => exact ⟨[], b, l, rfl, hb, rfl⟩
      | succ n =>
        rw [List.countP_cons_of_pos hb] at h
        obtain ⟨pre, a, post, rfl, ha, hpre⟩ := ih (Nat.lt_of_succ_lt_succ h)
        exact ⟨b :: pre, a, post, rfl, ha, by rw [List.countP_cons_of_pos hb, hpre]⟩
    · rw [List.countP_cons_of_neg hb] at h
      obtain ⟨pre, a, post, rfl, ha, hpre⟩ := ih h
      exact ⟨b :: pre, a, post, rfl, ha, by rw [List.countP_cons_of_neg hb, hpre]⟩

theorem split_unique {α : Type} (p : α → Bool) {pre pre' post post' : List α} {a a' : α}
    (h : pre ++ a :: post = pre' ++ a' :: post') (ha : p a) (ha' : p a')
    (hcount : pre.countP p = pre'.countP p) : a = a' := by
  induction pre generalizing pre' with
  | nil =>
    cases pre' with
    | nil => exact (List.cons.inj h).1
    | cons b pre' =>
      obtain ⟨rfl, -⟩ := List.cons.inj h
      rw [List.countP_cons_of_pos ha] at hcount
      cases hcount
  | cons b pre ih =>
    cases pre' with
    | nil =>
      obtain ⟨rfl, -⟩ := List.cons.inj h
      rw [List.countP_cons_of_pos ha'] at hcount
      cases hcount
    | cons b' pre' =>
      obtain ⟨rfl, hrest⟩ := List.cons.inj h
      rw [List.countP_cons, List.countP_cons, Nat.add_right_cancel_iff] at hcount
      exact ih hrest hcount

/-- the names of session `i`, which started at `c` -/
structure Owns (s : Store) (i c : Nat) : Prop where
  le : c ≤ s.cursor i
  given_iff : ∀ code, (∃ v : Var, v.session = i ∧ s.label? v = some code) ↔
    c ≤ code ∧ code < s.cursor i
  owner : ∀ v w : Var, v.session = i → w.session = i → ∀ code, s.label? v = some code →
    s.label? w = some code → v = w

/-- names that were given stay, and sessions go on handing out the names after them -/
structure NamesGrow (s s' : Store) : Prop where
  keep : ∀ v code, s.label? v = some code → s'.label? v = some code
  cursor_le : ∀ i, s.cursor i ≤ s'.cursor i
  owns : ∀ i c, i < s.sessions.size → s.Owns i c → s'.Owns i c

theorem NamesGrow.trans (h : s.NamesGrow s₁) (h' : s₁.NamesGrow s₂)
    (hsize : s.sessions.size ≤ s₁.sessions.size) : s.NamesGrow s₂ where
  keep v code hv := h'.keep v code (h.keep v code hv)
  cursor_le i := Nat.le_trans (h.cursor_le i) (h'.cursor_le i)
  owns i c hi ho := h'.owns i c (hi.trans_le hsize) (h.owns i c hi ho)

theorem NamesGrow.of_same (hl : ∀ v, s'.label? v = s.label? v)
    (hc : ∀ i < s.sessions.size, s'.cursor i = s.cursor i) : s.NamesGrow s' where
  keep v code hv := (hl v).trans hv
  cursor_le i := by
    by_cases hi : i < s.sessions.size
    · rw [hc i hi]
    · rw [cursor_of_le (Nat.le_of_not_lt hi)]
      exact Nat.zero_le _
  owns i c hi ho := by
    refine ⟨?_, fun code => ?_, fun v w hv hw code => ?_⟩
    · rw [hc i hi]
      exact ho.le
    · simp only [hl, hc i hi]
      exact ho.given_iff code
    · rw [hl, hl]
      exact ho.owner v w hv hw code

/-- a name given now is not below the cursor of before, one given before is -/
theorem Named.cursor_le_iff (h : Named ws s s') {i c code : Nat} (ho : s.Owns i c)
    (hv : v.session = i) (hl : s'.label? v = some code) : s.cursor i ≤ code ↔ v ∈ ws := by
  constructor
  · intro hle
    by_contra hw
    rw [h.others v hw] at hl
    exact absurd ((ho.given_iff code).1 ⟨v, hv, hl⟩).2 (Nat.not_lt.2 hle)
  · intro hw
    obtain ⟨pre, post, heq⟩ := List.append_of_mem hw
    rw [h.given pre v post heq, Option.some.injEq] at hl
    rw [← hl, hv]
    exact Nat.le_add_right _ _

theorem Named.owns (h : Named ws s s') {i c : Nat} (ho : s.Owns i c) : s'.Owns i c where
  le := Nat.le_trans ho.le (h.cursor_le i)
  given_iff code := by
    rw [h.cursor]
    constructor
    · rintro ⟨v, hv, hl⟩
      by_cases hw : v ∈ ws
      · have hle := (h.cursor_le_iff ho hv hl).2 hw
        obtain ⟨pre, post, heq⟩ := List.append_of_mem hw
        rw [h.given pre v post heq, Option.some.injEq, hv] at hl
        rw [heq, List.countP_append, List.countP_cons_of_pos (by simpa using hv)]
        have := ho.le
        omega
      · rw [h.others v hw] at hl
        have := (ho.given_iff code).1 ⟨v, hv, hl⟩
        omega
    · rintro ⟨hc, hlt⟩
      by_cases hold : code < s.cursor i
      · obtain ⟨v, hv, hl⟩ := (ho.given_iff code).2 ⟨hc, hold⟩
        exact ⟨v, hv, h.keep hl⟩
      · obtain ⟨pre, w, post, heq, hw, hpre⟩ :=
          exists_split (fun w : Var => w.session = i) (l := ws) (n := code - s.cursor i)
            (by omega)
        have hw : w.session = i := by simpa using hw
        refine ⟨w, hw, ?_⟩
        rw [h.given pre w post heq, hw, hpre, Nat.add_sub_cancel' (Nat.le_of_not_lt hold)]
  owner v w hv hw code hlv hlw := by
    have hmem : v ∈ ws ↔ w ∈ ws := by rw [← h.cursor_le_iff ho hv hlv, h.cursor_le_iff ho hw hlw]
    by_cases hvw : v ∈ ws
    · obtain ⟨pre, post, heq⟩ := List.append_of_mem hvw
      obtain ⟨pre', post', heq'⟩ := List.append_of_mem (hmem.1 hvw)
      rw [h.given pre v post heq, Option.some.injEq, hv] at hlv
      rw [h.given pre' w post' heq', Option.some.injEq, hw] at hlw
      refine split_unique (fun u : Var => u.session = i) (heq.symm.trans heq') (by simpa using hv)
        (by simpa using hw) ?_
      omega
    · rw [h.others v hvw] at hlv
      rw [h.others w fun hw => hvw (hmem.2 hw)] at hlw
      exact ho.owner v w hv hw code hlv hlw

theorem Named.namesGrow (h : Named ws s s') : s.NamesGrow s' where
  keep _ _ hv := h.keep hv
  cursor_le := h.cursor_le
  owns _ _ _ ho := h.owns ho

end Store

namespace StoreM

variable {s : Store} {v : Var}

theorem nameOf_labelled {code : Nat} (h : s.label? v = some code) :
    nameOf v s = .ok (labelText code) s := by
  rw [nameOf, get_bind, h]
  rfl

theorem nextLabel_eq (hv : s.Made v) : nextLabel v.session s =
    if s.cursor v.session < labelBound then
      .ok (s.cursor v.session)
        (s.modifySession v.session fun t => { t with cursor := t.cursor + 1 })
    else .error .namesExhausted s := by
  have hsize := hv.session_lt
  rw [nextLabel, get_bind, Store.cursor, Array.getElem?_eq_getElem hsize]
  dsimp only [Option.elim_some]
  by_cases h : s.sessions[v.session].cursor < labelBound
  · rw [if_pos h]
    exact (if_pos h).symm
  · rw [if_neg h]
    exact (if_neg h).symm

theorem nameOf_next (hv : s.Made v) (h : s.label? v = none)
    (hc : s.cursor v.session < labelBound) :
    nameOf v s = .ok (labelText (s.cursor v.session)) (s.nameNext v) := by
  have hnext := nextLabel_eq hv
  rw [if_pos hc] at hnext
  rw [nameOf, get_bind, h]
  dsimp only
  rw [bind_of_ok hnext]
  rfl

theorem nameOf_exhausted (hv : s.Made v) (h : s.label? v = none)
    (hc : labelBound ≤ s.cursor v.session) : nameOf v s = .error .namesExhausted s := by
  have hnext := nextLabel_eq hv
  rw [if_neg (Nat.not_lt.2 hc)] at hnext
  rw [nameOf, get_bind, h]
  dsimp only
  show EStateM.bind _ _ s = _
  rw [EStateM.bind, hnext]

end StoreM
end LetPoly
