import LetPoly.Proofs.Store.Naming
import LetPoly.Proofs.Term.Print

/-!
# Stores that look alike

Two runs of the same operations from different stores are compared through a renaming of vars that
covers the vars still to be made, so it is fixed for the whole run.  Only views are compared: the
ends of chains, never the chains themselves.

* `Renaming`           which vars and sessions of the two runs correspond;
* `Renaming.Maps`      two types are the same up to the renaming;
* `Parallel r s s'`    `s` looks through `r` like `s'`;
* `Parallel.resolve_eq`   then types that correspond stand for terms that correspond.

A run may bind and name only vars of `Renaming.shown`, and make vars only in sessions of
`Renaming.own`.  Names are handed out alike in both runs, but the second run may be ahead.
-/

namespace LetPoly

/-- how the vars of one run correspond to those of another -/
structure Renaming where
  session : Nat → Nat
  var : Var → Var
  /-- the vars that may be bound and named -/
  shown : Set Var
  /-- the sessions that may make vars -/
  own : Set Nat
  /-- how many names of a session the second run is ahead -/
  ahead : Nat → Nat
  /-- whether both runs have the very same vars and operators -/
  exact : Prop
  injective : var.Injective
  session_var : ∀ v, (var v).session = session v.session
  own_of_shown : ∀ v ∈ shown, v.session ∈ own
  var_of_exact : exact → ∀ v, var v = v

namespace Renaming

/-- `t'` is `t` with the vars renamed; marks are free unless both runs have the same operators -/
structure Maps (r : Renaming) (t t' : Ty) : Prop where
  whole : t.whole
  whole' : t'.whole
  term_eq : t'.term = t.term.rename r.var
  eq_of_exact : r.exact → t' = t

variable {r : Renaming} {k l : Nat} {n : String} {as bs : List Ty} {t t' : Ty} {v : Var}

theorem session_of_exact (h : r.exact) (i : Nat) : r.session i = i := by
  have hv := r.session_var ⟨i, 0⟩
  rw [r.var_of_exact h] at hv
  exact hv.symm

namespace Maps

theorem self {t : Ty} (ht : t.whole) (hv : ∀ v ∈ t.term.vars, r.var v = v) : r.Maps t t :=
  ⟨ht, ht, (Term.rename_eq_self hv).symm, fun _ => rfl⟩

theorem var (r : Renaming) (v : Var) : r.Maps (.var v) (.var (r.var v)) :=
  ⟨rfl, rfl, rfl, fun h => by rw [r.var_of_exact h]⟩

theorem of_var (h : r.Maps (.var v) t') : t' = .var (r.var v) := by
  have hterm := h.term_eq
  cases t' with
  | var w =>
    rw [Ty.term_var, Ty.term_var, Term.rename_var, Term.var.injEq] at hterm
    rw [hterm]
  | op l m bs => cases hterm
  | hole => cases hterm

theorem forall₂_iff : List.Forall₂ r.Maps as bs ↔
    (∀ a ∈ as, a.whole) ∧ (∀ b ∈ bs, b.whole) ∧
      bs.map Ty.term = as.map (fun a => a.term.rename r.var) ∧ (r.exact → bs = as) := by
  constructor
  · intro h
    induction h with
    | nil => exact ⟨nofun, nofun, rfl, fun _ => rfl⟩
    | cons hab _ ih =>
      obtain ⟨hwa, hwb, hterm, hexact⟩ := ih
      refine ⟨List.forall_mem_cons.2 ⟨hab.whole, hwa⟩, List.forall_mem_cons.2 ⟨hab.whole', hwb⟩,
        ?_, fun he => ?_⟩
      · rw [List.map_cons, List.map_cons, hterm, hab.term_eq]
      · rw [hab.eq_of_exact he, hexact he]
  · rintro ⟨hwa, hwb, hterm, hexact⟩
    induction as generalizing bs with
    | nil =>
      rw [List.map_eq_nil_iff.1 hterm]
      exact .nil
    | cons a as ih =>
      cases bs with
      | nil => cases hterm
      | cons b bs =>
        rw [List.map_cons, List.map_cons, List.cons.injEq] at hterm
        obtain ⟨ha, has⟩ := List.forall_mem_cons.1 hwa
        obtain ⟨hb, hbs⟩ := List.forall_mem_cons.1 hwb
        refine .cons ⟨ha, hb, hterm.1, fun he => (List.cons.inj (hexact he)).1⟩ ?_
        exact ih has hbs hterm.2 fun he => (List.cons.inj (hexact he)).2

theorem op (hk : r.exact → l = k) (h : List.Forall₂ r.Maps as bs) :
    r.Maps (.op k n as) (.op l n bs) := by
  obtain ⟨hwa, hwb, hterm, hexact⟩ := forall₂_iff.1 h
  refine ⟨Ty.whole_op.2 hwa, Ty.whole_op.2 hwb, ?_, fun he => by rw [hk he, hexact he]⟩
  rw [Ty.term_op, Ty.term_op, Term.rename_op, hterm, List.map_map]
  rfl

theorem of_op (h : r.Maps (.op k n as) t') :
    ∃ l bs, t' = .op l n bs ∧ (r.exact → l = k) ∧ List.Forall₂ r.Maps as bs := by
  obtain ⟨hwhole, hwhole', hterm, hexact⟩ := h
  cases t' with
  | var w => cases hterm
  | hole => cases hwhole'
  | op l m bs =>
    rw [Ty.term_op, Ty.term_op, Term.rename_op, List.map_map, Term.op.injEq] at hterm
    obtain ⟨rfl, hargs⟩ := hterm
    refine ⟨l, bs, rfl, fun he => (Ty.op.inj (hexact he)).1, forall₂_iff.2 ?_⟩
    refine ⟨Ty.whole_op.1 hwhole, Ty.whole_op.1 hwhole', hargs, fun he => ?_⟩
    exact (Ty.op.inj (hexact he)).2.2

theorem int (r : Renaming) : r.Maps .int .int := .op (fun _ => rfl) .nil

end Maps
end Renaming

open Store

/-- `s` looks through `r` like `s'` -/
structure Parallel (r : Renaming) (s s' : Store) : Prop where
  sound : s.Sound
  sound' : s'.Sound
  made : ∀ v, s.Made v → s'.Made (r.var v)
  last : ∀ v, r.Maps (s.last (.var v)) (s'.last (.var (r.var v)))
  label : ∀ v ∈ r.shown,
    s'.label? (r.var v) = (s.label? v).map fun code => code + r.ahead v.session
  cursor : ∀ i ∈ r.own, s'.cursor (r.session i) = s.cursor i + r.ahead i
  /-- the sessions that a run has correspond, and so do those that it will open -/
  session_lt : ∀ i < s.sessions.size, r.session i < s'.sessions.size
  session_next : ∀ k, r.session (s.sessions.size + k) = s'.sessions.size + k
  ahead_next : ∀ k, r.ahead (s.sessions.size + k) = 0
  own_next : ∀ k, s.sessions.size + k ∈ r.own
  /-- the vars that a session will make correspond, and may be bound and named -/
  var_next : ∀ i ∈ r.own, ∀ k,
    r.var ⟨i, s.madeBy i + k⟩ = ⟨r.session i, s'.madeBy (r.session i) + k⟩
  shown_next : ∀ v, ¬ s.Made v → v.session ∈ r.own → v ∈ r.shown
  mark_eq : r.exact → s'.nextMark = s.nextMark
  events_eq : r.exact → s'.events = s.events

namespace Parallel

variable {r : Renaming} {s s' : Store} {t t' : Ty} {v : Var}

theorem maps_last (h : Parallel r s s') (ht : r.Maps t t') : r.Maps (s.last t) (s'.last t') := by
  cases t with
  | var v =>
    rw [ht.of_var]
    exact h.last v
  | op k n as =>
    obtain ⟨l, bs, rfl, -, -⟩ := id ht.of_op
    rwa [Ended.last_eq (t := .op k n as) (fun v hv => nomatch hv),
      Ended.last_eq (t := .op l n bs) (fun v hv => nomatch hv)]
  | hole => cases ht.whole

theorem binding?_eq_none_iff (hs : s.Acyclic) :
    s.binding? v = none ↔ s.last (.var v) = .var v := by
  constructor
  · intro hb
    exact Ended.last_eq fun w hw => by cases hw; exact hb
  · intro hl
    exact hs.ended_last (.var v) v hl

theorem unbound_iff (h : Parallel r s s') : s'.binding? (r.var v) = none ↔ s.binding? v = none := by
  rw [binding?_eq_none_iff h.sound.acyclic, binding?_eq_none_iff h.sound'.acyclic]
  have hl := h.last v
  constructor
  · intro hb
    rw [hb] at hl
    cases ht : s.last (.var v) with
    | var w =>
      rw [ht] at hl
      have hw := hl.of_var
      rw [Ty.var.injEq] at hw
      rw [r.injective hw]
    | op k n as =>
      rw [ht] at hl
      obtain ⟨_, _, hop, -⟩ := hl.of_op
      cases hop
    | hole =>
      rw [ht] at hl
      cases hl.whole
  · intro hb
    rw [hb] at hl
    exact hl.of_var

theorem value_eq (h : Parallel r s s') (v : Var) :
    s'.value (r.var v) = (s.value v).rename r.var := by
  have hs := h.sound.acyclic
  have hs' := h.sound'.acyclic
  obtain ⟨rank, hr, -⟩ := hs.exists_rank
  induction hn : rank v using Nat.strong_induction_on generalizing v with
  | _ n ih =>
    cases hb : s.binding? v with
    | none =>
      rw [value_of_unbound hb, value_of_unbound (h.unbound_iff.2 hb)]
      rfl
    | some u =>
      rw [← resolve_var (s := s), ← hs.resolve_last, ← resolve_var (s := s'), ← hs'.resolve_last,
        resolve, resolve, (h.last v).term_eq, Term.rename, Term.rename, Term.subst_subst,
        Term.subst_subst]
      apply Term.subst_congr
      intro w hw
      rw [Term.subst_var]
      exact ih (rank w) (hn ▸ hr.lt_of_mem_last hs hb hw) w rfl

theorem resolve_eq (h : Parallel r s s') (ht : r.Maps t t') :
    s'.resolve t' = (s.resolve t).rename r.var := by
  rw [resolve, resolve, ht.term_eq, Term.rename, Term.rename, Term.subst_subst, Term.subst_subst]
  apply Term.subst_congr
  intro v _
  rw [Term.subst_var]
  exact h.value_eq v

theorem vars_eq (h : Parallel r s s') (ht : r.Maps t t') :
    (s'.resolve t').vars = (s.resolve t).vars.map r.var := by
  rw [h.resolve_eq ht, Term.vars_rename]

theorem mem_vars_iff (h : Parallel r s s') (ht : r.Maps t t') :
    r.var v ∈ (s'.resolve t').vars ↔ v ∈ (s.resolve t).vars := by
  rw [h.vars_eq ht, List.mem_map_of_injective r.injective]

theorem has (h : Parallel r s s') (ht : r.Maps t t') (hs : s.Has t) : s'.Has t' := by
  refine ⟨ht.whole', fun w hw => ?_⟩
  rw [ht.term_eq, Term.vars_rename] at hw
  obtain ⟨v, hv, rfl⟩ := List.mem_map.1 hw
  exact h.made v (hs.made v hv)

theorem session_inj (h : Parallel r s s') {i j : Nat} (hi : i ∈ r.own) (hj : j ∈ r.own)
    (heq : r.session i = r.session j) : i = j := by
  have hvi := h.var_next i hi (s'.madeBy (r.session j))
  have hvj := h.var_next j hj (s'.madeBy (r.session i))
  rw [heq, Nat.add_comm, ← heq, heq] at hvi
  rw [heq] at hvj
  have hvar := r.injective (hvi.trans hvj.symm)
  exact (Var.mk.inj hvar).1

end Parallel
end LetPoly
