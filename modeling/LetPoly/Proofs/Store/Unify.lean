import LetPoly.Proofs.Store.Bind
import LetPoly.Proofs.Store.Occurs
import LetPoly.Proofs.Store.Render
import LetPoly.Store.Unify

/-!
# Unification solves one equation

`ends_unify` says all that is used of `Ty.unify` elsewhere.  If it returns, the solutions of the
store afterwards are the solutions of the store before that make the two types equal
(`Ty.Equated`); if it fails, there are no such solutions (`Ty.Refused`).  Either way only vars of
the two types have been bound, no var has been made, and the store is still acyclic.

The fuel is never used up: on the way down the left type each bound var stands for a proper part of
what the bound vars above it stand for.  `Store.room` counts the vars that are not above.
-/

namespace LetPoly

open StoreM

namespace Store

variable {s s' : Store}

theorem mem_varsOf_pair {l r : Ty} {v : Var} :
    v ∈ s.varsOf [l, r] ↔ v ∈ (s.resolve l).vars ∨ v ∈ (s.resolve r).vars := by
  simp [varsOf]

open Classical in
/-- how many vars do not stand for a type that `v` stands for a proper part of -/
noncomputable def room (s : Store) (v : Var) : Nat :=
  (s.allVars.toFinset.filter fun w => ¬ (s.value v).Inside (s.value w)).card

theorem room_le_varCount (v : Var) : s.room v ≤ s.varCount := by
  classical
  calc s.room v ≤ s.allVars.toFinset.card := Finset.card_filter_le _ _
    _ ≤ s.allVars.length := List.toFinset_card_le _
    _ = s.varCount := s.length_allVars

theorem Grows.room_le (h : s.Grows s') (hs : s.Acyclic) (honly : ∀ v, s'.Made v → s.Made v)
    (v : Var) : s'.room v ≤ s.room v := by
  classical
  apply Finset.card_le_card
  intro w hw
  rw [Finset.mem_filter, List.mem_toFinset, mem_allVars] at hw ⊢
  refine ⟨honly w hw.1, fun hi => hw.2 ?_⟩
  rw [h.value_eq hs v, h.value_eq hs w]
  exact hi.subst _

theorem room_pos {v : Var} (hv : s.Made v) : 0 < s.room v := by
  classical
  refine Finset.card_pos.2 ⟨v, ?_⟩
  rw [Finset.mem_filter, List.mem_toFinset, mem_allVars]
  exact ⟨hv, Term.not_inside_self _⟩

/-- below a bound var there is less room -/
theorem room_lt {v u : Var} (hv : s.Made v) (hi : (s.value u).Inside (s.value v)) :
    s.room u < s.room v := by
  classical
  refine Finset.card_lt_card (Finset.ssubset_iff_of_subset (fun w hw => ?_) |>.2 ⟨v, ?_, ?_⟩)
  · rw [Finset.mem_filter] at hw ⊢
    exact ⟨hw.1, fun hvw => hw.2 (hi.trans hvw)⟩
  · rw [Finset.mem_filter, List.mem_toFinset, mem_allVars]
    exact ⟨hv, Term.not_inside_self _⟩
  · rw [Finset.mem_filter]
    exact fun h => h.2 hi

end Store

namespace Ty

variable {s s₁ s₂ : Store} {l r : Ty}

/-! ## one equation -/

/-- from `s` to `s'` only vars of `l` and `r` were bound, and no var was made -/
structure Narrows (s : Store) (l r : Ty) (s' : Store) : Prop where
  grows : s.Grows s'
  only : ∀ v, s'.Made v → s.Made v
  touches : Store.Touches (s.varsOf [l, r]) s s'

/-- `s'` adds to `s` the equation of `l` and `r`, and nothing else -/
structure Equated (s : Store) (l r : Ty) (s' : Store) : Prop extends Narrows s l r s' where
  solution : ∀ σ, s'.Solution σ ↔ s.Solution σ ∧ l.term.subst σ = r.term.subst σ

/-- the failures of unification; a clash cannot be shown if no names are left -/
def Refusal (f : Failure) (s' : Store) : Prop :=
  (∃ v t, f = .problem (.circular v t)) ∨ (∃ a b, f = .problem (.mismatch a b)) ∨
    (f = .namesExhausted ∧ s'.Exhausted)

theorem Refusal.ne_endlessChain {f : Failure} (h : Refusal f s) : f ≠ .endlessChain := by
  rintro rfl
  rcases h with ⟨_, _, hf⟩ | ⟨_, _, hf⟩ | ⟨hf, -⟩
  · cases hf
  · cases hf
  · cases hf

/-- `s` has no solution that makes `l` and `r` equal -/
structure Refused (s : Store) (l r : Ty) (f : Failure) (s' : Store) : Prop
    extends Narrows s l r s' where
  unsolvable : ∀ σ, s.Solution σ → l.term.subst σ ≠ r.term.subst σ
  refusal : Refusal f s'

/-- `act` adds the equation of `l` and `r` to `s`, or there is no solution of it -/
def Unifies (s : Store) (l r : Ty) (act : StoreM Unit) : Prop :=
  Ends act s (fun _ s' => Equated s l r s') (Refused s l r)

theorem varsOf_swap (s : Store) (l r : Ty) : s.varsOf [l, r] = s.varsOf [r, l] := by
  ext v
  rw [Store.mem_varsOf_pair, Store.mem_varsOf_pair, or_comm]

theorem Narrows.symm (h : Narrows s l r s₁) : Narrows s r l s₁ :=
  ⟨h.grows, h.only, varsOf_swap s l r ▸ h.touches⟩

theorem Unifies.symm {act : StoreM Unit} (h : Unifies s l r act) : Unifies s r l act :=
  h.mono (fun _ _ h => ⟨h.toNarrows.symm, fun σ => by rw [h.solution, eq_comm]⟩)
    fun _ _ h => ⟨h.toNarrows.symm, fun σ hσ heq => h.unsolvable σ hσ heq.symm, h.refusal⟩

theorem Narrows.mono {l' r' : Ty} (h : Narrows s l r s₁)
    (hE : s.varsOf [l, r] ⊆ s.varsOf [l', r']) : Narrows s l' r' s₁ :=
  ⟨h.grows, h.only, h.touches.mono hE⟩

theorem Narrows.trans {l' r' : Ty} (h : Narrows s l r s₁) (h' : Narrows s₁ l' r' s₂) (hs : s.Sound)
    (hl : s.Has l') (hr : s.Has r') (hE : s.varsOf [l', r'] ⊆ s.varsOf [l, r]) :
    Narrows s l r s₂ := by
  refine ⟨h.grows.trans h'.grows, fun v hv => h.only v (h'.only v hv), ?_⟩
  refine h.touches.trans h'.touches h.grows h'.grows fun w hw => ?_
  have hres : ∀ t, s.Has t → (∀ x ∈ (s.resolve t).vars, x ∈ s.varsOf [l', r']) →
      ∀ x ∈ (s₁.resolve t).vars, x ∈ s.orNew (s.varsOf [l, r]) := by
    intro t ht hx
    exact h.touches.mem_resolve h.grows hs ht (fun _ h => h)
      fun x hxt => Store.mem_orNew_of_mem (hE (hx x hxt))
  rcases Store.mem_varsOf_pair.1 hw with hw | hw
  · exact hres l' hl (fun x hx => Store.mem_varsOf_pair.2 (.inl hx)) w hw
  · exact hres r' hr (fun x hx => Store.mem_varsOf_pair.2 (.inr hx)) w hw

theorem Narrows.of_quiet (hq : s.Quiet s₁) (hs : s.Sound) : Narrows s l r s₁ :=
  ⟨hq.grows hs, hq.only, hq.touches hs.acyclic _⟩

theorem Narrows.quiet (h : Narrows s l r s₁) (hq : s₁.Quiet s₂) : Narrows s l r s₂ := by
  have hg := hq.grows h.grows.sound
  refine ⟨h.grows.trans hg, fun v hv => h.only v (hq.only v hv), ?_⟩
  exact h.touches.trans (hq.touches h.grows.acyclic ∅) h.grows hg fun _ hw => nomatch hw

theorem Equated.resolve_eq (h : Equated s l r s₁) : s₁.resolve l = s₁.resolve r :=
  ((h.solution _).1 h.grows.acyclic.value_solution).2

theorem Equated.quiet (h : Equated s l r s₁) (hq : s₁.Quiet s₂) : Equated s l r s₂ :=
  ⟨h.toNarrows.quiet hq, fun σ => (hq.solution σ).trans (h.solution σ)⟩

theorem Narrows.after {l' r' : Ty} (h : Narrows s₁ l' r' s₂) (hq : s.Quiet s₁) (hs : s.Sound)
    (hl : s.resolve l' = s.resolve l) (hr : s.resolve r' = s.resolve r) : Narrows s l r s₂ := by
  have hE : s₁.varsOf [l', r'] = s.varsOf [l, r] := by
    ext v
    rw [Store.mem_varsOf_pair, Store.mem_varsOf_pair, hq.resolve_eq hs.acyclic,
      hq.resolve_eq hs.acyclic, hl, hr]
  have hg := hq.grows hs
  refine ⟨hg.trans h.grows, fun v hv => hq.only v (h.only v hv), ?_⟩
  refine (hq.touches hs.acyclic _).trans (hE ▸ h.touches) hg h.grows ?_
  exact fun w hw => Store.mem_orNew_of_mem hw

theorem Equated.after {l' r' : Ty} (h : Equated s₁ l' r' s₂) (hq : s.Quiet s₁) (hs : s.Sound)
    (hl : s.resolve l' = s.resolve l) (hr : s.resolve r' = s.resolve r) : Equated s l r s₂ where
  toNarrows := h.toNarrows.after hq hs hl hr
  solution σ := by
    rw [h.solution, hq.solution]
    refine and_congr_right fun hσ => ?_
    rw [hσ.subst_congr hs.acyclic hl, hσ.subst_congr hs.acyclic hr]

theorem Refused.after {l' r' : Ty} {f : Failure} (h : Refused s₁ l' r' f s₂) (hq : s.Quiet s₁)
    (hs : s.Sound) (hl : s.resolve l' = s.resolve l) (hr : s.resolve r' = s.resolve r) :
    Refused s l r f s₂ where
  toNarrows := h.toNarrows.after hq hs hl hr
  unsolvable σ hσ heq := by
    refine h.unsolvable σ ((hq.solution σ).2 hσ) ?_
    rw [hσ.subst_congr hs.acyclic hl, hσ.subst_congr hs.acyclic hr, heq]
  refusal := h.refusal

/-- unification may be done on types with the same resolved forms, after steps that change no
meaning -/
theorem Unifies.after {l' r' : Ty} {act : StoreM Unit} (h : Unifies s₁ l' r' act) (hq : s.Quiet s₁)
    (hs : s.Sound) (hl : s.resolve l' = s.resolve l) (hr : s.resolve r' = s.resolve r) :
    Ends act s₁ (fun _ s' => Equated s l r s') (Refused s l r) :=
  h.mono (fun _ _ h' => h'.after hq hs hl hr) fun _ _ h' => h'.after hq hs hl hr

/-! ## one var -/

/-- no solution makes a var equal to a larger type that it occurs in -/
theorem subst_ne_of_occurs {v : Var} {t : Ty} (hs : s.Sound) (ht : s.Has t) (he : s.Ended t)
    (hne : t ≠ var v) (ho : v ∈ (s.resolve t).vars) {σ : Var → Term Var} (hσ : s.Solution σ) :
    σ v ≠ t.term.subst σ := by
  intro heq
  rw [← hσ.subst_resolve hs.acyclic] at heq
  cases t with
  | var w =>
    rw [Store.resolve_var, Store.value_of_unbound (he w rfl), Term.vars_var,
      List.mem_singleton] at ho
    exact hne (ho ▸ rfl)
  | op k n as =>
    rw [Store.resolve_op] at heq ho
    have hi := (Term.inside_of_mem_vars ho).subst σ
    rw [Term.subst_var, heq] at hi
    exact Term.not_inside_self _ hi
  | hole => exact Store.not_has_hole ht

/-- a var is bound, unless it occurs in what it would be bound to -/
theorem ends_bindVar {v : Var} {t : Ty} (hs : s.Sound) (ht : s.Has t) :
    Ends (bindVar v t) s
      (fun _ s' => v ∉ (s.resolve t).vars ∧ ∃ s₁, s.Quiet s₁ ∧ (s₁.bindTo v t).Quiet s')
      fun f s' => f = .problem (.circular (var v) t) ∧ v ∈ (s.resolve t).vars ∧ s.Quiet s' := by
  refine (ends_occursIn hs ht).safe.bind fun b s₁ ⟨hq, hocc⟩ => ?_
  have hocc : b ↔ v ∈ (s.resolve t).vars :=
    hocc.trans ⟨fun ⟨w, hw, h⟩ => by cases hw; exact h, fun h => ⟨v, rfl, h⟩⟩
  cases b with
  | true =>
    exact (ends_note (.circular v t)).safe.bind fun _ s₂ hq₂ =>
      ⟨rfl, hocc.1 rfl, hq.trans hq₂⟩
  | false =>
    have ho : v ∉ (s.resolve t).vars := fun h => nomatch hocc.2 h
    have hassign : assign v (some t) s₁ = .ok ⟨⟩ (s₁.bindTo v t) := rfl
    simp only [Bool.false_eq_true, if_false]
    rw [ends_bind_iff, ends_of_ok hassign]
    exact (ends_note (.bound v t)).mono (fun _ s₂ hq₂ => ⟨ho, s₁, hq, hq₂⟩) nofun

theorem equated_bindTo {v : Var} {t : Ty} (hs : s.Sound) (hv : s.Made v) (hb : s.binding? v = none)
    (ht : s.Has t) (ho : v ∉ (s.resolve t).vars) : Equated s (var v) t (s.bindTo v t) := by
  have hvE : v ∈ s.varsOf [var v, t] := by
    rw [Store.mem_varsOf_pair, Store.resolve_var, Store.value_of_unbound hb]
    exact .inl (List.mem_singleton_self v)
  exact {
    grows := Store.grows_bindTo hs hv hb ht ho
    only := fun w hw => (Store.made_bindTo w).1 hw
    touches := Store.touches_bindTo hs hv hb ht ho hvE
      fun w hw => Store.mem_varsOf_pair.2 (.inr hw)
    solution := Store.solution_bindTo hv hb }

theorem unifies_bindVar {v : Var} {t : Ty} (hs : s.Sound) (hv : s.Made v) (hb : s.binding? v = none)
    (ht : s.Has t) (he : s.Ended t) (hne : t ≠ var v) : Unifies s (var v) t (bindVar v t) := by
  refine (ends_bindVar hs ht).mono (fun _ s' ⟨ho, s₁, hq, hq'⟩ => ?_) fun f s' ⟨hf, ho, hq⟩ => ?_
  · rw [← hq.resolve_eq hs.acyclic] at ho
    have hbind := equated_bindTo (hq.sound hs) (hq.made v hv) ((hq.bound v).2 hb)
      (hq.has_of_has ht) ho
    exact (hbind.quiet hq').after hq hs rfl rfl
  · exact ⟨.of_quiet hq hs, fun σ hσ => subst_ne_of_occurs hs ht he hne ho hσ, .inl ⟨_, _, hf⟩⟩

theorem ends_clash (hs : s.Sound) (hl : s.Has l) (hr : s.Has r) :
    Ends (clash l r) s (fun _ _ => False) fun f s' => s.Quiet s' ∧
      ((∃ a b, f = .problem (.mismatch a b) ∧ s'.Spells (s.resolve l) a ∧
        s'.Spells (s.resolve r) b) ∨ (f = .namesExhausted ∧ s'.Exhausted)) := by
  have hshow : ∀ {t s₁}, s.Quiet s₁ → s.Has t → Ends (render t) s₁
      (fun a s₂ => s₁.Shown (s.resolve t) a s₂) (NamesOut s₁) := by
    intro t s₁ hq ht
    have h := (shows_render (hq.sound hs) (hq.has_of_has ht)).and
      (ends_render (hq.sound hs) (hq.has_of_has ht))
    rw [hq.resolve_eq hs.acyclic] at h
    exact h.mono (fun _ _ h => h.1) fun _ _ h => h.2
  refine (ends_note (.clash l r)).safe.bind fun _ s₁ hq₁ => ?_
  refine ((hshow hq₁ hl).error_mono fun f s₂ h => ?_).bind fun a s₂ ha => ?_
  · exact ⟨hq₁.trans h.2.1, .inr ⟨h.1, h.2.2⟩⟩
  have hq₂ := hq₁.trans ha.quiet
  refine ((hshow hq₂ hr).error_mono fun f s₃ h => ?_).bind fun b s₃ hb => ?_
  · exact ⟨hq₂.trans h.2.1, .inr ⟨h.1, h.2.2⟩⟩
  exact ⟨hq₂.trans hb.quiet, .inl ⟨a, b, rfl, ha.spells.keep hb.named, hb.spells⟩⟩

/-- operators that differ are never equal -/
theorem unifies_clash {k j : Nat} {n m : String} {as bs : List Ty} (hs : s.Sound)
    (hl : s.Has (op k n as)) (hr : s.Has (op j m bs)) (hne : ¬ (n = m ∧ as.length = bs.length)) :
    Unifies s (op k n as) (op j m bs) (clash (op k n as) (op j m bs)) := by
  have hun : ∀ σ, s.Solution σ → (op k n as).term.subst σ ≠ (op j m bs).term.subst σ := by
    intro σ _ heq
    rw [term_op, term_op, Term.subst_op, Term.subst_op, Term.op.injEq] at heq
    refine hne ⟨heq.1, ?_⟩
    have := congrArg List.length heq.2
    simpa using this
  refine (ends_clash hs hl hr).mono (fun _ _ h => h.elim) fun f s' ⟨hq, h⟩ => ?_
  refine ⟨.of_quiet hq hs, hun, .inr (h.imp_left ?_)⟩
  rintro ⟨a, b, hf, -⟩
  exact ⟨a, b, hf⟩

/-! ## all arguments -/

theorem Equated.refl (hs : s.Sound) (h : l.term = r.term) : Equated s l r s where
  toNarrows := .of_quiet (.refl s) hs
  solution σ := by simp only [h, and_true]

theorem varsOf_head {k j : Nat} {n m : String} {a b : Ty} {as bs : List Ty} :
    s.varsOf [a, b] ⊆ s.varsOf [op k n (a :: as), op j m (b :: bs)] := by
  intro v hv
  rw [Store.mem_varsOf_pair] at hv ⊢
  simp only [Store.resolve_op, Term.mem_vars_op, List.map_cons]
  exact hv.imp (fun h => ⟨_, List.mem_cons_self, h⟩) fun h => ⟨_, List.mem_cons_self, h⟩

theorem varsOf_tail {k j : Nat} {n m : String} {a b : Ty} {as bs : List Ty} :
    s.varsOf [op k n as, op j m bs] ⊆ s.varsOf [op k n (a :: as), op j m (b :: bs)] := by
  intro v hv
  rw [Store.mem_varsOf_pair] at hv ⊢
  simp only [Store.resolve_op, Term.mem_vars_op, List.map_cons] at hv ⊢
  rcases hv with ⟨t, ht, h⟩ | ⟨t, ht, h⟩
  · exact .inl ⟨t, List.mem_cons_of_mem _ ht, h⟩
  · exact .inr ⟨t, List.mem_cons_of_mem _ ht, h⟩

theorem subst_cons_eq_iff {k j : Nat} {n : String} {a b : Ty} {as bs : List Ty}
    {σ : Var → Term Var} :
    (op k n (a :: as)).term.subst σ = (op j n (b :: bs)).term.subst σ ↔
      a.term.subst σ = b.term.subst σ ∧ (op k n as).term.subst σ = (op j n bs).term.subst σ := by
  simp only [term_op, Term.subst_op, List.map_cons, Term.op.injEq, true_and, List.cons.injEq]

/-- arguments are unified in order, each pair in the store that the pairs before it left -/
theorem unifies_args {onward : Ty → Ty → StoreM Unit} {as bs : List Ty} (k j : Nat) (n : String)
    (hlen : as.length = bs.length) (hs : s.Sound) (hl : ∀ a ∈ as, s.Has a) (hr : ∀ b ∈ bs, s.Has b)
    (h : ∀ a ∈ as, ∀ b s', s.Grows s' → (∀ v, s'.Made v → s.Made v) → s'.Has a → s'.Has b →
      Unifies s' a b (unifyWith onward a b)) :
    Unifies s (op k n as) (op j n bs) (unifyAllWith onward as bs) := by
  induction as generalizing s bs with
  | nil =>
    cases bs with
    | nil => exact Equated.refl hs rfl
    | cons b bs => cases hlen
  | cons a as ih =>
    cases bs with
    | nil => cases hlen
    | cons b bs =>
      obtain ⟨hla, hlas⟩ := List.forall_mem_cons.1 hl
      obtain ⟨hrb, hrbs⟩ := List.forall_mem_cons.1 hr
      have hhead := h a List.mem_cons_self b s (.refl hs) (fun _ hv => hv) hla hrb
      refine Ends.bind (hhead.error_mono fun f s₁ h₁ => ?_) fun _ s₁ h₁ => ?_
      · refine ⟨h₁.toNarrows.mono varsOf_head, fun σ hσ heq => ?_, h₁.refusal⟩
        exact h₁.unsolvable σ hσ (subst_cons_eq_iff.1 heq).1
      · have hg := h₁.grows
        have htail := ih (s := s₁) (Nat.succ.inj hlen) hg.sound (fun t ht => hg.has (hlas t ht))
          (fun t ht => hg.has (hrbs t ht)) fun t ht u s' hg' honly =>
            h t (List.mem_cons_of_mem a ht) u s' (hg.trans hg') fun v hv => h₁.only v (honly v hv)
        have hnarrow : ∀ s₂, Narrows s₁ (op k n as) (op j n bs) s₂ →
            Narrows s (op k n (a :: as)) (op j n (b :: bs)) s₂ := by
          intro s₂ h₂
          exact (h₁.toNarrows.mono varsOf_head).trans h₂ hs (Store.has_op.2 hlas)
            (Store.has_op.2 hrbs) varsOf_tail
        refine htail.mono (fun _ s₂ h₂ => ⟨hnarrow s₂ h₂.toNarrows, fun σ => ?_⟩)
          fun f s₂ h₂ => ⟨hnarrow s₂ h₂.toNarrows, fun σ hσ heq => ?_, h₂.refusal⟩
        · rw [h₂.solution, h₁.solution, subst_cons_eq_iff, and_assoc]
        · obtain ⟨hab, habs⟩ := subst_cons_eq_iff.1 heq
          exact h₂.unsolvable σ ((h₁.solution σ).2 ⟨hσ, hab⟩) habs

/-! ## all types -/

/-- the vars of an operator stand for proper parts of what it stands for -/
theorem value_inside {k : Nat} {n : String} {as : List Ty} {u : Var}
    (hu : u ∈ (op k n as).term.vars) : (s.value u).Inside (s.resolve (op k n as)) := by
  rw [term_op] at hu
  have hi := (Term.inside_of_mem_vars hu).subst s.value
  rwa [← term_op (k := k)] at hi

theorem same_var_left {v : Var} {t : Ty} : same (var v) t ↔ t = var v := by
  cases t with
  | var w =>
    rw [same, beq_iff_eq, var.injEq]
    exact eq_comm
  | op k n as => simp [same]
  | hole => simp [same]

/-- `onward` unifies operators, as long as the left one has less room than the fuel -/
def Onward (fuel : Nat) (onward : Ty → Ty → StoreM Unit) : Prop :=
  ∀ (s : Store) (l r : Ty), s.Sound → s.Has l → s.Has r → 0 < fuel →
    (∀ u ∈ l.term.vars, s.room u < fuel) → Unifies s l r (onward l r)

/-- what is left to do when both chains have been followed to their ends -/
def unifyEnds (onward : Ty → Ty → StoreM Unit) : Ty → Ty → StoreM Unit
  | var v, right => do unless same (var v) right do bindVar v right
  | left, var w => bindVar w left
  | left, right => onward left right

theorem unifies_ends {onward : Ty → Ty → StoreM Unit} {fuel : Nat} (hon : Onward fuel onward)
    (hs : s.Sound) (hl : s.Has l) (hr : s.Has r) (hle : s.Ended l) (hre : s.Ended r)
    (hpos : 0 < fuel) (hf : ∀ k n as, l = op k n as → ∀ u ∈ l.term.vars, s.room u < fuel) :
    Unifies s l r (unifyEnds onward l r) := by
  cases l with
  | var v =>
    have hv : s.Made v := Store.has_var.1 hl
    rw [unifyEnds]
    by_cases hsame : same (var v) r
    · simp only [hsame, if_true]
      exact Equated.refl hs (same_var_left.1 hsame ▸ rfl)
    · simp only [hsame, Bool.false_eq_true, if_false]
      exact unifies_bindVar hs hv (hle v rfl) hr hre fun h => hsame (same_var_left.2 h)
  | op k n as =>
    cases r with
    | var w =>
      exact (unifies_bindVar hs (Store.has_var.1 hr) (hre w rfl) hl hle nofun).symm
    | op j m bs => exact hon s _ _ hs hl hr hpos (hf k n as rfl)
    | hole => exact absurd hr Store.not_has_hole
  | hole => exact absurd hl Store.not_has_hole

/-- a var is looked up first, and so is the other side -/
theorem unifies_var {onward : Ty → Ty → StoreM Unit} {fuel : Nat} (hon : Onward fuel onward)
    {v : Var} (hs : s.Sound) (hv : s.Made v) (hr : s.Has r) (hf : s.room v ≤ fuel) :
    Unifies s (var v) r (unifyWith onward (var v) r) := by
  rw [unifyWith]
  refine (ends_prune hs.acyclic (var v)).safe.bind fun l' s₁ ⟨hl', hq₁⟩ => ?_
  refine (ends_prune (hq₁.acyclic hs.acyclic) r).safe.bind fun r' s₂ ⟨hr', hq₂⟩ => ?_
  subst hl' hr'
  have hq := hq₁.trans hq₂
  have hs₁ := hq₁.sound hs
  have hlast : s₂.Has (s.last (var v)) := hq.has_of_has (hs.has_last (Store.has_var.2 hv))
  have hlast' : s₂.Has (s₁.last r) := hq₂.has_of_has (hs₁.has_last (hq₁.has_of_has hr))
  have hres : s.resolve (s₁.last r) = s.resolve r := by
    rw [← hq₁.resolve_eq hs.acyclic, hs₁.acyclic.resolve_last, hq₁.resolve_eq hs.acyclic]
  refine Unifies.after ?_ hq hs (hs.acyclic.resolve_last (var v)) hres
  refine unifies_ends hon (hq.sound hs) hlast hlast' (hq.ended (hs.acyclic.ended_last _))
    (hq₂.ended (hs₁.acyclic.ended_last r)) (Nat.lt_of_lt_of_le (Store.room_pos hv) hf)
    fun k n as hop u hu => ?_
  have hin : (s.value u).Inside (s.value v) := by
    rw [hop] at hu
    have := value_inside (s := s) hu
    rwa [← hop, hs.acyclic.resolve_last] at this
  calc s₂.room u ≤ s.room u := (hq.grows hs).room_le hs.acyclic hq.only u
    _ < s.room v := Store.room_lt hv hin
    _ ≤ fuel := hf

/-- an operator meets a var or another operator -/
theorem unifies_op {onward : Ty → Ty → StoreM Unit} {k : Nat} {n : String} {as : List Ty}
    (hs : s.Sound) (hl : s.Has (op k n as)) (hr : s.Has r)
    (h : ∀ a ∈ as, ∀ b s', s.Grows s' → (∀ v, s'.Made v → s.Made v) → s'.Has a → s'.Has b →
      Unifies s' a b (unifyWith onward a b)) :
    Unifies s (op k n as) r (unifyWith onward (op k n as) r) := by
  rw [unifyWith]
  refine (ends_prune hs.acyclic r).safe.bind fun r' s₁ ⟨hr', hq⟩ => ?_
  subst hr'
  refine Unifies.after ?_ hq hs rfl (hs.acyclic.resolve_last r)
  have hs₁ := hq.sound hs
  have hl₁ := hq.has_of_has hl
  have hr₁ := hq.has_of_has (hs.has_last hr)
  have hre := hq.ended (hs.acyclic.ended_last r)
  cases hr' : s.last r with
  | var w =>
    rw [hr'] at hr₁ hre
    exact (unifies_bindVar hs₁ (Store.has_var.1 hr₁) (hre w rfl) hl₁ nofun nofun).symm
  | op j m bs =>
    rw [hr'] at hr₁
    simp only
    split
    · next heq =>
      obtain ⟨rfl, hlen⟩ := heq
      refine unifies_args k j n hlen hs₁ (Store.has_op.1 hl₁) (Store.has_op.1 hr₁) ?_
      intro a ha b s' hg honly
      exact h a ha b s' ((hq.grows hs).trans hg) fun v hv => hq.only v (honly v hv)
    · next hne => exact unifies_clash hs₁ hl₁ hr₁ hne
  | hole =>
    rw [hr'] at hr₁
    exact absurd hr₁ Store.not_has_hole

/-- the way down the left type, where binding vars leaves less room -/
theorem unifies_with {onward : Ty → Ty → StoreM Unit} {fuel : Nat} (hon : Onward fuel onward)
    (hs : s.Sound) (hl : s.Has l) (hr : s.Has r) (hf : ∀ v ∈ l.term.vars, s.room v ≤ fuel) :
    Unifies s l r (unifyWith onward l r) := by
  induction l generalizing s r with
  | var v => exact unifies_var hon hs (Store.has_var.1 hl) hr (hf v (List.mem_singleton_self v))
  | op k n as ih =>
    refine unifies_op hs hl hr fun a ha b s' hg honly hla hrb => ?_
    refine ih a ha hg.sound hla hrb fun v hv => ?_
    calc s'.room v ≤ s.room v := hg.room_le hs.acyclic honly v
      _ ≤ fuel := hf v (mem_vars_of_arg ha hv)
  | hole => exact absurd hl Store.not_has_hole

theorem onward_within (fuel : Nat) : Onward (fuel + 1) (unifyWithin fuel) := by
  induction fuel with
  | zero =>
    intro s l r hs hl hr _ hf
    have hnone : Onward 0 fun _ _ => throw .endlessChain := by
      intro s l r _ _ _ hpos
      exact absurd hpos (Nat.lt_irrefl 0)
    exact unifies_with hnone hs hl hr fun u hu => Nat.le_of_lt_succ (hf u hu)
  | succ fuel ih =>
    intro s l r hs hl hr _ hf
    exact unifies_with ih hs hl hr fun u hu => Nat.le_of_lt_succ (hf u hu)

theorem varCount_le_unifyBound (s : Store) : s.varCount ≤ s.unifyBound := by
  calc s.varCount ≤ s.varCount + 1 := Nat.le_succ _
    _ ≤ (s.nextMark + 1) * (s.nextMark + 1) * (s.varCount + 1) :=
      Nat.le_mul_of_pos_left _ (Nat.mul_pos (Nat.succ_pos _) (Nat.succ_pos _))

theorem ends_unify (hs : s.Sound) (hl : s.Has l) (hr : s.Has r) : Unifies s l r (unify l r) := by
  rw [Unifies, unify, ends_get]
  refine onward_within s.unifyBound s l r hs hl hr (Nat.succ_pos _) fun u _ => ?_
  have := Store.room_le_varCount (s := s) u
  have := varCount_le_unifyBound s
  omega

end Ty
end LetPoly
