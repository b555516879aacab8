import LetPoly.Proofs.History
import LetPoly.Proofs.Store.Unifying

/-!
# Unification touches only its own types

Whether it returns or fails, a unification binds only vars of its two types, to types over vars of
the two, and it makes no var.  All other vars keep their bindings, up to chains that it has cut
short on the way (`unify_confined`).  New bindings make chains longer, and a chain may have been cut
short before that: so there is a store with the old bindings and the new ones next to each other,
nothing cut short, and the store left behind is that one with chains cut short.  Each step of a
unification keeps to this (`Unifying.rebinds`), so no step has to be taken back when a later one
fails.
-/

namespace LetPoly

open StoreM

namespace Store

variable {s s₁ s₂ g : Store} {v : Var} {t : Ty}

/-- `g` has the vars of `s`, all its bindings, and maybe more -/
structure Extends (s g : Store) : Prop where
  made : ∀ v, g.Made v ↔ s.Made v
  binding : ∀ v t, s.binding? v = some t → g.binding? v = some t

/-- from `s` to `s'` unbound vars were bound and chains were cut short -/
def Rebinds (s s' : Store) : Prop := ∀ g, Cuts g s → ∃ g', Extends g g' ∧ Cuts g' s'

theorem Extends.refl (s : Store) : s.Extends s := ⟨fun _ => Iff.rfl, fun _ _ h => h⟩

theorem Extends.trans (h : s.Extends s₁) (h' : s₁.Extends s₂) : s.Extends s₂ :=
  ⟨fun v => (h'.made v).trans (h.made v), fun v t ht => h'.binding v t (h.binding v t ht)⟩

theorem Cuts.rebinds (h : s.Cuts s₁) : s.Rebinds s₁ := fun g hg => ⟨g, .refl g, hg.trans h⟩

theorem Rebinds.refl (s : Store) : s.Rebinds s := (Cuts.refl s).rebinds

theorem Rebinds.trans (h : s.Rebinds s₁) (h' : s₁.Rebinds s₂) : s.Rebinds s₂ := by
  intro g hg
  obtain ⟨g₁, he, hg₁⟩ := h g hg
  obtain ⟨g₂, he', hg₂⟩ := h' g₁ hg₁
  exact ⟨g₂, he.trans he', hg₂⟩

instance : IsPreorder Store Rebinds where
  refl := .refl
  trans _ _ _ h h' := h.trans h'

theorem extends_bindTo (hv : s.Made v) (hb : s.binding? v = none) : s.Extends (s.bindTo v t) where
  made := made_bindTo
  binding w u hw := by
    rw [binding?_bindTo hv, if_neg, hw]
    rintro rfl
    rw [hb] at hw
    cases hw

/-- a var may be bound before chains are cut short or after -/
theorem Cuts.bindTo (h : g.Cuts s) (hv : s.Made v) (hb : s.binding? v = none) :
    (g.bindTo v t).Cuts (s.bindTo v t) := by
  have hvg : g.Made v := (h.made v).1 hv
  have he : g.Extends (g.bindTo v t) := extends_bindTo hvg ((h.unbound v).1 hb)
  refine ⟨fun w => ?_, fun w => ?_, fun w u hw => ?_⟩
  · rw [made_bindTo, made_bindTo, h.made]
  · rw [binding?_bindTo hv, binding?_bindTo hvg]
    split
    · exact Iff.rfl
    · exact h.unbound w
  · rw [binding?_bindTo hv] at hw
    split at hw
    · next heq =>
      cases hw
      exact ⟨t, by rw [binding?_bindTo hvg, if_pos heq], .refl⟩
    · obtain ⟨x, hx, hl⟩ := h.along w u hw
      exact ⟨x, he.binding w x hx, hl.mono he.binding⟩

theorem rebinds_bindTo (hv : s.Made v) (hb : s.binding? v = none) : s.Rebinds (s.bindTo v t) := by
  intro g hg
  exact ⟨g.bindTo v t, extends_bindTo ((hg.made v).1 hv) ((hg.unbound v).1 hb), hg.bindTo hv hb⟩

end Store

namespace Ty

open Store (Cuts Rebinds SameVars Extends)

variable {s s' : Store} {l r t : Ty} {o : Outcome} {task : Task} {v : Var}

/-- the store left behind -/
def Outcome.store : Outcome → Store
  | .ok _ s => s
  | .error _ s => s

theorem store_eq_after (act : StoreM Unit) (s : Store) :
    Outcome.store (act s) = StoreM.after act s := by
  rw [Outcome.store.eq_def, StoreM.after]
  cases act s <;> rfl

theorem cuts_note (e : Event) : Preserves Cuts (note e) := fun _ =>
  Cuts.of_binding?_eq (fun _ => Iff.rfl) fun _ => rfl

theorem cuts_clash (l r : Ty) : Preserves Cuts (clash l r) :=
  .bind (cuts_note _) fun _ => .bind (closed_cuts.render l) fun _ =>
    .bind (closed_cuts.render r) fun _ => preserves_throw _

theorem rebinds_bindVar (hv : s.Made v) (hb : s.binding? v = none) (t : Ty) :
    Ends (bindVar v t) s (fun _ s' => s.Rebinds s') fun _ s' => s.Rebinds s' := by
  have hnote : ∀ (e : Event) {s₁}, s.Rebinds s₁ →
      Ends (note e) s₁ (fun _ s' => s.Rebinds s') fun _ s' => s.Rebinds s' :=
    fun e s₁ h => (cuts_note e s₁).mono (fun _ _ h' => h.trans h'.rebinds)
      fun _ _ h' => h.trans h'.rebinds
  refine ((closed_cuts.occursIn (var v) t s).error_mono fun _ _ h => h.rebinds).bind
    fun b s₁ h => ?_
  cases b with
  | true => exact (hnote (.circular v t) h.rebinds).bind fun _ _ h' => h'
  | false =>
    have hassign : assign v (some t) s₁ = .ok ⟨⟩ (s₁.bindTo v t) := rfl
    simp only [Bool.false_eq_true, if_false]
    rw [ends_bind_iff, ends_of_ok hassign]
    refine hnote _ (h.rebinds.trans ?_)
    exact Store.rebinds_bindTo ((h.made v).2 hv) ((h.unbound v).2 hb)

/-- each call keeps to binding unbound vars and cutting chains short, also one that fails -/
theorem Unifying.rebinds (h : Unifying s task o) (hready : task.Ready s) : s.Rebinds o.store := by
  induction h with
  | @lookUp s s₁ s₂ l r l' r' o hl hr h ih =>
    have hcuts : s.Cuts s₂ := ((closed_cuts.prune l s).ok hl).trans ((closed_cuts.prune r s₁).ok hr)
    exact hcuts.rebinds.trans (ih (hready.lookUp hl hr).ready)
  | same => exact .refl _
  | @left s v r hr =>
    rw [store_eq_after]
    exact (rebinds_bindVar (Store.has_var.1 hready.left) (hready.prepared.1 v rfl) r).after
  | @right s w l hl =>
    rw [store_eq_after]
    exact (rebinds_bindVar (Store.has_var.1 hready.right) (hready.prepared.2 w rfl) l).after
  | clash hne =>
    rw [store_eq_after]
    exact ((cuts_clash _ _ _).mono (fun _ _ h => h.rebinds) fun _ _ h => h.rebinds).after
  | operators hlen _ ih => exact ih (hready.operators hlen)
  | missing hl hr hole => exact .refl _
  | done => exact .refl _
  | next h hrest ih ihrest =>
    exact (ih hready.head).trans (ihrest (hready.rest (h.equated hready.head).grows))
  | stop h ih => exact ih hready.head

/-- what a unification of `l` and `r` has done between `s` and `s'` -/
structure Confined (s : Store) (l r : Ty) (s' : Store) : Prop where
  sameVars : s.SameVars s'
  bound : ∀ v, s.binding? v = none → s'.binding? v ≠ none → v ∈ s.varsOf [l, r]
  contents : ∀ v, s.binding? v = none → s'.binding? v ≠ none →
    ∀ w ∈ (s'.resolve (var v)).vars, w ∈ s.varsOf [l, r]
  state : ∀ v ∉ s.varsOf [l, r], s'.binding? v = none ↔ s.binding? v = none
  /-- in `g` nothing has been cut short, and all other vars have their old bindings -/
  binding : ∃ g, s.Extends g ∧ (∀ v ∉ s.varsOf [l, r], g.binding? v = s.binding? v) ∧ g.Cuts s'

theorem Narrows.confined (h : Narrows s l r s') (hvars : s.SameVars s') (hrebinds : s.Rebinds s') :
    Confined s l r s' := by
  have hbound : ∀ v, s.binding? v = none → s'.binding? v ≠ none →
      v ∈ s.varsOf [l, r] ∧ ∀ w ∈ (s'.resolve (var v)).vars, w ∈ s.varsOf [l, r] := by
    intro v hb hb'
    obtain ⟨u, hu⟩ := Option.ne_none_iff_exists'.1 hb'
    have hm : s.Made v := h.only v (Store.made_of_binding? hu)
    obtain ⟨hfree, hin⟩ := h.touches v hm hb
    have hv : v ∈ s.varsOf [l, r] := by
      by_contra hv
      exact hb' (hfree hv)
    exact ⟨hv, fun w hw => hin hv w hw (h.only w (h.grows.sound.made_of_mem
      (Store.has_var.2 (h.grows.made v hm)) hw))⟩
  have hstate : ∀ v ∉ s.varsOf [l, r], s'.binding? v = none ↔ s.binding? v = none := by
    refine fun v hv => ⟨h.grows.unbound v, fun hb => ?_⟩
    by_contra hb'
    exact hv (hbound v hb hb').1
  refine ⟨hvars, fun v hb hb' => (hbound v hb hb').1, fun v hb hb' => (hbound v hb hb').2,
    hstate, ?_⟩
  obtain ⟨g, he, hg⟩ := hrebinds s (.refl s)
  refine ⟨g, he, fun v hv => ?_, hg⟩
  cases hb : s.binding? v with
  | none => rw [← hg.unbound, hstate v hv, hb]
  | some t => exact he.binding v t hb

theorem unify_confined (hs : s.Sound) (hl : s.Has l) (hr : s.Has r) :
    Confined s l r (StoreM.after (unify l r) s) := by
  have hnarrows : Narrows s l r (StoreM.after (unify l r) s) :=
    ((ends_unify hs hl hr).mono (fun _ _ h => h.toNarrows) fun _ _ h => h.toNarrows).after
  have hrebinds := ((unifying_iff hs hl hr).2 rfl).rebinds ⟨hs, hl, hr, trivial⟩
  rw [store_eq_after] at hrebinds
  exact hnarrows.confined (closed_sameVars.unify l r s).after hrebinds

/-- a unification that fails at a circle, after it has bound another var -/
theorem unify_confined_of_circle :
    Ends (unify circleLeft circleRight) pairStore (fun _ _ => False)
        (fun _ s' => s'.binding? ⟨0, 1⟩ ≠ none) ∧
      Confined pairStore circleLeft circleRight
        (StoreM.after (unify circleLeft circleRight) pairStore) := by
  refine ⟨by decide +kernel, unify_confined reached_pairStore.sound ⟨rfl, ?_⟩ ⟨rfl, ?_⟩⟩
  · decide +kernel
  · decide +kernel

end Ty
end LetPoly
