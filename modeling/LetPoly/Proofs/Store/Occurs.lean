import LetPoly.Proofs.Store.Prune
import LetPoly.Store.LookUp

/-!
# The occurs check is exact

`Ty.occursIn` searches a type through all bindings and answers whether the sought type is one of the
vars of its resolved form (`ends_occursIn`).  Its look-ups shorten chains on the way and change no
meaning, so an acyclic store never makes it fail.
-/

namespace LetPoly

open StoreM

namespace Store

/-- `sought` is a var of the resolved form of `t` -/
def Occurs (s : Store) (sought t : Ty) : Prop := ∃ v, sought = .var v ∧ v ∈ (s.resolve t).vars

variable {s s' : Store} {sought t : Ty}

theorem occurs_op {k : Nat} {n : String} {as : List Ty} :
    s.Occurs sought (.op k n as) ↔ ∃ a ∈ as, s.Occurs sought a := by
  simp only [Occurs, resolve_op, Term.mem_vars_op, List.mem_map]
  constructor
  · rintro ⟨v, rfl, _, ⟨a, ha, rfl⟩, hv⟩
    exact ⟨a, ha, v, rfl, hv⟩
  · rintro ⟨a, ha, v, rfl, hv⟩
    exact ⟨v, rfl, _, ⟨a, ha, rfl⟩, hv⟩

theorem Keeps.occurs_iff (h : s.Keeps s') (hs : s.Acyclic) :
    s'.Occurs sought t ↔ s.Occurs sought t := by
  rw [Occurs, Occurs, h.resolve_eq hs]

theorem occurs_unbound {v : Var} (h : s.binding? v = none) :
    s.Occurs sought (.var v) ↔ sought = .var v := by
  simp only [Occurs, resolve_var, value_of_unbound h, Term.vars_var, List.mem_singleton]
  constructor
  · rintro ⟨w, rfl, rfl⟩
    rfl
  · exact fun h => ⟨v, h, rfl⟩

end Store

namespace Ty

variable {s : Store} {rank : Var → Nat} {sought : Ty}

/-- a search of `t` in `s` that gives the right answer and changes no meaning -/
def Searched (s : Store) (sought t : Ty) (act : StoreM Bool) : Prop :=
  Ends act s (fun b s' => s.Quiet s' ∧ (b ↔ s.Occurs sought t)) never

theorem same_var_iff {v : Var} : same sought (var v) ↔ sought = var v := by
  cases sought <;> simp [same]

theorem searched_any {onward : Ty → StoreM Bool} {as : List Ty}
    (h : ∀ a ∈ as, ∀ s' : Store, s.Quiet s' → Searched s' sought a (occursWith onward sought a))
    (hs : s.Sound) (k : Nat) (n : String) :
    Searched s sought (op k n as) (occursWithAny onward sought as) := by
  unfold Searched
  simp only [Store.occurs_op]
  induction as generalizing s with
  | nil => exact ⟨.refl s, by simp⟩
  | cons a as ih =>
    rw [occursWithAny]
    refine (h a List.mem_cons_self s (.refl s)).bind fun b s₁ ⟨hk, hb⟩ => ?_
    cases b with
    | true => exact ⟨hk, fun _ => ⟨a, List.mem_cons_self, hb.1 rfl⟩, fun _ => rfl⟩
    | false =>
      have has : ¬ s.Occurs sought a := fun ha => nomatch hb.2 ha
      refine (ih (fun b hb s₂ hk₂ => h b (List.mem_cons_of_mem a hb) s₂ (hk.trans hk₂))
        (hk.sound hs)).ok_mono fun b s₂ ⟨hk₂, hb⟩ => ⟨hk.trans hk₂, ?_⟩
      simp only [hk.occurs_iff hs.acyclic] at hb
      rw [hb]
      simp [has]

/-- the search up to bound vars, given one that goes on at a bound var -/
theorem searched_with {onward : Ty → StoreM Bool} {fuel : Nat}
    (hon : ∀ (s : Store) (v : Var), s.Sound → s.Ranked rank → s.Made v → rank v ≤ fuel →
      (∃ u, s.binding? v = some u) → Searched s sought (var v) (onward (var v)))
    {t : Ty} (hs : s.Sound) (hr : s.Ranked rank) (ht : s.Has t)
    (hf : ∀ v ∈ t.term.vars, rank v ≤ fuel) :
    Searched s sought t (occursWith onward sought t) := by
  induction t generalizing s with
  | var v =>
    rw [Searched, occursWith, ends_get]
    cases hb : s.binding? v with
    | none =>
      simp only [ends_pure]
      exact ⟨.refl s, same_var_iff.trans (Store.occurs_unbound hb).symm⟩
    | some u =>
      exact hon s v hs hr (Store.has_var.1 ht) (hf v (List.mem_singleton_self v)) ⟨u, hb⟩
  | op k n as ih =>
    rw [occursWith]
    refine searched_any (fun a ha s' hk => ?_) hs k n
    refine ih a ha (hk.sound hs) (hk.ranked rank hr) (hk.has_of_has (Store.has_op.1 ht a ha)) ?_
    exact fun v hv => hf v (mem_vars_of_arg ha hv)
  | hole => exact absurd ht Store.not_has_hole

theorem searched_within {fuel : Nat} {t : Ty} (hs : s.Sound) (hr : s.Ranked rank) (ht : s.Has t)
    (hf : ∀ v ∈ t.term.vars, rank v ≤ fuel) :
    Searched s sought t (occursWithin sought fuel t) := by
  induction fuel generalizing s t with
  | zero =>
    rw [occursWithin]
    refine searched_with (fun s v _ hr _ hv ⟨u, hb⟩ => ?_) hs hr ht hf
    have := hr.pos hb
    omega
  | succ fuel ih =>
    rw [occursWithin]
    refine searched_with (fun s v hs hr hm hv ⟨u, hb⟩ => ?_) hs hr ht hf
    refine (ends_prune hs.acyclic (var v)).bind fun t s₁ ⟨ht, hk⟩ => ?_
    subst ht
    have hlast : s₁.Has (s.last (var v)) := hk.has_of_has (hs.has_last (Store.has_var.2 hm))
    refine (ih (hk.sound hs) (hk.ranked rank hr) hlast fun w hw => ?_).ok_mono
      fun b s₂ ⟨hk₂, hb⟩ => ⟨hk.trans hk₂, ?_⟩
    · have := hr.lt_of_mem_last hs.acyclic hb hw
      omega
    · rw [hb, hk.occurs_iff hs.acyclic, Store.Occurs, hs.acyclic.resolve_last]
      exact Iff.rfl

theorem ends_occursIn (hs : s.Sound) {t : Ty} (ht : s.Has t) :
    Ends (occursIn sought t) s (fun b s' => s.Quiet s' ∧ (b ↔ s.Occurs sought t)) never := by
  obtain ⟨rank, hr, hle⟩ := hs.acyclic.exists_rank
  exact searched_within hs hr ht fun v _ => hle v

theorem ends_occursInAny (hs : s.Sound) {ts : List Ty} (hts : ∀ t ∈ ts, s.Has t) :
    Ends (occursInAny sought ts) s
      (fun b s' => s.Quiet s' ∧ (b ↔ ∃ t ∈ ts, s.Occurs sought t)) never := by
  induction ts generalizing s with
  | nil => exact ⟨.refl s, by simp⟩
  | cons t ts ih =>
    rw [occursInAny]
    refine (ends_occursIn hs (hts t List.mem_cons_self)).bind fun b s₁ ⟨hk, hb⟩ => ?_
    cases b with
    | true => exact ⟨hk, fun _ => ⟨t, List.mem_cons_self, hb.1 rfl⟩, fun _ => rfl⟩
    | false =>
      have hnot : ¬ s.Occurs sought t := fun h => nomatch hb.2 h
      have htail : ∀ u ∈ ts, s₁.Has u := fun u hu =>
        hk.has_of_has (hts u (List.mem_cons_of_mem t hu))
      refine (ih (hk.sound hs) htail).ok_mono
        fun b s₂ ⟨hk₂, hb⟩ => ⟨hk.trans hk₂, ?_⟩
      simp only [hk.occurs_iff hs.acyclic] at hb
      rw [hb]
      simp [hnot]

theorem ends_isGeneric (hs : s.Sound) {ts : List Ty} (hts : ∀ t ∈ ts, s.Has t) :
    Ends (isGeneric sought ts) s
      (fun b s' => s.Quiet s' ∧ (b ↔ ∀ t ∈ ts, ¬ s.Occurs sought t)) never := by
  refine (ends_occursInAny hs hts).bind fun b s₁ ⟨hk, hb⟩ => ⟨hk, ?_⟩
  cases b with
  | true =>
    obtain ⟨t, ht, ho⟩ := hb.1 rfl
    exact ⟨nofun, fun h => absurd ho (h t ht)⟩
  | false => exact ⟨fun _ t ht ho => absurd (hb.2 ⟨t, ht, ho⟩) nofun, fun _ => rfl⟩

end Ty
end LetPoly
