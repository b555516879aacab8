import LetPoly.Proofs.Store.Cut

/-!
# A look-up compresses its chain

`Ty.prune` returns the end of a chain of bindings and points every bound var on the way straight at
it.  No other binding changes, no type changes its meaning, and a second look-up has nothing left to
do (`prune_finds`).

The vars on the way can be told without the fuel of the look-up: they are the bound vars that the
type leads to (`Acyclic.mem_chain_iff`).  Once they all point at the end, pointing them there again
leaves the very same store (`shortened_eq_self`).
-/

namespace LetPoly

open StoreM

namespace Store

variable {s : Store} {rank : Var → Nat} {t u : Ty} {v w : Var}

/-! ## the vars that a look-up passes -/

theorem Ended.unbound_of_leads (ht : s.Ended t) (hl : s.Leads t (.var v)) : s.binding? v = none :=
  ht v (ht.eq_of_leads hl)

theorem leads_var_iff (hb : s.binding? w = some u) :
    s.Leads (.var w) (.var v) ↔ v = w ∨ s.Leads u (.var v) := by
  constructor
  · intro h
    rcases Relation.ReflTransGen.cases_head h with heq | ⟨_, ⟨x, hx, hbx⟩, hl⟩
    · cases heq
      exact .inl rfl
    · cases hx
      rw [hb, Option.some.injEq] at hbx
      exact .inr (hbx ▸ hl)
  · intro h
    rcases h with rfl | hl
    · exact .refl
    · exact leads_var hb hl

theorem Ranked.mem_chainWithin_iff (hr : s.Ranked rank) {fuel : Nat}
    (h : ∀ w, t = .var w → rank w ≤ fuel) :
    v ∈ s.chainWithin fuel t ↔ s.Leads t (.var v) ∧ s.binding? v ≠ none := by
  induction fuel generalizing t with
  | zero =>
    rcases s.ended_or_bound t with ht | ⟨w, u, rfl, hb⟩
    · rw [chainWithin_ended ht]
      simp only [List.not_mem_nil, false_iff, not_and, not_not]
      exact ht.unbound_of_leads
    · have := hr.pos hb
      have := h w rfl
      omega
  | succ fuel ih =>
    rcases s.ended_or_bound t with ht | ⟨w, u, rfl, hb⟩
    · rw [chainWithin_ended ht]
      simp only [List.not_mem_nil, false_iff, not_and, not_not]
      exact ht.unbound_of_leads
    · have hu : ∀ x, u = .var x → rank x ≤ fuel := by
        intro x hx
        apply hr.le_of_bound hb (h w rfl)
        rw [hx]
        exact List.mem_singleton_self x
      have hw : v = w → s.binding? v ≠ none := by
        intro hvw
        rw [hvw, hb]
        simp
      rw [chainWithin_bound hb, List.mem_cons, ih hu, leads_var_iff hb]
      tauto

/-- a look-up passes the bound vars that its type leads to -/
theorem Acyclic.mem_chain_iff (hs : s.Acyclic) :
    v ∈ s.chain t ↔ s.Leads t (.var v) ∧ s.binding? v ≠ none := by
  obtain ⟨rank, hr, hle⟩ := hs.exists_rank
  exact hr.mem_chainWithin_iff fun w _ => hle w

/-! ## pointing vars where they point already -/

theorem modify_eq_self {α : Type} {a : Array α} {i : Nat} {f : α → α}
    (h : ∀ x, a[i]? = some x → f x = x) : a.modify i f = a := by
  apply Array.ext_getElem?
  intro j
  rw [Array.getElem?_modify]
  split
  · next hij =>
    subst hij
    cases hx : a[i]? with
    | none => rfl
    | some x => rw [Option.map_some, h x hx]
  · rfl

theorem assigned_eq_self (h : s.binding? v = some t) :
    (s.modifyCell v fun c => { c with binding := some t }) = s := by
  have hcell : ∀ c, s.cell? v = some c → { c with binding := some t } = c := by
    intro c hc
    rw [binding?, hc, Option.bind_some] at h
    rw [← h]
  have hsession : ∀ x, s.sessions[v.session]? = some x →
      { x with cells := x.cells.modify v.id fun c => { c with binding := some t } } = x := by
    intro x hx
    have hcells := modify_eq_self (a := x.cells) (i := v.id)
      (f := fun c => { c with binding := some t })
      fun c hc => hcell c (by rw [cell?, hx, Option.bind_some, hc])
    rw [hcells]
  show { s with sessions := s.sessions.modify v.session _ } = s
  rw [modify_eq_self hsession]

theorem pointAll_eq_self {vs : List Var} (h : ∀ v ∈ vs, s.binding? v = some t) :
    s.pointAll vs t = s := by
  induction vs with
  | nil => rfl
  | cons v vs ih =>
    have hrest : s.pointAll vs t = s := ih fun w hw => h w (List.mem_cons_of_mem v hw)
    show (s.pointAll vs t).modifyCell v _ = s
    rw [hrest]
    exact assigned_eq_self (h v List.mem_cons_self)

theorem shortened_eq_self {vs : List Var} (h : ∀ v ∈ vs, s.binding? v = some t) :
    s.shortened vs t = s := by
  unfold shortened
  split
  · exact pointAll_eq_self h
  · rfl

/-! ## the store after a look-up -/

def compressed (s : Store) (t : Ty) : Store := s.shortened (s.chain t) (s.last t)

theorem binding?_compressed (hs : s.Acyclic) (hc : s.compress = true) (t : Ty) (v : Var) :
    (s.compressed t).binding? v = if v ∈ s.chain t then some (s.last t) else s.binding? v := by
  have hmade : ∀ w ∈ s.chain t, s.Made w := by
    intro w hw
    obtain ⟨u, hu⟩ := Option.ne_none_iff_exists'.1 (hs.mem_chain_iff.1 hw).2
    exact made_of_binding? hu
  rw [compressed, binding?_shortened _ hmade]
  simp only [hc, true_and]

end Store

namespace Ty

open Store (Cuts Still)

variable {s s' : Store} {t u w : Ty}

/-- everything on the chain finds the same end from now on, and there is nothing left to do -/
theorem prune_compressed (hs : s.Acyclic) (hc : s.compress = true) (hl : s.Leads t w) :
    prune w (s.compressed t) = .ok (s.last t) (s.compressed t) := by
  have hquiet : s.Quiet (s.compressed t) := quiet_prune hs t
  have hcuts : s.Cuts (s.compressed t) := (closed_cuts.prune t s).ok (prune_eq hs t)
  have hlast : (s.compressed t).last w = s.last t := by
    rw [hquiet.last_eq hs, hs.last_eq hl]
  have hpointed : ∀ v ∈ (s.compressed t).chain w,
      (s.compressed t).binding? v = some (s.last t) := by
    intro v hv
    obtain ⟨hvl, hvb⟩ := (hquiet.acyclic hs).mem_chain_iff.1 hv
    have hin : v ∈ s.chain t :=
      hs.mem_chain_iff.2 ⟨hl.trans (hcuts.leads hvl), fun hb => hvb ((hquiet.bound v).2 hb)⟩
    rw [Store.binding?_compressed hs hc, if_pos hin]
  rw [prune_eq (hquiet.acyclic hs), hlast, Store.shortened_eq_self hpointed]

/-- a look-up of `t` in `s` found `u`, the very object at the end of the chain, and left `s'` -/
structure Found (s : Store) (t u : Ty) (s' : Store) : Prop where
  leads : s.Leads t u
  ended : s.Ended u
  /-- only a missing type is neither -/
  kind : ¬ s.Leads t hole → (∃ v, u = var v ∧ s.binding? v = none) ∨ ∃ k n as, u = op k n as
  passed : ∀ v, s.Leads t (var v) → s.binding? v ≠ none → s'.binding? v = some u
  others : ∀ v, ¬ (s.Leads t (var v) ∧ s.binding? v ≠ none) → s'.binding? v = s.binding? v
  /-- nothing is written but bindings -/
  still : s.Still s'
  resolve : ∀ w, s'.resolve w = s.resolve w
  /-- all of the chain finds the same end again, and nothing changes any more -/
  again : ∀ w, s.Leads t w → prune w s' = .ok u s'

theorem prune_finds (hs : s.Acyclic) (hc : s.compress = true) (t : Ty) :
    ∃ u s', prune t s = .ok u s' ∧ Found s t u s' := by
  have hrun : prune t s = .ok (s.last t) (s.compressed t) := prune_eq hs t
  refine ⟨s.last t, s.compressed t, hrun, ?_⟩
  constructor
  case leads => exact s.leads_last t
  case ended => exact hs.ended_last t
  case kind =>
    intro hhole
    have hl := s.leads_last t
    have hended := hs.ended_last t
    cases hu : s.last t with
    | var v => exact .inl ⟨v, rfl, hended v hu⟩
    | op k n as => exact .inr ⟨k, n, as, rfl⟩
    | hole => exact absurd (hu ▸ hl) hhole
  case passed =>
    intro v hl hb
    rw [Store.binding?_compressed hs hc, if_pos (hs.mem_chain_iff.2 ⟨hl, hb⟩)]
  case others =>
    intro v hv
    rw [Store.binding?_compressed hs hc, if_neg fun hin => hv (hs.mem_chain_iff.1 hin)]
  case still => exact (still_prune t s).ok hrun
  case resolve => exact (quiet_prune hs t).resolve_eq hs
  case again => exact fun w hl => prune_compressed hs hc hl

/-- two chains that join: the first var leads to the integers through two others, and the last one
leads to the first -/
def joinedStore : Store where
  sessions := #[{
    cells := #[{ binding := some (var ⟨0, 1⟩) }, { binding := some (var ⟨0, 2⟩) },
      { binding := some int }, { binding := some (var ⟨0, 0⟩) }]
    cursor := 945 }]

theorem prune_finds_of_joined :
    ∃ s', prune (var ⟨0, 0⟩) joinedStore = .ok int s' ∧ Found joinedStore (var ⟨0, 0⟩) int s' := by
  have hs : joinedStore.Sound := .of_rank (fun v => if v.id = 3 then 4 else 3 - v.id) (by decide)
  obtain ⟨u, s', hrun, hfound⟩ := prune_finds hs.acyclic rfl (var ⟨0, 0⟩)
  have hint : joinedStore.Leads (var ⟨0, 0⟩) int :=
    Store.leads_var rfl (Store.leads_var rfl (Store.leads_var rfl .refl))
  have hu : u = int := hfound.leads.unique hfound.ended hint Store.ended_op
  exact ⟨s', hu ▸ hrun, hu ▸ hfound⟩

end Ty
end LetPoly
