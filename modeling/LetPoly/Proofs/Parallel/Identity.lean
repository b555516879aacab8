import LetPoly.Proofs.Parallel.Check

/-!
# A run beside itself

Every store is parallel to itself, and to a store that differs only in its chains.  So what holds
of two runs holds of one: `InStep.advance` has the frame of a single run.  Two runs with the very
same vars and operators also have the same results (`InStep.result_eq`).
-/

namespace LetPoly

open StoreM Store

/-- nothing is renamed, and neither run is ahead -/
def Renaming.identity (shown : Set Var) (own : Set Nat) (h : ∀ v ∈ shown, v.session ∈ own) :
    Renaming where
  session := id
  var := id
  shown := shown
  own := own
  ahead _ := 0
  exact := True
  injective := Function.injective_id
  session_var _ := rfl
  own_of_shown := h
  var_of_exact _ _ := rfl

def Renaming.same : Renaming := .identity Set.univ Set.univ fun _ _ => trivial

theorem Renaming.ahead_same (i : Nat) : Renaming.same.ahead i = 0 := rfl

def StoreM.result {α : Type} (act : StoreM α) (s : Store) : Except Failure α :=
  match act s with
  | .ok a _ => .ok a
  | .error f _ => .error f

/-- what holds of both endings, of a run whose failure is left as a result -/
theorem StoreM.Ends.result {α : Type} {act : StoreM α} {s : Store}
    {P : Except Failure α → Store → Prop}
    (h : StoreM.Ends act s (fun a t => P (.ok a) t) fun f t => P (.error f) t) :
    P (act.result s) (StoreM.after act s) := by
  unfold StoreM.Ends at h
  unfold StoreM.result StoreM.after
  cases hact : act s with
  | ok a t =>
    rw [hact] at h
    exact h
  | error f t =>
    rw [hact] at h
    exact h

variable {r : Renaming} {shown : Set Var} {own : Set Nat} {h : ∀ v ∈ shown, v.session ∈ own}
  {s s' t t' : Store} {ty : Ty}

theorem Renaming.maps_self (hty : ty.whole) : (identity shown own h).Maps ty ty :=
  .self hty fun _ _ => rfl

theorem Renaming.maps_all {ts : List Ty} (hts : ∀ t ∈ ts, t.whole) :
    List.Forall₂ (identity shown own h).Maps ts ts := by
  induction ts with
  | nil => exact .nil
  | cons t ts ih =>
    obtain ⟨ht, hts⟩ := List.forall_mem_cons.1 hts
    exact .cons (maps_self ht) (ih hts)

theorem Renaming.map_session (r : Renaming) (hx : r.exact) (session : Option Nat) :
    session.map r.session = session := by
  cases session with
  | none => rfl
  | some i => rw [Option.map_some, session_of_exact hx]

theorem Context.Within.ready {Γ : Context} {i : Nat} (hΓ : Γ.Within s)
    (hp : Parallel (.identity shown own h) s s') (hi : i < s.sessions.size) (hown : i ∈ own)
    (hshown : s.varsOf Γ.nonGeneric ⊆ shown) : Ready (.identity shown own h) s s' Γ Γ i :=
  .of_self hp hΓ (fun x t hx => Renaming.maps_self (hΓ.scope x t hx).whole)
    (fun u hu => Renaming.maps_self (hΓ.nonGeneric u hu).whole)
    (fun u hu => ⟨hΓ.nonGeneric u hu, fun _ hv => hshown ⟨u, hu, hv⟩⟩) hi hown

theorem Scope.Within.start {scope : Scope Ty} {session : Option Nat} (hscope : scope.Within s)
    (hi : ∀ i ∈ session, i < s.sessions.size) (hown : ∀ i ∈ session, i ∈ own) :
    Start (.identity shown own h) s scope session where
  within := hscope
  maps x t hx := Renaming.maps_self (hscope x t hx).whole
  session i hs := ⟨hi i hs, hown i hs⟩

theorem Store.Sound.last_whole (hs : s.Sound) (v : Var) : (s.last (.var v)).whole := by
  by_cases hm : s.Made v
  · exact (hs.has_last (has_var.2 hm)).whole
  · rw [Ended.last_eq fun w hw => by cases hw; exact binding?_of_not_made hm]
    rfl

theorem Parallel.refl (hs : s.Sound) (hown : ∀ k, s.sessions.size + k ∈ own)
    (hshown : ∀ v, ¬ s.Made v → v.session ∈ own → v ∈ shown) :
    Parallel (.identity shown own h) s s where
  sound := hs
  sound' := hs
  made _ hm := hm
  last := fun v => Renaming.maps_self (hs.last_whole v)
  label _ _ := Option.map_id'.symm
  cursor _ _ := rfl
  session_lt _ hi := hi
  session_next _ := rfl
  ahead_next _ := rfl
  own_next := hown
  var_next _ _ _ := rfl
  shown_next := hshown
  mark_eq _ := rfl
  events_eq _ := rfl

theorem Parallel.refl_same (hs : s.Sound) : Parallel .same s s :=
  .refl hs (fun _ => trivial) fun _ _ _ => trivial

/-- whether chains are to be shortened makes no difference yet -/
theorem Parallel.setCompress (hs : s.Sound) (b : Bool) :
    Parallel .same s { s with compress := b } := by
  have hq : s.Quiet { s with compress := b } :=
    .of_binding?_eq (Nat.le_refl _) (fun _ => Iff.rfl) fun _ => rfl
  refine (Parallel.refl_same hs).sameVars (.refl s) ⟨rfl, fun _ => rfl⟩ hs (hq.sound hs)
    (fun v => ?_) (fun _ _ => Option.map_id'.symm) (fun _ _ => rfl) (fun _ => rfl) fun _ => rfl
  rw [hq.last_eq hs.acyclic]
  exact Renaming.maps_self (hs.last_whole v)

theorem InStep.advance {α β : Type} {act : StoreM α} {act' : StoreM β}
    {X : α → β → Store → Store → Prop} (hrun : InStep r (fun _ => False) act s act' s' X)
    (hr : ∀ i, r.ahead i = 0) : Advance r s (StoreM.after act s) (StoreM.after act' s') := by
  unfold StoreM.after
  rcases hrun.alike hr with ⟨a, t, b, t', ha, hb, hadv, -⟩ | ⟨f, t, g, t', hf, hg, hadv, -⟩
  · rw [ha, hb]
    exact hadv
  · rw [hf, hg]
    exact hadv

theorem Renaming.MapsFailure.eq_of_exact {f g : Failure} (hfg : r.MapsFailure t t' f g)
    (hp : Parallel r t t') (hr : ∀ i, r.ahead i = 0) (hx : r.exact) : g = f := by
  cases hfg with
  | circular _ _ haa' hbb' => rw [haa'.eq_of_exact hx, hbb'.eq_of_exact hx]
  | mismatch ha hb => rw [ha.text_eq_text hp hr, hb.text_eq_text hp hr]
  | undefinedName x => rfl
  | namesExhausted => rfl
  | notOneCharacter n => rfl

theorem InStep.mapsOutcome {act act' : StoreM Ty}
    (hrun : InStep r (fun _ => False) act s act' s' fun ty ty' t _ => r.Maps ty ty' ∧ r.Shows t ty)
    (hno : StoreM.Ends act' s' (fun _ _ => True) fun g t' => ¬ r.GaveUp g t') :
    Advance r s (StoreM.after act s) (StoreM.after act' s') ∧
      r.MapsOutcome (StoreM.after act s) (StoreM.after act' s') (act.result s) (act'.result s') := by
  unfold StoreM.after StoreM.result
  rcases hrun.both hno with
    ⟨a, t, b, t', ha, hb, hadv, hmaps, hshows⟩ | ⟨f, t, g, t', hf, hg, hadv, hfg⟩
  · rw [ha, hb]
    exact ⟨hadv, .ok hshows hmaps⟩
  · rw [hf, hg]
    exact ⟨hadv, .error hfg⟩

theorem InStep.result_eq {α : Type} {act act' : StoreM α}
    (hrun : InStep r (fun _ => False) act s act' s' fun a b _ _ => b = a)
    (hr : ∀ i, r.ahead i = 0) (hx : r.exact) : StoreM.result act' s' = StoreM.result act s := by
  unfold StoreM.result
  rcases hrun.alike hr with ⟨a, t, b, t', ha, hb, -, hab⟩ | ⟨f, t, g, t', hf, hg, hadv, hfg⟩
  · rw [ha, hb, hab]
  · rw [hf, hg, hfg.eq_of_exact hadv.parallel hr hx]

end LetPoly
