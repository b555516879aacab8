import Mathlib.Data.Set.Card
import LetPoly.Proofs.Store.Bind
import LetPoly.Proofs.Store.Render

/-!
# Runs that are watched

A run in `Recording` keeps a record beside the store: each var that was bound, with the type it was
bound to, in the order in which that happened.  Nobody has to say what a step binds.  `observe` looks
at the store before a step and after it and records the vars that have been bound in between, so it
passes over a look-up that points bound vars at new types.

* `Store.BindsAll s bs s'`   from `s` to `s'` the vars of `bs` were bound, each once, and no others;
* `Watches w act s`          the watched run `w` does what `act` does, binds all that it records, and
                             notes in the account each binding that it records, and the reason if it
                             fails, but nothing else.

`Watches` is closed under the ways to put runs together (`Watches.bind`), so it is proved of a
program by going through its text.
-/

namespace LetPoly

namespace Store

variable {s s₁ s₂ s' : Store} {v : Var} {t : Ty} {bs bs' : List (Var × Ty)}

/-- the vars that are bound in `s'` and were not bound in `s`, with what they are bound to -/
def bindingsSince (s s' : Store) : List (Var × Ty) :=
  s'.allVars.filterMap fun v =>
    if (s.binding? v).isSome then none else (s'.binding? v).map fun t => (v, t)

theorem nodup_allVars (s : Store) : s.allVars.Nodup := by
  rw [allVars, List.nodup_flatMap]
  refine ⟨fun i _ => List.nodup_range.map fun j k h => (Var.mk.inj h).2, ?_⟩
  refine List.nodup_range.imp fun hne => ?_
  simp only [Function.onFun, List.disjoint_left, List.mem_map]
  rintro v ⟨j, -, rfl⟩ ⟨k, -, hk⟩
  exact hne (Var.mk.inj hk).1.symm

theorem bindingsSince_eq_nil (h : ∀ v, s.binding? v = none → s'.binding? v = none) :
    s.bindingsSince s' = [] := by
  refine List.filterMap_eq_nil_iff.2 fun v _ => ?_
  cases hv : s.binding? v with
  | some t => rfl
  | none => simp [h v hv]

theorem bindingsSince_eq_singleton (hm : s'.Made v) (hv : s.binding? v = none)
    (ht : s'.binding? v = some t)
    (hothers : ∀ w, v ≠ w → s.binding? w = none → s'.binding? w = none) :
    s.bindingsSince s' = [(v, t)] := by
  obtain ⟨pre, post, heq⟩ := List.append_of_mem (mem_allVars.2 hm)
  have hnd := s'.nodup_allVars
  rw [heq, List.nodup_middle, List.nodup_cons, List.mem_append, not_or] at hnd
  obtain ⟨⟨hpre, hpost⟩, -⟩ := hnd
  have hnone : ∀ vs : List Var, v ∉ vs → (vs.filterMap fun w =>
      if (s.binding? w).isSome then none else (s'.binding? w).map fun t => (w, t)) = [] := by
    intro vs hvs
    refine List.filterMap_eq_nil_iff.2 fun w hw => ?_
    have hne : v ≠ w := by
      rintro rfl
      exact hvs hw
    cases hs : s.binding? w with
    | some u => rfl
    | none => simp [hothers w hne hs]
  rw [bindingsSince, heq, List.filterMap_append, List.filterMap_cons, hnone pre hpre,
    hnone post hpost]
  simp [hv, ht]

/-- from `s` to `s'` the vars of `bs` were bound, each once, and no others -/
structure BindsAll (s : Store) (bs : List (Var × Ty)) (s' : Store) : Prop where
  grows : s.Grows s'
  nodup : (bs.map Prod.fst).Nodup
  mem_iff : ∀ v, v ∈ bs.map Prod.fst ↔ s.binding? v = none ∧ s'.binding? v ≠ none
  /-- what a var was bound to is what it stands for now -/
  stands : ∀ b ∈ bs, s'.resolve (.var b.1) = s'.resolve b.2

theorem Keeps.bindsAll (h : s.Keeps s') (hs : s.Sound) : s.BindsAll [] s' where
  grows := h.grows hs
  nodup := .nil
  mem_iff v := by simp [h.bound v]
  stands := nofun

theorem BindsAll.trans (h : s.BindsAll bs s₁) (h' : s₁.BindsAll bs' s₂) :
    s.BindsAll (bs ++ bs') s₂ where
  grows := h.grows.trans h'.grows
  nodup := by
    rw [List.map_append, List.nodup_append]
    refine ⟨h.nodup, h'.nodup, ?_⟩
    rintro v hv _ hv' rfl
    exact ((h.mem_iff v).1 hv).2 ((h'.mem_iff v).1 hv').1
  mem_iff v := by
    rw [List.map_append, List.mem_append, h.mem_iff, h'.mem_iff]
    constructor
    · rintro (⟨hv, hv₁⟩ | ⟨hv₁, hv₂⟩)
      · exact ⟨hv, fun hv₂ => hv₁ (h'.grows.unbound v hv₂)⟩
      · exact ⟨h.grows.unbound v hv₁, hv₂⟩
    · rintro ⟨hv, hv₂⟩
      by_cases hv₁ : s₁.binding? v = none
      · exact .inr ⟨hv₁, hv₂⟩
      · exact .inl ⟨hv, hv₁⟩
  stands b hb := by
    rcases List.mem_append.1 hb with hb | hb
    · exact h'.grows.resolve_congr h.grows.acyclic (h.stands b hb)
    · exact h'.stands b hb

theorem bindsAll_bindTo (hs : s.Sound) (hv : s.Made v) (hb : s.binding? v = none) (ht : s.Has t)
    (ho : v ∉ (s.resolve t).vars) : s.BindsAll [(v, t)] (s.bindTo v t) where
  grows := grows_bindTo hs hv hb ht ho
  nodup := List.nodup_singleton v
  mem_iff w := by
    rw [binding?_bindTo hv, List.map_singleton, List.mem_singleton]
    by_cases hw : v = w
    · subst hw
      simp [hb]
    · simp [hw, Ne.symm hw]
  stands := by
    rintro b hmem
    rw [List.mem_singleton.1 hmem, resolve_var]
    refine (grows_bindTo hs hv hb ht ho).acyclic.value_of_bound ?_
    rw [binding?_bindTo hv, if_pos rfl]

theorem BindsAll.ncard_eq (h : s.BindsAll bs s') :
    {v | s.binding? v = none ∧ s'.binding? v ≠ none}.ncard = bs.length := by
  have hset : {v | s.binding? v = none ∧ s'.binding? v ≠ none} = ↑(bs.map Prod.fst).toFinset := by
    ext v
    rw [Finset.mem_coe, List.mem_toFinset, h.mem_iff]
    rfl
  rw [hset, Set.ncard_coe_finset, List.toFinset_card_of_nodup h.nodup, List.length_map]

end Store

def Ty.Differ : Ty → Ty → Prop
  | op _ n as, op _ m bs => ¬ (n = m ∧ as.length = bs.length)
  | _, _ => False

/-- a run with a record of the vars that it has bound so far, oldest first -/
abbrev Recording := EStateM Failure (Store × List (Var × Ty))

namespace StoreM

variable {α β : Type} {s s₁ s' : Store} {f : Failure} {bs bs' : List (Var × Ty)}

/-- one step of a run, with the vars that it binds -/
def observe (act : StoreM α) : Recording α := fun p =>
  match act p.1 with
  | .ok a s' => .ok a (s', p.2 ++ p.1.bindingsSince s')
  | .error f s' => .error f (s', p.2 ++ p.1.bindingsSince s')

instance : MonadLift StoreM Recording := ⟨observe⟩

def recorded (bs : List (Var × Ty)) :
    EStateM.Result Failure Store α → EStateM.Result Failure (Store × List (Var × Ty)) α
  | .ok a s' => .ok a (s', bs)
  | .error f s' => .error f (s', bs)

/-- nothing is recorded of a step that binds nothing, however it ends -/
theorem observe_of_keeps {act : StoreM α} (hk : s.Keeps (after act s)) (before : List (Var × Ty)) :
    observe act (s, before) = recorded before (act s) := by
  have hnone := Store.bindingsSince_eq_nil fun v hv => (hk.bound v).2 hv
  unfold after at hnone
  unfold observe
  cases hact : act s with
  | ok a s' =>
    rw [hact] at hnone
    simp only [hnone, List.append_nil, recorded]
  | error f s' =>
    rw [hact] at hnone
    simp only [hnone, List.append_nil, recorded]

/-- what a failed run notes last: the types or the name that it has stopped at -/
inductive Reason (s' : Store) : Failure → Event → Prop where
  | circular {v : Var} {t : Ty} : Reason s' (.problem (.circular (.var v) t)) (.circular v t)
  | mismatch {l r : Ty} {leftText rightText : String} (hne : l.Differ r)
      (hl : s'.Spells (s'.resolve l) leftText) (hr : s'.Spells (s'.resolve r) rightText) :
    Reason s' (.problem (.mismatch leftText rightText)) (.clash l r)
  /-- the clashing types could not be shown -/
  | namesExhausted {l r : Ty} (hne : l.Differ r) (h : s'.Exhausted) :
    Reason s' .namesExhausted (.clash l r)
  | undefinedName {x : String} : Reason s' (.problem (.undefinedName x)) (.undefinedName x)

/-- from `s` to `s'` the vars of `bs` were bound, and the account has one note on each of them, in
their order, then `closing`, and no more -/
structure Accounts (s : Store) (bs : List (Var × Ty)) (closing : List Event) (s' : Store) : Prop
    extends s.BindsAll bs s' where
  events_eq : s'.events.toList
    = s.events.toList ++ bs.map (fun b => .bound b.1 b.2) ++ closing

/-- the failures of a run from `s` that has bound the vars of `bs`; fuel may run out -/
def Stops (s : Store) (bs : List (Var × Ty)) (f : Failure) (s' : Store) : Prop :=
  f = .endlessChain ∨ ∃ e, Reason s' f e ∧ Accounts s bs [e] s'

/-- `w` does what `act` does in `s`, and its record is what the account says -/
def Watches (w : Recording α) (act : StoreM α) (s : Store) : Prop :=
  ∃ bs, (∀ before, w (s, before) = recorded (before ++ bs) (act s)) ∧
    Ends act s (fun _ s' => Accounts s bs [] s') (Stops s bs)

theorem Accounts.trans {es : List Event} (h : Accounts s bs [] s₁) (h' : Accounts s₁ bs' es s') :
    Accounts s (bs ++ bs') es s' where
  toBindsAll := h.toBindsAll.trans h'.toBindsAll
  events_eq := by
    rw [h'.events_eq, h.events_eq, List.append_nil, List.map_append, List.append_assoc _ (bs.map _)]

theorem accounts_of_keeps (hs : s.Sound) (hk : s.Keeps s') (he : s'.events = s.events) :
    Accounts s [] [] s' := ⟨hk.bindsAll hs, by simp [he]⟩

theorem accounts_of_noted {e : Event} (hs : s.Sound) (hk : s.Keeps s')
    (he : s'.events = s.events.push e) : Accounts s [] [e] s' := ⟨hk.bindsAll hs, by simp [he]⟩

theorem Stops.after (h : Stops s₁ bs' f s') (ha : Accounts s bs [] s₁) :
    Stops s (bs ++ bs') f s' :=
  h.imp_right fun ⟨e, hr, ha'⟩ => ⟨e, hr, ha.trans ha'⟩

namespace Watches

variable {w : Recording β} {k : β → StoreM α} {kw : β → Recording α} {act : StoreM β}

theorem pure (hs : s.Sound) (a : α) : Watches (Pure.pure a) (Pure.pure a) s :=
  ⟨[], fun before => by rw [List.append_nil]; rfl, accounts_of_keeps hs (.refl s) rfl⟩

theorem outOfFuel : Watches (throw .endlessChain : Recording α) (throw .endlessChain) s :=
  ⟨[], fun before => by rw [List.append_nil]; rfl, .inl rfl⟩

theorem bind (h : Watches w act s)
    (hk : ∀ b s₁, act s = .ok b s₁ → s.Grows s₁ → Watches (kw b) (k b) s₁) :
    Watches (w >>= kw) (act >>= k) s := by
  obtain ⟨bs, hw, hends⟩ := h
  cases hact : act s with
  | error f s₁ =>
    refine ⟨bs, fun before => ?_, ?_⟩
    · show EStateM.bind w kw _ = _
      rw [EStateM.bind, hw, hact, bind_of_error hact]
      rfl
    · rw [Ends, bind_of_error hact]
      exact hends.error hact
  | ok b s₁ =>
    have ha := hends.ok hact
    obtain ⟨bs', hw', hends'⟩ := hk b s₁ hact ha.grows
    refine ⟨bs ++ bs', fun before => ?_, ?_⟩
    · show EStateM.bind w kw _ = _
      rw [EStateM.bind, hw, hact, bind_of_ok hact, ← List.append_assoc, ← hw']
      rfl
    · rw [ends_bind_iff, ends_of_ok hact]
      exact hends'.mono (fun _ _ h => ha.trans h) fun _ _ h => h.after ha

theorem observe {act : StoreM α} (hs : s.Sound)
    (h : Ends act s (fun _ s' => s.Keeps s' ∧ s'.events = s.events) never) :
    Watches (observe act) act s := by
  obtain ⟨a, s', hact, hk, he⟩ := h.exists_ok
  refine ⟨[], fun before => ?_, ?_⟩
  · rw [observe_of_keeps (by rwa [after, hact]), List.append_nil]
  · rw [ends_of_ok hact]
    exact accounts_of_keeps hs hk he

/-- a note is written to the account, and not to the record -/
theorem observe_note (e : Event) (s : Store) (before : List (Var × Ty)) :
    StoreM.observe (note e) (s, before) =
      .ok ⟨⟩ ({ s with events := s.events.push e }, before) :=
  observe_of_keeps ((ends_note e).ok rfl).toKeeps before

theorem noted {w : Recording α} {act : StoreM α} (h : Watches w act s) (e : α → Event) :
    ∃ bs, (∀ before, (do
        let a ← w
        StoreM.observe (note (e a))
        return a : Recording α) (s, before) = recorded (before ++ bs) ((do
          let a ← act
          note (e a)
          return a : StoreM α) s)) ∧
      Ends (do
        let a ← act
        note (e a)
        return a) s (fun a s' => Accounts s bs [e a] s') (Stops s bs) := by
  obtain ⟨bs, hw, hends⟩ := h
  refine ⟨bs, fun before => ?_, ?_⟩
  · show EStateM.bind w _ _ = _
    cases hact : act s with
    | error f s₁ =>
      rw [EStateM.bind, hw, hact, bind_of_error hact]
      rfl
    | ok a s₁ =>
      rw [EStateM.bind, hw, hact, bind_of_ok hact]
      show EStateM.bind _ _ _ = _
      rw [EStateM.bind, observe_note]
      rfl
  · refine hends.bind fun a s₁ ha => ?_
    have hnote := accounts_of_noted ha.grows.sound ((ends_note (e a)).ok rfl).toKeeps rfl
    have hall := ha.trans hnote
    rwa [List.append_nil] at hall

end Watches

end StoreM
end LetPoly
